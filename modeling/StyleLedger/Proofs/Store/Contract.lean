import StyleLedger.Proofs.Store.Transaction
import StyleLedger.Proofs.Store.Verified

/-!
The contract of the store: which snapshots it takes, and what it holds afterwards.

A save inserts row after row and checks each of them against what has been inserted before. That all
rows pass comes to a condition on the snapshot as a whole, which does not speak of any order: every
value can be held by a cell, and the rows, as their columns hold them, meet the constraints of the
schema (`Snapshot.check_eq_ok_iff`). Each check is taken apart into what it asks of one row, and the
rows of a table are put together by induction.

* `Snapshot.IsScalar` — no cell is given a value with parts.
* `Snapshot.HasKinds` — every cell is empty or of the kind its column is for. Such rows are held as
  they are (`HasKinds.stored_eq`).
-/

namespace StyleLedger

open Outcome

/-! ## 1. Checks of one row -/

theorem Outcome.forM_eq_ok_iff {ε α : Type} {f : α → Except ε Unit} {xs : List α} :
    xs.forM f = .ok () ↔ ∀ x ∈ xs, f x = .ok () := by
  refine ⟨fun h => ?_, forM_eq_ok⟩
  induction xs with
  | nil => simp
  | cons x xs ih =>
    have hcons : (f x >>= fun _ => xs.forM f) = .ok () := h
    obtain ⟨_, hx, hxs⟩ := bind_eq_ok.1 hcons
    exact List.forall_mem_cons.2 ⟨hx, ih hxs⟩

theorem Json.unstorable?_eq_none_iff {v : Json} :
    v.unstorable? = none ↔ v.isScalar = true ∧ ∀ n : Int, v = .int n → fitsWord n = true := by
  cases v with
  | number n =>
    cases n with
    | integer n => simp [Json.unstorable?, Json.isScalar, Json.int]
    | real x => simp [Json.unstorable?, Json.isScalar, Json.int]
  | _ => simp [Json.unstorable?, Json.isScalar, Json.int]

theorem checkStorable_eq_ok_iff {r : Row} {columns : List Column} (position : Nat) :
    checkStorable r position columns = .ok () ↔
      ∀ c ∈ columns, (r.get c.name).unstorable? = none := by
  induction columns generalizing position with
  | nil => simp [checkStorable]
  | cons c cs ih =>
    rw [checkStorable, List.forall_mem_cons]
    cases hc : (r.get c.name).unstorable? with
    | some reason => simp
    | none => simp [ih]

theorem checkFilled_eq_ok_iff {table : String} {r : Row} {columns : List Column} :
    checkFilled table r columns = .ok () ↔
      ∀ c ∈ columns, c.required = true → r.get c.name ≠ .null := by
  have hnone : columns.find? (fun c => c.required && (r.get c.name).isNull) = none ↔
      ∀ c ∈ columns, c.required = true → r.get c.name ≠ .null := by
    rw [List.find?_eq_none]
    refine forall₂_congr fun c _ => ?_
    rw [Bool.and_eq_true, Json.isNull_iff, not_and]
  rw [← hnone, checkFilled]
  cases columns.find? fun c => c.required && (r.get c.name).isNull with
  | none => simp
  | some c => simp

/-- A row that a table takes, whatever rows are there already: its values can be held, and as the
table holds it, it is filled and points at rows that are there. -/
structure Schema.Takes (schema : Schema) (targets : Targets) (r : Row) : Prop where
  storable : ∀ c ∈ schema.columns, (r.get c.name).unstorable? = none
  filled : ∀ c ∈ schema.columns, c.required = true → (schema.store r).get c.name ≠ .null
  points : schema.columns.all (pointsInto targets (schema.store r)) = true

theorem checkRow_eq_ok_iff {schema : Schema} {targets : Targets} {taken : List Json} {r : Row}
    (hid : (schema.store r).id ≠ .null) :
    checkRow schema targets taken r = .ok () ↔
      schema.Takes targets r ∧ (schema.store r).id ∉ taken := by
  have hnull : (schema.store r).id.isNull = false := by
    rw [← Bool.not_eq_true, Json.isNull_iff]
    exact hid
  simp only [checkRow, bind_eq_ok, hnull]
  constructor
  · rintro ⟨_, hstorable, _, hfilled, h⟩
    split at h
    · cases h
    · next htaken =>
      split at h
      · next hpoints =>
        exact ⟨⟨(checkStorable_eq_ok_iff 1).1 hstorable, checkFilled_eq_ok_iff.1 hfilled, hpoints⟩,
          by simpa using htaken⟩
      · cases h
  · rintro ⟨htakes, htaken⟩
    refine ⟨(), (checkStorable_eq_ok_iff 1).2 htakes.storable, (),
      checkFilled_eq_ok_iff.2 htakes.filled, ?_⟩
    simp [htaken, htakes.points]

/-! ## 2. Checks of a table -/

/-- Rows are taken one after the other if each is taken by itself and no identifier occurs twice. -/
theorem checkRows_eq_ok_iff {schema : Schema} {targets : Targets} {rows : List Row}
    (hids : ∀ r ∈ rows, (schema.store r).id ≠ .null) {taken : List Json} (htaken : taken.Nodup) :
    checkRows schema targets taken rows = .ok () ↔ (∀ r ∈ rows, schema.Takes targets r) ∧
      (taken ++ rows.map fun r => (schema.store r).id).Nodup := by
  induction rows generalizing taken with
  | nil => simpa [checkRows] using htaken
  | cons r rows ih =>
    obtain ⟨hid, hids⟩ := List.forall_mem_cons.1 hids
    have hconcat : taken ++ (r :: rows).map (fun r => (schema.store r).id) =
        (taken ++ [(schema.store r).id]) ++ rows.map fun r => (schema.store r).id := by
      simp
    have hnew : (taken ++ [(schema.store r).id]).Nodup ↔ (schema.store r).id ∉ taken := by
      rw [← List.concat_eq_append, List.nodup_concat]
      exact and_iff_left htaken
    simp only [checkRows, bind_eq_ok, checkRow_eq_ok_iff hid, List.forall_mem_cons, hconcat]
    constructor
    · rintro ⟨_, ⟨htakes, hfree⟩, hrows⟩
      obtain ⟨hall, hdistinct⟩ := (ih hids (hnew.2 hfree)).1 hrows
      exact ⟨⟨htakes, hall⟩, hdistinct⟩
    · rintro ⟨⟨htakes, hall⟩, hdistinct⟩
      have hnodup : (taken ++ [(schema.store r).id]).Nodup := (List.nodup_append.1 hdistinct).1
      exact ⟨(), ⟨htakes, hnew.1 hnodup⟩, (ih hids hnodup).2 ⟨hall, hdistinct⟩⟩

/-! ## 3. Checks of a snapshot -/

namespace Snapshot

variable {s : Snapshot}

/-- No cell is given a value with parts. -/
def IsScalar (s : Snapshot) : Prop :=
  ∀ t ∈ s.tables, ∀ r ∈ t.2, ∀ c ∈ t.1.columns, (r.get c.name).isScalar = true

/-- Every row has a text for its identifier. -/
def HasTextIds (s : Snapshot) : Prop :=
  ∀ t ∈ s.tables, ∀ r ∈ t.2, r.id.IsString

theorem tables_stored (s : Snapshot) :
    s.stored.tables = s.tables.map fun t => (t.1, t.2.map t.1.store) :=
  rfl

/-- The constraints of the schema, with one condition for all references. -/
theorem meetsSchema_iff : s.MeetsSchema ↔
    (∀ t ∈ s.tables, (t.2.map (·.id)).Nodup) ∧
    (∀ t ∈ s.tables, ∀ r ∈ t.2, ∀ c ∈ t.1.columns, c.required = true → r.get c.name ≠ .null) ∧
    ∀ t ∈ s.tables, ∀ r ∈ t.2, t.1.columns.all (pointsInto
      { selectors := s.selectors.map (·.id), layers := s.layers.map (·.id) } r) = true := by
  refine ⟨fun h => ⟨h.ids, h.filled, h.all_pointsInto⟩, fun ⟨hids, hfilled, hpoints⟩ => ?_⟩
  have hstyles : (Schema.styles, s.styles) ∈ s.tables := by simp [tables]
  have hstarting : (Schema.startingStyles, s.startingStyles) ∈ s.tables := by simp [tables]
  have hreference : ∀ {t r c target}, t ∈ s.tables → r ∈ t.2 → c ∈ t.1.columns →
      c.target = some target → r.get c.name = .null ∨
        r.get c.name ∈ Targets.of
          { selectors := s.selectors.map (·.id), layers := s.layers.map (·.id) } target := by
    intro t r c target ht hr hc htarget
    have hinto := List.all_eq_true.1 (hpoints t ht r hr) c hc
    rw [pointsInto, htarget] at hinto
    simpa [Json.isNull_iff] using hinto
  have hrequired : ∀ {t r c target}, t ∈ s.tables → r ∈ t.2 → c ∈ t.1.columns →
      c.target = some target → c.required = true → r.get c.name ∈
        Targets.of { selectors := s.selectors.map (·.id), layers := s.layers.map (·.id) } target :=
    fun ht hr hc htarget hrequired =>
      (hreference ht hr hc htarget).resolve_left (hfilled _ ht _ hr _ hc hrequired)
  have hselector : Column.pointer "selector_id" .selectors ∈ Schema.styles.columns := by decide
  have hlayer : Column.optionalPointer "layer_id" .layers ∈ Schema.styles.columns := by decide
  have hroot : Column.optionalPointer "scope_root_id" .selectors ∈ Schema.styles.columns := by
    decide
  have hlimit : Column.optionalPointer "scope_limit_id" .selectors ∈ Schema.styles.columns := by
    decide
  have hstart : Column.pointer "selector_id" .selectors ∈ Schema.startingStyles.columns := by decide
  exact
    { ids := hids
      filled := hfilled
      selector := fun r hr => hrequired hstyles hr hselector rfl rfl
      layer := fun r hr => hreference hstyles hr hlayer rfl
      scopeRoot := fun r hr => hreference hstyles hr hroot rfl
      scopeLimit := fun r hr => hreference hstyles hr hlimit rfl
      starting := fun r hr => hrequired hstarting hr hstart rfl rfl }

/-- The first column of every table is for the identifier. -/
theorem exists_columns_eq : ∀ t ∈ s.tables, ∃ cs, t.1.columns = .identifier :: cs :=
  List.forall_iff_forall_mem.1 ⟨⟨_, rfl⟩, ⟨_, rfl⟩, ⟨_, rfl⟩, ⟨_, rfl⟩, ⟨_, rfl⟩, ⟨_, rfl⟩,
    ⟨_, rfl⟩, ⟨_, rfl⟩, ⟨_, rfl⟩, ⟨_, rfl⟩, ⟨_, rfl⟩, ⟨_, rfl⟩, ⟨_, rfl⟩, ⟨_, rfl⟩⟩

/-- A text is held as it is. -/
theorem id_store {t : Schema × List Row} (ht : t ∈ s.tables) {r : Row} (hid : r.id.IsString) :
    (t.1.store r).id = r.id := by
  obtain ⟨cs, hcolumns⟩ := exists_columns_eq t ht
  have hstore : (t.1.store r).id = Affinity.text.store r.id := by
    rw [Schema.store, hcolumns]
    rfl
  obtain ⟨text, htext⟩ := hid
  rw [hstore, htext]
  rfl

/-- Of a table whose identifiers are computed from names no rows are taken if one of them occurs
twice. -/
theorem nodup_ids_of_check {t : Schema × List Row} (hcheck : s.check = .ok ()) (ht : t ∈ s.tables)
    {kind : EntityKind} {names : List Json} (hnames : t.2.map (·.id) = names.map (idCell kind)) :
    (names.map (idCell kind)).Nodup := by
  have hids : ∀ r ∈ t.2, r.id.IsString := by
    intro r hr
    have hid := List.mem_map_of_mem (f := (·.id)) hr
    rw [hnames] at hid
    obtain ⟨name, -, heq⟩ := List.mem_map.1 hid
    exact heq ▸ isString_idCell kind name
  have hstored : t.2.map (fun r => (t.1.store r).id) = names.map (idCell kind) :=
    (List.map_congr_left fun r hr => id_store ht (hids r hr)).trans hnames
  have hrows : checkRows t.1 s.targets [] t.2 = .ok () := forM_eq_ok_iff.1 hcheck t ht
  have hnodup := ((checkRows_eq_ok_iff (fun r hr hnull => ?_) List.nodup_nil).1 hrows).2
  · rwa [List.nil_append, hstored] at hnodup
  · obtain ⟨text, htext⟩ := hids r hr
    rw [id_store ht (hids r hr), htext] at hnull
    cases hnull

/-- All rows of a snapshot are taken if and only if every value can be held, and the rows as their
tables hold them meet the schema. -/
theorem check_eq_ok_iff (hids : s.HasTextIds) :
    s.check = .ok () ↔ s.IsScalar ∧ s.HoldsWords ∧ s.stored.MeetsSchema := by
  have htable : ∀ t ∈ s.tables, checkRows t.1 s.targets [] t.2 = .ok () ↔
      (∀ r ∈ t.2, t.1.Takes s.targets r) ∧ (t.2.map fun r => (t.1.store r).id).Nodup := by
    intro t ht
    refine checkRows_eq_ok_iff (fun r hr hnull => ?_) List.nodup_nil
    obtain ⟨text, htext⟩ := hids t ht r hr
    rw [id_store ht (hids t ht r hr), htext] at hnull
    cases hnull
  have hnodup : (∀ t ∈ s.stored.tables, (t.2.map (·.id)).Nodup) ↔
      ∀ t ∈ s.tables, (t.2.map fun r => (t.1.store r).id).Nodup := by
    simp only [tables_stored, List.forall_mem_map, List.map_map]
    rfl
  have htargets : ({ selectors := s.stored.selectors.map (·.id)
                     layers := s.stored.layers.map (·.id) } : Targets) = s.targets := rfl
  rw [check, forM_eq_ok_iff, forall₂_congr htable, meetsSchema_iff, hnodup, htargets]
  simp only [tables_stored, List.forall_mem_map]
  constructor
  · intro h
    have hstorable : ∀ t ∈ s.tables, ∀ r ∈ t.2, ∀ c ∈ t.1.columns,
        (r.get c.name).isScalar = true ∧ ∀ n : Int, r.get c.name = .int n → fitsWord n = true :=
      fun t ht r hr c hc => Json.unstorable?_eq_none_iff.1 (((h t ht).1 r hr).storable c hc)
    exact ⟨fun t ht r hr c hc => (hstorable t ht r hr c hc).1,
      fun t ht r hr c hc => (hstorable t ht r hr c hc).2,
      fun t ht => (h t ht).2, fun t ht r hr => ((h t ht).1 r hr).filled,
      fun t ht r hr => ((h t ht).1 r hr).points⟩
  · rintro ⟨hscalar, hwords, hdistinct, hfilled, hpoints⟩ t ht
    refine ⟨fun r hr => ⟨fun c hc => ?_, hfilled t ht r hr, hpoints t ht r hr⟩, hdistinct t ht⟩
    exact Json.unstorable?_eq_none_iff.2 ⟨hscalar t ht r hr c hc, hwords t ht r hr c hc⟩

/-! ## 4. Rows that are held as they are -/

/-- Every row has the cells of its table, and each is empty or of the kind its column is for. -/
def HasKinds (s : Snapshot) : Prop :=
  ∀ t ∈ s.tables, ∀ r ∈ t.2, r.cells = t.1.columns.map (fun c => (c.name, r.get c.name)) ∧
    ∀ c ∈ t.1.columns, r.get c.name = .null ∨ c.Fits (r.get c.name)

/-- Such rows are held as they are, also where they are empty. -/
theorem HasKinds.stored_eq (h : s.HasKinds) : s.stored = s := by
  refine stored_eq_self fun t ht r hr => ?_
  obtain ⟨hcells, hkinds⟩ := h t ht r hr
  refine Schema.store_eq_self hcells fun c hc => ?_
  rcases hkinds c hc with hnull | hfits
  · rw [hnull]
    cases c.affinity <;> rfl
  · exact hfits.store_eq

theorem HasKinds.isScalar (h : s.HasKinds) : s.IsScalar := by
  intro t ht r hr c hc
  rcases (h t ht r hr).2 c hc with hnull | hfits
  · rw [hnull]
    rfl
  · rcases hfits.unstorable?_cases with hnone | ⟨n, hn, -⟩
    · exact (Json.unstorable?_eq_none_iff.1 hnone).1
    · rw [hn]
      rfl

end Snapshot

/-! ## 5. The contract -/

/-- A raw block whose number takes more than 64 bits. -/
def Snapshot.longNumber : Snapshot :=
  { rawBlocks := [⟨[("id", .text "r"), ("css", .text "x"), ("sequence", .int 9223372036854775808),
      ("origin_file", .null), ("migration_id", .null)]⟩] }

/-- A selector, and a starting style that points at it. -/
def Snapshot.startingPair : Snapshot :=
  { selectors := [⟨[("id", .text "s"), ("name", .text "card"), ("def_json", .null),
      ("origin_file", .null), ("migration_id", .null), ("deleted", .bool false),
      ("created_at", .text ""), ("updated_at", .text "")]⟩]
    startingStyles := [⟨[("id", .text "t"), ("selector_id", .text "s"), ("props_json", .text "[]"),
      ("origin_file", .null), ("migration_id", .null)]⟩] }

namespace Action

open Snapshot (longNumber startingPair)

/-- A save succeeds if and only if no value has parts, every integer fits into 64 bits, and the
rows as their tables hold them meet the schema: identifiers are distinct, columns that must be
filled are, and references lead to rows of the snapshot itself. Then the store holds these rows in
their order, and its log as it was. After a failure it holds what it held. Rows whose cells are
empty or of the kind of their columns are held as they are. -/
theorem save_ok_iff (store : Store) (s : Snapshot) (hids : s.HasTextIds) :
    ∃ result after, outcome (save s) (.idle store) = (result, after) ∧
      (result = .ok () ↔ s.IsScalar ∧ s.HoldsWords ∧ s.stored.MeetsSchema) ∧
      (result = .ok () →
        after = .idle { store with content := { s.stored with migrations := store.log } }) ∧
      (result ≠ .ok () → after = .idle store) ∧
      (s.HasKinds → s.stored = s ∧ s.IsScalar) := by
  have hkinds : s.HasKinds → s.stored = s ∧ s.IsScalar := fun h => ⟨h.stored_eq, h.isScalar⟩
  have hcheck := Snapshot.check_eq_ok_iff hids
  have hsave : outcome (save s) (.idle store) =
      settled store ((store.save s).map fun store' => (store', ())) := performs_save s store
  cases hresult : s.check with
  | error v =>
    have hrefused : store.save s = .error v := by
      rw [Store.save, hresult]
      rfl
    rw [hrefused] at hsave
    refine ⟨.error v, .idle store, hsave, iff_of_false (by simp) fun h => ?_, by simp, fun _ => rfl,
      hkinds⟩
    simpa [hresult] using hcheck.2 h
  | ok _ =>
    have hsaved : store.save s =
        .ok { store with content := { s.stored with migrations := store.log } } := by
      rw [Store.save, hresult]
      rfl
    rw [hsaved] at hsave
    exact ⟨.ok (), _, hsave, iff_of_true rfl (hcheck.1 hresult), fun _ => rfl,
      fun h => absurd rfl h, hkinds⟩

/-- A number that takes more than 64 bits is refused although all constraints are met. -/
theorem save_longNumber : longNumber.HasTextIds ∧ longNumber.HasKinds ∧ longNumber.MeetsSchema ∧
    outcome (save longNumber) (.idle {}) = (.error (.unstorable 3 .tooLarge), .idle {}) := by
  have hrows : ∀ t ∈ longNumber.tables, ∀ r ∈ t.2,
      t.1 = .rawBlocks ∧ r ∈ longNumber.rawBlocks := by decide
  have hrefused : Store.save {} longNumber = .error (.unstorable 3 .tooLarge) := by decide
  refine ⟨fun t ht r hr => ?_, fun t ht r hr => ?_, ?_, ?_⟩
  · obtain rfl := List.mem_singleton.1 (hrows t ht r hr).2
    exact ⟨"r", rfl⟩
  · obtain ⟨hschema, hr⟩ := hrows t ht r hr
    obtain rfl := List.mem_singleton.1 hr
    rw [hschema]
    exact ⟨rfl, List.forall_iff_forall_mem.1 ⟨.inr (Json.isWord_text "r"),
      .inr (Json.isString_text "x"), .inr ⟨9223372036854775808, rfl⟩, .inl rfl, .inl rfl⟩⟩
  · constructor <;> decide
  · refine (performs_save longNumber {}).trans ?_
    beta_reduce
    rw [hrefused]
    rfl

/-- A pair of rows takes the place of a raw block. -/
theorem save_ok_iff_startingPair : startingPair.HasTextIds ∧
    outcome (save startingPair) (.idle { content := longNumber }) =
      (.ok (), .idle { content := startingPair }) := by
  have hrows : ∀ t ∈ startingPair.tables, ∀ r ∈ t.2,
      r.id = .text "s" ∨ r.id = .text "t" := by decide
  have hids : startingPair.HasTextIds := fun t ht r hr =>
    (hrows t ht r hr).elim (fun h => ⟨_, h⟩) fun h => ⟨_, h⟩
  have hstorable : ∀ t ∈ startingPair.tables, ∀ r ∈ t.2, ∀ c ∈ t.1.columns,
      (r.get c.name).unstorable? = none := by decide
  have hcells := fun t ht r hr c hc => Json.unstorable?_eq_none_iff.1 (hstorable t ht r hr c hc)
  have hmeets : startingPair.stored.MeetsSchema := by constructor <;> decide
  obtain ⟨result, after, hrun, hiff, hafter, -⟩ := save_ok_iff { content := longNumber }
    startingPair hids
  have hok : result = .ok () := hiff.2
    ⟨fun t ht r hr c hc => (hcells t ht r hr c hc).1,
      fun t ht r hr c hc => (hcells t ht r hr c hc).2, hmeets⟩
  rw [hrun, hafter hok, hok]
  exact ⟨hids, rfl⟩

end Action

end StyleLedger
