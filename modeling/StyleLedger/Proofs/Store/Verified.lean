import StyleLedger.Audit
import StyleLedger.Proofs.Digest
import StyleLedger.Proofs.Source.Evaluation
import StyleLedger.Proofs.Store.Identified
import StyleLedger.Proofs.Store.Persisted

/-!
Everything that statements and reloads lead to can be stored, and an audit finds no error in its
references, its stored texts and its names.

The store checks rows one by one, in the order of the tables. Rows that fit their tables and meet
the constraints of the schema pass every check but one: an integer may be too large for a cell
(`MeetsSchema.save`). No constraint is at fault then, and it takes more statements than 64 bits can
count. The audit asks the same of references as the store does, that stored texts can be read, which
plain definitions and declarations can, and that names are distinct, which those of a table are.

* `Snapshot.HoldsWords` — every integer fits into a cell.
* `SucceedsIf` — a check succeeds, or meets an integer that is too large.
-/

namespace StyleLedger

open Outcome Identity

/-! ## 1. What the store accepts -/

/-- Every integer in a cell fits into 64 bits. -/
def Snapshot.HoldsWords (s : Snapshot) : Prop :=
  ∀ t ∈ s.tables, ∀ r ∈ t.2, ∀ c ∈ t.1.columns, ∀ n : Int,
    r.get c.name = .int n → fitsWord n = true

/-- A check succeeds, or meets an integer that is too large; under a condition it succeeds. -/
def SucceedsIf (W : Prop) (x : Except Violation Unit) : Prop :=
  x = .ok () ∨ ¬W ∧ ∃ position, x = .error (.unstorable position .tooLarge)

namespace SucceedsIf

variable {W : Prop} {x y : Except Violation Unit}

theorem bind (hx : SucceedsIf W x) (hy : SucceedsIf W y) : SucceedsIf W (x >>= fun _ => y) := by
  rcases hx with rfl | ⟨hW, position, rfl⟩
  · exact hy
  · exact .inr ⟨hW, position, rfl⟩

theorem forM {α : Type} {f : α → Except Violation Unit} {xs : List α}
    (h : ∀ a ∈ xs, SucceedsIf W (f a)) : SucceedsIf W (xs.forM f) := by
  induction xs with
  | nil => exact .inl rfl
  | cons a xs ih =>
    obtain ⟨ha, hxs⟩ := List.forall_mem_cons.1 h
    exact ha.bind (ih hxs)

end SucceedsIf

/-- A value of the kind that a column is for can be held, unless it is an integer that is too
large. -/
theorem Column.Fits.unstorable?_cases {c : Column} {v : Json} (h : c.Fits v) :
    v.unstorable? = none ∨
      ∃ n : Int, v = .int n ∧ fitsWord n = false ∧ v.unstorable? = some .tooLarge := by
  have hword : v.IsWord → v.unstorable? = none := by
    rintro (rfl | ⟨s, rfl⟩) <;> rfl
  have hwhole : v.IsWhole → v.unstorable? = none ∨
      ∃ n : Int, v = .int n ∧ fitsWord n = false ∧ v.unstorable? = some .tooLarge := by
    rintro ⟨n, rfl⟩
    cases hn : fitsWord n with
    | true => exact .inl (by simp [Json.int, Json.unstorable?, hn])
    | false => exact .inr ⟨n, rfl, hn, by simp [Json.int, Json.unstorable?, hn]⟩
  unfold Column.Fits at h
  split at h
  · exact .inl (hword h.isWord)
  · exact .inl (hword h)
  · exact hwhole h
  · rcases h with rfl | h
    · exact .inl rfl
    · exact hwhole h
  · obtain ⟨b, rfl⟩ := h
    exact .inl rfl

theorem succeedsIf_checkStorable {W : Prop} {r : Row} {columns : List Column}
    (hfits : ∀ c ∈ columns, c.Fits (r.get c.name))
    (hwords : W → ∀ c ∈ columns, ∀ n : Int, r.get c.name = .int n → fitsWord n = true)
    (position : Nat) : SucceedsIf W (checkStorable r position columns) := by
  induction columns generalizing position with
  | nil => exact .inl rfl
  | cons c cs ih =>
    obtain ⟨hc, hcs⟩ := List.forall_mem_cons.1 hfits
    rw [checkStorable]
    rcases hc.unstorable?_cases with hnone | ⟨n, hn, hlarge, hsome⟩
    · rw [hnone]
      exact ih hcs (fun hW d hd => hwords hW d (List.mem_cons_of_mem c hd)) _
    · rw [hsome]
      refine .inr ⟨fun hW => ?_, position, rfl⟩
      rw [hwords hW c List.mem_cons_self n hn] at hlarge
      simp at hlarge

/-- A row that a table takes: it fits, what it points at is there, and under a condition its
integers are not too large. -/
structure Schema.Admits (schema : Schema) (targets : Targets) (W : Prop) (r : Row) : Prop where
  fits : schema.Fits r
  points : schema.columns.all (pointsInto targets r) = true
  words : W → ∀ c ∈ schema.columns, ∀ n : Int, r.get c.name = .int n → fitsWord n = true

namespace Schema.Admits

variable {schema : Schema} {targets : Targets} {W : Prop}

theorem checkFilled {r : Row} (h : schema.Admits targets W r) :
    StyleLedger.checkFilled schema.table r schema.columns = .ok () := by
  have hnone : schema.columns.find? (fun c => c.required && (r.get c.name).isNull) = none := by
    refine List.find?_eq_none.2 fun c hc => ?_
    rw [Bool.and_eq_true, Json.isNull_iff]
    rintro ⟨hrequired, hnull⟩
    exact (h.fits.kinds c hc).ne_null hrequired hnull
  rw [StyleLedger.checkFilled, hnone]

theorem checkRow {r : Row} (h : schema.Admits targets W r) {taken : List Json}
    (htaken : r.id ∉ taken) : SucceedsIf W (StyleLedger.checkRow schema targets taken r) := by
  refine (succeedsIf_checkStorable h.fits.kinds h.words 1).bind (.inl ?_)
  simp [h.fits.store_eq, h.checkFilled, htaken, h.points, bind, Except.bind]

/-- Rows with identifiers of their own are taken one after the other. -/
theorem checkRows {rows : List Row} (h : ∀ r ∈ rows, schema.Admits targets W r)
    {taken : List Json} (hdistinct : (taken ++ rows.map (·.id)).Nodup) :
    SucceedsIf W (StyleLedger.checkRows schema targets taken rows) := by
  induction rows generalizing taken with
  | nil => exact .inl rfl
  | cons r rows ih =>
    obtain ⟨hr, hrows⟩ := List.forall_mem_cons.1 h
    have htaken : r.id ∉ taken := fun hmem =>
      (List.nodup_append.1 hdistinct).2.2 r.id hmem r.id (by simp) rfl
    refine (hr.checkRow htaken).bind (ih hrows ?_)
    rw [hr.fits.store_eq]
    simpa using hdistinct

end Schema.Admits

namespace Snapshot.MeetsSchema

variable {s : Snapshot}

/-- What every row points at is there. -/
theorem all_pointsInto (h : s.MeetsSchema) : ∀ t ∈ s.tables, ∀ r ∈ t.2,
    t.1.columns.all (pointsInto
      { selectors := s.selectors.map (·.id), layers := s.layers.map (·.id) } r) = true := by
  have hpoints : ∀ {v : Json} {ids : List Json}, v = .null ∨ v ∈ ids →
      (v.isNull || ids.contains v) = true := by
    rintro v ids (rfl | hv)
    · rfl
    · simp [hv]
  refine List.forall_iff_forall_mem.1
    ⟨fun _ _ => rfl, fun _ _ => rfl, fun _ _ => rfl, fun r hr => ?_, fun _ _ => rfl, fun _ _ => rfl,
      fun _ _ => rfl, fun _ _ => rfl, fun _ _ => rfl, fun _ _ => rfl, fun _ _ => rfl,
      fun _ _ => rfl, fun _ _ => rfl, fun r hr => ?_⟩
  · exact List.all_eq_true.2 (List.forall_iff_forall_mem.1
      ⟨rfl, hpoints (.inr (h.selector r hr)), rfl, rfl, hpoints (h.layer r hr),
        hpoints (h.scopeRoot r hr), hpoints (h.scopeLimit r hr), rfl, rfl, rfl, rfl, rfl, rfl, rfl,
        rfl, rfl, rfl, rfl, rfl⟩)
  · exact List.all_eq_true.2 (List.forall_iff_forall_mem.1
      ⟨rfl, hpoints (.inr (h.starting r hr)), rfl, rfl, rfl⟩)

theorem check (h : s.MeetsSchema) (hfits : s.Fits) : SucceedsIf s.HoldsWords s.check := by
  have htargets : s.targets =
      { selectors := s.selectors.map (·.id), layers := s.layers.map (·.id) } := by
    rw [targets, hfits.stored_eq]
  refine SucceedsIf.forM fun t ht => ?_
  rw [htargets]
  refine Schema.Admits.checkRows (fun r hr => ?_) (by simpa using h.ids t ht)
  exact ⟨hfits t ht r hr, h.all_pointsInto t ht r hr, fun hwords => hwords t ht r hr⟩

/-- Rows that meet the schema are saved as they are, unless an integer is too large. -/
theorem save (h : s.MeetsSchema) (hfits : s.Fits) (store : Store) :
    store.save s = .ok { store with content := { s with migrations := store.log } } ∨
      ¬s.HoldsWords ∧ ∃ position, store.save s = .error (.unstorable position .tooLarge) := by
  rcases h.check hfits with hok | ⟨hwords, position, herror⟩
  · left
    rw [Store.save, hok, hfits.stored_eq]
    rfl
  · right
    refine ⟨hwords, position, ?_⟩
    rw [Store.save, herror]
    rfl

end Snapshot.MeetsSchema

/-! ## 2. What an audit finds -/

/-- A cell is empty, or it holds a text that can be read. -/
def Json.IsStoredText (v : Json) : Prop :=
  v = .null ∨ ∃ w, Json.read v.shown = .ok w

theorem Json.isStoredText_write {v : Json} (h : v.IsPlain) : (Json.text v.write).IsStoredText :=
  .inr ⟨v, mapError_eq_ok.1 (Json.ofText_write h)⟩

namespace Audit

variable {s : Snapshot}

theorem mem_references {selectorIds layerIds : List Json} {r : Row} {x : String × Json × List Json}
    (hx : x ∈ references selectorIds layerIds r) :
    x = ("selector", r.get "selector_id", selectorIds) ∨
      (r.get "layer_id").isTrue = true ∧ x = ("layer", r.get "layer_id", layerIds) ∨
      (r.get "scope_root_id").isTrue = true ∧
        x = ("scope root", r.get "scope_root_id", selectorIds) ∨
      (r.get "scope_limit_id").isTrue = true ∧
        x = ("scope limit", r.get "scope_limit_id", selectorIds) := by
  simpa [references, or_assoc] using hx

theorem isWord_cells (schema : Schema) {rows : List Row} (h : ∀ r ∈ rows, schema.Fits r)
    (column : String)
    (hc : (column, .text) ∈ schema.columns.map fun c => (c.name, c.affinity)) :
    ∀ v ∈ rows.map (·.get column), v.IsWord := by
  intro v hv
  obtain ⟨r, hr, rfl⟩ := List.mem_map.1 hv
  exact (h r hr).word column hc

theorem isString_cells (schema : Schema) {rows : List Row} (h : ∀ r ∈ rows, schema.Fits r)
    (column : String)
    (hc : (column, .text, true) ∈
      schema.columns.map fun c => (c.name, c.affinity, c.required)) :
    ∀ v ∈ rows.map (·.get column), v.IsString := by
  intro v hv
  obtain ⟨r, hr, rfl⟩ := List.mem_map.1 hv
  exact (h r hr).string column hc

/-- Names are texts or null. -/
theorem isWord_nameColumns (hfits : s.Fits) :
    ∀ x ∈ nameColumns s, ∀ v ∈ x.2.2.map (·.get x.2.1), v.IsWord := by
  obtain ⟨htokens, hselectors, hlayers, -, hproperties, -, hkeyframes, -, -, -, hcounter, hfeature,
    hpalette, hstarting⟩ := List.forall_iff_forall_mem.2 hfits
  refine List.forall_iff_forall_mem.1 ⟨?tokens, ?selectors, ?layers, ?properties, ?keyframes,
    ?counterStyles, ?fontFeatureValues, ?fontPaletteValues, ?startingStyles⟩
  case tokens => exact isWord_cells .tokens htokens "name" (by decide)
  case selectors => exact isWord_cells .selectors hselectors "name" (by decide)
  case layers => exact isWord_cells .layers hlayers "name" (by decide)
  case properties => exact isWord_cells .properties hproperties "name" (by decide)
  case keyframes => exact isWord_cells .keyframes hkeyframes "name" (by decide)
  case counterStyles => exact isWord_cells .counterStyles hcounter "name" (by decide)
  case fontFeatureValues => exact isWord_cells .fontFeatureValues hfeature "family" (by decide)
  case fontPaletteValues => exact isWord_cells .fontPaletteValues hpalette "name" (by decide)
  case startingStyles => exact isWord_cells .startingStyles hstarting "selector_id" (by decide)

/-- Stored texts are texts or null. -/
theorem isWord_textColumns (hfits : s.Fits) :
    ∀ x ∈ textColumns s, ∀ v ∈ x.2.2.map (·.get x.2.1), v.IsWord := by
  obtain ⟨-, hselectors, -, -, -, hfaces, hkeyframes, -, -, hpages, hcounter, hfeature, hpalette,
    hstarting⟩ := List.forall_iff_forall_mem.2 hfits
  refine List.forall_iff_forall_mem.1 ⟨?selectors, ?fontFaces, ?keyframes, ?pages, ?counterStyles,
    ?fontFeatureValues, ?fontPaletteValues, ?startingStyles⟩
  case selectors => exact isWord_cells .selectors hselectors "def_json" (by decide)
  case fontFaces => exact isWord_cells .fontFaces hfaces "props_json" (by decide)
  case keyframes => exact isWord_cells .keyframes hkeyframes "frames_json" (by decide)
  case pages => exact isWord_cells .pages hpages "props_json" (by decide)
  case counterStyles => exact isWord_cells .counterStyles hcounter "props_json" (by decide)
  case fontFeatureValues =>
    exact isWord_cells .fontFeatureValues hfeature "features_json" (by decide)
  case fontPaletteValues => exact isWord_cells .fontPaletteValues hpalette "props_json" (by decide)
  case startingStyles => exact isWord_cells .startingStyles hstarting "props_json" (by decide)

/-- The identifiers of selectors and layers are compared as they are. -/
theorem isWord_ids (hfits : s.Fits) :
    ∀ v ∈ s.selectors.map (·.id) ++ s.layers.map (·.id), v.IsWord := by
  obtain ⟨-, hselectors, hlayers, -⟩ := List.forall_iff_forall_mem.2 hfits
  exact List.forall_mem_append.2 ⟨isWord_cells .selectors hselectors "id" (by decide),
    isWord_cells .layers hlayers "id" (by decide)⟩

/-- So are the references of styles. -/
theorem isWord_references (hfits : s.Fits) {r : Row} (hr : r ∈ s.styles)
    {selectorIds layerIds : List Json} {x : String × Json × List Json}
    (hx : x ∈ references selectorIds layerIds r) : x.2.1.IsWord := by
  have hrow : Schema.styles.Fits r := hfits (.styles, s.styles) (by simp [Snapshot.tables]) r hr
  rcases mem_references hx with rfl | ⟨-, rfl⟩ | ⟨-, rfl⟩ | ⟨-, rfl⟩
  · exact hrow.word "selector_id" (by decide)
  · exact hrow.word "layer_id" (by decide)
  · exact hrow.word "scope_root_id" (by decide)
  · exact hrow.word "scope_limit_id" (by decide)

/-- Rows that fit can be audited. -/
theorem isAuditable_of_fits (hfits : s.Fits) : isAuditable s = true := by
  have hvalues : ∀ v ∈ s.styles.map (·.get "value") ++ s.tokens.map (·.get "value"),
      v.IsString := by
    obtain ⟨htokens, -, -, hstyles, -⟩ := List.forall_iff_forall_mem.2 hfits
    exact List.forall_mem_append.2 ⟨isString_cells .styles hstyles "value" (by decide),
      isString_cells .tokens htokens "value" (by decide)⟩
  simp only [isAuditable, Bool.and_eq_true, List.all_eq_true, List.map_append]
  refine ⟨⟨fun v hv => ?_, fun v hv => (hvalues v hv).isText⟩, fun v hv => ?_⟩
  · rcases List.mem_append.1 hv with hv | hv
    · rcases List.mem_append.1 hv with hv | hv
      · exact (isWord_ids hfits v hv).isScalar
      · obtain ⟨r, hr, hv⟩ := List.mem_flatMap.1 hv
        obtain ⟨x, hx, rfl⟩ := List.mem_map.1 hv
        exact (isWord_references hfits hr hx).isScalar
    · obtain ⟨x, hx, hv⟩ := List.mem_flatMap.1 hv
      exact (isWord_nameColumns hfits x hx v hv).isScalar
  · obtain ⟨x, hx, hv⟩ := List.mem_flatMap.1 hv
    rcases isWord_textColumns hfits x hx v hv with rfl | ⟨text, rfl⟩
    · rfl
    · rfl

/-- References that meet the schema lead somewhere. -/
theorem styleReferences_eq_nil (h : s.MeetsSchema) (hfits : s.Fits) : styleReferences s = [] := by
  have hids := isWord_ids hfits
  have hselectors : s.selectors.map (·.id.key) = s.selectors.map (·.id) :=
    List.map_congr_left fun r hr =>
      (hids _ (List.mem_append_left _ (List.mem_map_of_mem hr))).key_eq
  have hlayers : s.layers.map (·.id.key) = s.layers.map (·.id) :=
    List.map_congr_left fun r hr =>
      (hids _ (List.mem_append_right _ (List.mem_map_of_mem hr))).key_eq
  -- a reference that counts as true is not empty
  have hknown : ∀ {v : Json} {ids : List Json}, v.isTrue = true → v = .null ∨ v ∈ ids →
      v ∈ ids := by
    rintro v ids htrue (rfl | hv)
    · simp [Json.isTrue] at htrue
    · exact hv
  simp only [styleReferences, hselectors, hlayers, List.append_eq_nil_iff]
  constructor
  · refine List.flatMap_eq_nil_iff.2 fun r hr => ?_
    rw [List.map_eq_nil_iff, List.filter_eq_nil_iff]
    intro x hx
    have hmem : x.2.1 ∈ x.2.2 := by
      rcases mem_references hx with rfl | ⟨htrue, rfl⟩ | ⟨htrue, rfl⟩ | ⟨htrue, rfl⟩
      · exact h.selector r hr
      · exact hknown htrue (h.layer r hr)
      · exact hknown htrue (h.scopeRoot r hr)
      · exact hknown htrue (h.scopeLimit r hr)
    simp [(isWord_references hfits hr hx).key_eq, hmem]
  · rw [List.map_eq_nil_iff, List.filter_eq_nil_iff]
    intro r hr
    have hrow : Schema.startingStyles.Fits r :=
      hfits (.startingStyles, s.startingStyles) (by simp [Snapshot.tables]) r hr
    have hword := hrow.word "selector_id" (by decide)
    have hmem := h.starting r hr
    simp only [hword.key_eq, List.contains_eq_mem, hmem]
    decide

theorem storedTexts_eq_nil (h : ∀ x ∈ textColumns s, ∀ r ∈ x.2.2, (r.get x.2.1).IsStoredText) :
    storedTexts s = [] := by
  refine List.flatMap_eq_nil_iff.2 fun x hx => List.filterMap_eq_nil_iff.2 fun r hr => ?_
  rcases h x hx r hr with hnull | ⟨w, hw⟩
  · simp only [hnull]
    split <;> rfl
  · simp only [hw]

theorem duplicateNames_eq_nil (hfits : s.Fits)
    (h : ∀ x ∈ nameColumns s, (x.2.2.map (·.get x.2.1)).Nodup) : duplicateNames s = [] := by
  refine List.flatMap_eq_nil_iff.2 fun x hx => ?_
  have hplain : ∀ v ∈ x.2.2.map (·.get x.2.1), Keyed.key v = v :=
    fun v hv => (isWord_nameColumns hfits x hx v hv).key_eq
  simp only [Table.counts_of_nodup hplain (h x hx)]
  refine List.filterMap_eq_nil_iff.2 fun e he => ?_
  obtain ⟨v, -, rfl⟩ := List.mem_map.1 he
  rfl

end Audit

/-! ## 3. Cascades -/

namespace Snapshot

theorem isStoredText_declarationsCell {ds : List StoredDeclaration} (h : ∀ d ∈ ds, d.IsPlain) :
    (declarationsCell ds).IsStoredText :=
  Json.isStoredText_write (Json.arePlain_map fun d hd => StoredDeclaration.toJson_isPlain (h d hd))

theorem isStoredText_frames {fs : List StoredKeyframe} (h : ∀ f ∈ fs, f.IsPlain) :
    (Json.text (StoredKeyframe.listToText fs)).IsStoredText :=
  Json.isStoredText_write (Json.arePlain_map fun f hf => StoredKeyframe.toJson_isPlain (h f hf))

theorem isStoredText_definition {d : Option Selector} (h : ∀ x ∈ d, x.IsPlain) :
    (Json.textOrNull (d.map Selector.toText)).IsStoredText := by
  cases d with
  | none => exact .inl rfl
  | some x => exact Json.isStoredText_write (Selector.toJson_isPlain (h x rfl))

/-- The bodies of at-rules can be read. -/
theorem isStoredText_blockRows {t : Table Json RuleBlock} (ht : t.IsNamed RuleBlock.IsPlain)
    {column : String} {row : Json × RuleBlock → Row}
    (hrow : ∀ e, (row e).get column = declarationsCell e.2.declarations) :
    ∀ r ∈ t.entries.map row, (r.get column).IsStoredText := by
  intro r hr
  obtain ⟨e, he, rfl⟩ := List.mem_map.1 hr
  rw [hrow]
  exact isStoredText_declarationsCell (ht.all e he).2

/-- Every text that is stored for an anchored cascade can be read. -/
theorem isStoredText_textColumns {s : Cascade} (h : s.IsAnchored) (log : List LogEntry) :
    ∀ x ∈ Audit.textColumns (ofCascade s log), ∀ r ∈ x.2.2, (r.get x.2.1).IsStoredText := by
  refine List.forall_iff_forall_mem.1 ⟨?selectors, ?fontFaces, ?keyframes, ?pages, ?counterStyles,
    ?fontFeatureValues, ?fontPaletteValues, ?startingStyles⟩
  case selectors =>
    intro r hr
    obtain ⟨e, he, rfl⟩ := List.mem_map.1 hr
    exact isStoredText_definition (h.rest.selectors.all e he).2
  case fontFaces =>
    intro r hr
    obtain ⟨e, he, rfl⟩ := List.mem_map.1 hr
    exact isStoredText_declarationsCell (h.rest.fontFaces.2 e he).2
  case keyframes =>
    intro r hr
    obtain ⟨e, he, rfl⟩ := List.mem_map.1 hr
    exact isStoredText_frames (h.rest.keyframes.all e he).2
  case pages => exact isStoredText_blockRows h.rest.pages fun _ => rfl
  case counterStyles => exact isStoredText_blockRows h.rest.counterStyles fun _ => rfl
  case fontFeatureValues => exact isStoredText_blockRows h.rest.fontFeatureValues fun _ => rfl
  case fontPaletteValues => exact isStoredText_blockRows h.rest.fontPaletteValues fun _ => rfl
  case startingStyles => exact isStoredText_blockRows h.rest.startingStyles fun _ => rfl

theorem nodup_names {α : Type} {V : α → Prop} {t : Table Json α} (ht : t.IsNamed V)
    {column : String} {row : Json × α → Row} (hrow : ∀ e, (row e).get column = e.1) :
    ((t.entries.map row).map (·.get column)).Nodup := by
  have hnames : (t.entries.map row).map (·.get column) = t.keys := by
    simp [Table.keys, hrow]
  rw [hnames]
  exact ht.distinct

/-- No name occurs twice in a table; starting styles are named by the identifiers of selectors. -/
theorem nodup_nameColumns {s : Cascade} (h : s.IsAnchored)
    (hselectors : Separates .selector s.selectors.keys) (log : List LogEntry) :
    ∀ x ∈ Audit.nameColumns (ofCascade s log), (x.2.2.map (·.get x.2.1)).Nodup := by
  refine List.forall_iff_forall_mem.1 ⟨?tokens, ?selectors, ?layers, ?properties, ?keyframes,
    ?counterStyles, ?fontFeatureValues, ?fontPaletteValues, ?startingStyles⟩
  case tokens => exact nodup_names h.rest.tokens fun _ => rfl
  case selectors => exact nodup_names h.rest.selectors fun _ => rfl
  case layers => exact nodup_names h.rest.layers.entries fun e => (get_layerRow s.layers e.1 e.2).1
  case properties => exact nodup_names h.rest.properties fun _ => rfl
  case keyframes => exact nodup_names h.rest.keyframes fun _ => rfl
  case counterStyles => exact nodup_names h.rest.counterStyles fun _ => rfl
  case fontFeatureValues => exact nodup_names h.rest.fontFeatureValues fun _ => rfl
  case fontPaletteValues => exact nodup_names h.rest.fontPaletteValues fun _ => rfl
  case startingStyles =>
    have hids : (ofCascade s log).startingStyles.map (·.get "selector_id") =
        s.startingStyles.keys.map (idCell .selector) := by
      simp only [ofCascade, Table.keys, List.map_map]
      rfl
    show ((ofCascade s log).startingStyles.map (·.get "selector_id")).Nodup
    rw [hids]
    exact nodup_idCells (hselectors.subset h.rest.starting)
      (fun _ => h.rest.startingStyles.isString) h.rest.startingStyles.distinct

end Snapshot

/-! ## 4. Statements and reloads -/

namespace Cascade.IsReachable

open Snapshot

variable {migrations : List String} {ctx : Context} {s : Cascade}

/-- Whatever statements and reloads lead to, its rows meet the schema, they are saved as they are,
and an audit finds no error in references, stored texts and names; a refusal can only come from an
integer that is too large for a cell. Natural keys are to have distinct identifiers, and no page is
to be called `default` beside one without a name. -/
theorem stores_and_verifies (h : IsReachable migrations ctx s)
    (hids : ∀ kind, Separates kind (s.naturalKeys migrations kind))
    (hpages : ¬(.text "" ∈ s.pages.keys ∧ .text "default" ∈ s.pages.keys)) (log : List LogEntry) :
    checkCascade s = .ok () ∧ (ofCascade s log).MeetsSchema ∧
      (∀ store : Store,
        store.save (ofCascade s log) = .ok { store with content := ofCascade s store.log } ∨
        ¬(ofCascade s log).HoldsWords ∧
          ∃ position, store.save (ofCascade s log) = .error (.unstorable position .tooLarge)) ∧
      Audit.isAuditable (ofCascade s log) = true ∧ Audit.styleReferences (ofCascade s log) = [] ∧
      Audit.storedTexts (ofCascade s log) = [] ∧ Audit.duplicateNames (ofCascade s log) = [] := by
  have hanchored := h.isAnchored_of_separates hids
  have hfits := fits_ofCascade h.isTyped log
  have hschema := h.meetsSchema hids hpages log
  refine ⟨checkCascade_of_isAnchored hanchored, hschema, fun store => hschema.save hfits store,
    Audit.isAuditable_of_fits hfits, Audit.styleReferences_eq_nil hschema hfits,
    Audit.storedTexts_eq_nil (isStoredText_textColumns hanchored log), ?_⟩
  exact Audit.duplicateNames_eq_nil hfits (nodup_nameColumns hanchored (hids .selector) log)

/-- After a reload a migration overwrites a property that another one has written. Its row keeps the
identifier with the first migration in it. -/
theorem stores_and_verifies_overwritten : ∃ first second s t,
    Source.parse "CREATE STYLE SELECTOR a (b = c);" false = .ok first ∧
    Source.parse "ALTER STYLE SELECTOR a SET b = d;" false = .ok second ∧
    (ofCascade (Cascade.run { migrationId := "m1" } {} first).state []).toCascade = .ok s ∧
    (Cascade.run { migrationId := "m2" } s second).state = t ∧
    (ofCascade t []).styles.map (·.get "value") = [.text "d"] ∧
    (ofCascade t []).MeetsSchema ∧ Audit.styleReferences (ofCascade t []) = [] ∧
    Audit.storedTexts (ofCascade t []) = [] ∧ Audit.duplicateNames (ofCascade t []) = [] := by
  obtain ⟨⟨_, _⟩, hparse, hstate⟩ := exists_ok_of_any
    (x := do
      let first ← Source.parse "CREATE STYLE SELECTOR a (b = c);" false
      let second ← Source.parse "ALTER STYLE SELECTOR a SET b = d;" false
      return (first, second))
    (p := fun (r : List Statement × List Statement) =>
      let s := (Cascade.run { migrationId := "m1" } {} r.1).state
      let t := (Cascade.run { migrationId := "m2" } s.rewound r.2).state
      decide (s.selectors.keys = [.text "a"] ∧ s.layers.entries.keys = [] ∧
        (∀ k ∈ s.buckets.buckets.keys, Descriptor.IsClean k.descriptor) ∧ t.pages.keys = [] ∧
        (∀ kind ∈ EntityKind.all, ((t.naturalKeys ["m1", "m2"] kind).map (idCell kind)).Nodup) ∧
        (ofCascade t []).styles.map (·.get "value") = [.text "d"]))
    (by
      unfold idCell
      rw [Source.parse_ofList, Source.parse_ofList, Identity.entityId_eq]
      decide +kernel)
  simp only [bind_eq_ok, pure_eq_ok, Prod.mk.injEq] at hparse
  obtain ⟨first, hfirst, second, hsecond, rfl, rfl⟩ := hparse
  obtain ⟨hselectors, hlayers, hclean, hpages, hids, hvalues⟩ := of_decide_eq_true hstate
  have hparsed : ∀ stmt ∈ first, stmt.IsParsed := fun stmt hstmt => ⟨_, _, first, hfirst, hstmt⟩
  have hcoherent : (Cascade.run { migrationId := "m1" } {} first).state.IsCoherent fun _ => True :=
    isCoherent_empty.run (fun stmt hstmt => (hparsed stmt hstmt).isPlain) (fun _ _ _ _ => trivial)
      (Occasion.isKnown_context { migrationId := "m1" } _)
  have hreload := toCascade_ofCascade hcoherent hclean (by simp [hselectors, Separates])
    (by simp [hlayers, Separates]) []
  have hstart : IsReachable ["m1", "m2"] { migrationId := "m1" } {} :=
    .start { migrationId := "m1" } (by decide)
  have hreached : IsReachable ["m1", "m2"] _ (Cascade.run { migrationId := "m2" } _ second).state :=
    (((hstart.run hparsed).reload hreload).file { migrationId := "m2" } (by decide)).run
      fun stmt hstmt => ⟨_, _, second, hsecond, hstmt⟩
  obtain ⟨-, hschema, -, -, hreferences, htexts, hnames⟩ := stores_and_verifies hreached
    (fun kind => separates_of_nodup (hids kind (by cases kind <;> decide))) (by simp [hpages]) []
  exact ⟨first, second, _, _, hfirst, hsecond, hreload, rfl, hvalues, hschema, hreferences, htexts,
    hnames⟩

end Cascade.IsReachable

end StyleLedger
