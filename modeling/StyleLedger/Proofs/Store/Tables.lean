import StyleLedger.Proofs.Cascade.Coherent

/-!
How single tables come back from their rows.

Every table of a coherent cascade is canonical, so it is enough that each row gives back its entry
(`fill_map`). Three tables ask for more. References go by identifier, and an identifier leads back
to its name as long as no two names of the table share one (`get?_namesById`). The declared order of
layers is rebuilt by sorting their places (`layerRegistry_ofRows`). The buckets are regrouped from
rows that each repeat the key of their bucket (`foldlM_addStyle`).

* `Identity.Separates` — no two of some names have the same identifier.
* `BucketIndex.latest` — the time at which the bucket was written that was written last.
-/

namespace StyleLedger

open Outcome

/-! ## 1. Rows -/

theorem Row.get_cons (column name : String) (v : Json) (cells : List (String × Json)) :
    Row.get ⟨(name, v) :: cells⟩ column = if name = column then v else Row.get ⟨cells⟩ column := by
  by_cases h : name = column
  · simp [Row.get, Json.optional, Json.field?, Table.lookup, h]
  · simp [Row.get, Json.optional, Json.field?, Table.lookup, h]

namespace Snapshot

theorem keyCell_of_isWord {v : Json} (h : v.IsWord) : keyCell v = .ok v := by
  simp [keyCell, ShapeError.require, h.isScalar, bind, Except.bind, pure, Except.pure]

/-- A canonical table comes back when each of its entries does. -/
theorem fill_map {κ α : Type} [DecidableEq κ] [Keyed κ] {t : Table κ α} (ht : t.IsCanonical)
    {row : κ × α → Row} {entry : Row → Except ShapeError (κ × α)}
    (h : ∀ e ∈ t.entries, entry (row e) = .ok e) : fill (t.entries.map row) entry = .ok t := by
  rw [fill, mapM_map_eq_ok h]
  show Except.ok (t.entries.foldl putRow {}) = .ok t
  rw [Table.foldl_putRow (t := {}) (by simpa using ht)]
  simp

/-! ## 2. Names and identifiers -/

end Snapshot

/-- No two of some names have the same identifier. -/
def Identity.Separates (kind : EntityKind) (names : List Json) : Prop :=
  ∀ a b, .text a ∈ names → .text b ∈ names → entityId kind a = entityId kind b → a = b

theorem Identity.Separates.subset {kind : EntityKind} {names names' : List Json}
    (h : Separates kind names') (hsub : names ⊆ names') : Separates kind names :=
  fun a b ha hb => h a b (hsub ha) (hsub hb)

namespace Snapshot

open Identity

/-- Distinct names that are kept apart have distinct identifiers. -/
theorem nodup_idCells {kind : EntityKind} {names : List Json} (h : Separates kind names)
    (hstring : ∀ n ∈ names, n.IsString) (hdistinct : names.Nodup) :
    (names.map (idCell kind)).Nodup := by
  refine List.Nodup.map_on (fun a ha b hb hab => ?_) hdistinct
  obtain ⟨x, rfl⟩ := hstring a ha
  obtain ⟨y, rfl⟩ := hstring b hb
  rw [h x y ha hb (Json.text.inj hab)]

/-- The identifier of a name leads back to it. -/
theorem get?_namesById {α : Type} {V : α → Prop} {t : Table Json α} (ht : t.IsNamed V)
    {kind : EntityKind} (hids : Separates kind t.keys) {row : Json × α → Row}
    (hid : ∀ e, (row e).id = idCell kind e.1) (hname : ∀ e, (row e).get "name" = e.1)
    {n : Json} (hn : n ∈ t.keys) :
    (namesById (t.entries.map row)).get? (idCell kind n) = some n := by
  have hrows : (t.entries.map row).map (fun r => (r.id, r.get "name")) =
      t.keys.map fun k => (idCell kind k, k) := by
    simp [Table.keys, hid, hname, Function.comp_def]
  have hcanonical : Table.IsCanonical ⟨t.keys.map fun k => (idCell kind k, k)⟩ := by
    refine ⟨fun k hk => ?_, ?_⟩
    · obtain ⟨e, he, rfl⟩ := List.mem_map.1 hk
      obtain ⟨l, -, rfl⟩ := List.mem_map.1 he
      exact Json.key_text _
    · show ((t.keys.map fun k => (idCell kind k, k)).map (·.1)).Nodup
      rw [List.map_map]
      exact nodup_idCells hids (fun _ => ht.isString) ht.distinct
  rw [namesById, hrows, Table.ofList, Table.empty,
    Table.foldl_put (t := {}) (by simpa using hcanonical)]
  simp only [List.nil_append]
  exact (hcanonical.get?_eq_some_iff (Json.key_text _)).2 (List.mem_map_of_mem hn)

theorem idCell_isTrue (kind : EntityKind) (name : Json) : (idCell kind name).isTrue = true := by
  have hne : entityId kind name.shown ≠ "" := by
    intro h
    have := congrArg String.toList h
    simp [entityId, Identity.text, String.intercalate_cons_cons] at this
  simpa [idCell, Json.isTrue] using hne

theorem nameAt?_idCell (names : Table Json Json) (kind : EntityKind) (n : Json) :
    nameAt? names (idCell kind n) = .ok (names.get? (idCell kind n)) := by
  simp only [nameAt?, idCell, keyCell_of_isWord (Json.isWord_text _)]
  rfl

/-- The name of an identifier is found again, and that of an absent one is absent. -/
theorem nameOf_reference {names : Table Json Json} {kind : EntityKind} {keys : List Json}
    (hnames : ∀ n ∈ keys, names.get? (idCell kind n) = some n) {v : Json}
    (hv : v = .null ∨ v.RefersTo keys) : nameOf names (reference (idCell kind) v) = .ok v := by
  rcases hv with rfl | ⟨hmem, n, hne, rfl⟩
  · rfl
  · have htrue : (Json.text n).isTrue = true := by simpa [Json.isTrue] using hne
    rw [reference, if_pos htrue, nameOf, if_pos (idCell_isTrue kind _), nameAt?_idCell,
      hnames _ hmem]
    rfl

/-! ## 3. Places of layers -/

theorem le_int (a b : Int) : (Json.int a).le (Json.int b) = decide (a ≤ b) := by
  simp [Json.le, Json.int, Json.numeral?, Numeral.le, Numeral.fraction?]

/-- Rows whose places are numbers have an order. -/
theorem sortedBy_eq {column : String} {rows : List Row}
    (h : ∀ r ∈ rows, ∃ n : Int, r.get column = .int n) :
    sortedBy column rows = .ok (rows.mergeSort fun a b => (a.get column).le (b.get column)) := by
  have horder : Json.haveOrder (rows.map (·.get column)) = true := by
    have hall : (rows.map (·.get column)).all (·.numeral?.isSome) = true := by
      rw [List.all_map, List.all_eq_true]
      intro r hr
      obtain ⟨n, hn⟩ := h r hr
      simp [hn, Json.numeral?, Json.int]
    simp [Json.haveOrder, hall]
  simp [sortedBy, ShapeError.require, horder, bind, Except.bind, pure, Except.pure]

/-- Rows that stand in the order of their places stay in it. -/
theorem sortedBy_of_numbered {column : String} {rows : List Row}
    (h : ∀ (i : Nat) r, rows[i]? = some r → r.get column = .int i) :
    sortedBy column rows = .ok rows := by
  rw [sortedBy_eq fun r hr => ?_, List.mergeSort_of_pairwise]
  · rw [List.pairwise_iff_getElem]
    intro i j hi hj hij
    rw [h i _ (List.getElem?_eq_getElem hi), h j _ (List.getElem?_eq_getElem hj), le_int]
    simp only [decide_eq_true_eq]
    omega
  · obtain ⟨i, hi, rfl⟩ := List.getElem_of_mem hr
    exact ⟨i, h i _ (List.getElem?_eq_getElem hi)⟩

end Snapshot

theorem Json.alike_iff {v w : Json} (hv : v.IsString) (hw : w.IsString) :
    v.alike w = true ↔ v = w := by
  simp only [Json.alike, decide_eq_true_eq]
  rw [hv.isWord.key_eq, hw.isWord.key_eq]

namespace LayerRegistry.IsCoherent

variable {r : LayerRegistry}

/-- The place of a layer is that of its name among the declared ones. -/
theorem orderIndex?_eq (h : r.IsCoherent) {n : Json} (hn : n.IsString) :
    r.orderIndex? n = if n ∈ r.declared then some (r.declared.idxOf n) else none := by
  have hall : ∀ ds : List Json, (∀ m ∈ ds, m.IsString) →
      ds.findIdx? n.alike = if n ∈ ds then some (ds.idxOf n) else none := by
    intro ds hds
    induction ds with
    | nil => rfl
    | cons m ds ih =>
      obtain ⟨hm, hds⟩ := List.forall_mem_cons.1 hds
      rw [List.findIdx?_cons, ih hds]
      by_cases hnm : n = m
      · simp [hnm, (Json.alike_iff hm hm).2 rfl]
      · have halike : n.alike m = false := by
          rw [← Bool.not_eq_true, Json.alike_iff hn hm]
          exact hnm
        rw [halike, List.idxOf_cons_ne ds (Ne.symm hnm)]
        by_cases hmem : n ∈ ds
        · simp [hmem]
        · simp [hmem, hnm]
  exact hall r.declared fun m hm => h.isString hm

/-- Sorting the known names by their places gives the declared order. -/
theorem mergeSort_placed (h : r.IsCoherent) :
    (r.entries.keys.filter (· ∈ r.declared)).mergeSort
      (fun a b => r.declared.idxOf a ≤ r.declared.idxOf b) = r.declared := by
  have hperm : (r.entries.keys.filter (· ∈ r.declared)).Perm r.declared := by
    rw [List.perm_ext_iff_of_nodup (h.entries.distinct.filter _) h.declared]
    intro n
    simp only [List.mem_filter, decide_eq_true_eq, and_iff_right_iff_imp]
    exact h.known n
  refine List.Perm.eq_of_pairwise ?_ (List.pairwise_mergeSort ?_ ?_ _) ?_
    ((List.mergeSort_perm _ _).trans hperm)
  · intro a b _ hb hab hba
    simp only [decide_eq_true_eq] at hab hba
    exact ((List.idxOf_inj hb).1 (Nat.le_antisymm hba hab)).symm
  · intro a b c hab hbc
    simp only [decide_eq_true_eq] at hab hbc ⊢
    omega
  · intro a b
    simp only [Bool.or_eq_true, decide_eq_true_eq]
    omega
  · rw [List.pairwise_iff_getElem]
    intro i j hi hj hij
    simp only [h.declared.idxOf_getElem, decide_eq_true_eq]
    omega

end LayerRegistry.IsCoherent

namespace Snapshot

theorem get_layerRow (r : LayerRegistry) (n : Json) (p : Provenance) :
    (layerRow r n p).get "name" = n ∧ provenance (layerRow r n p) = p ∧
      (layerRow r n p).id = idCell .layer n ∧
      (layerRow r n p).get "order_index" = (r.orderIndex? n).elim .null fun i => .int i := by
  cases h : r.orderIndex? n <;>
    simp [layerRow, layerId, originCells, provenance, Row.id, Row.get_cons, h]

variable {r : LayerRegistry}

theorem layerEntry_layerRow (h : r.IsCoherent) {e : Json × Provenance}
    (he : e ∈ r.entries.entries) : (do
      let _ ← keyCell (layerRow r e.1 e.2).id
      return (← keyCell ((layerRow r e.1 e.2).get "name"), provenance (layerRow r e.1 e.2))) =
        (.ok e : Except ShapeError (Json × Provenance)) := by
  obtain ⟨hname, hprovenance, hid, -⟩ := get_layerRow r e.1 e.2
  rw [hname, hprovenance, hid, idCell, keyCell_of_isWord (Json.isWord_text _),
    keyCell_of_isWord (h.entries.all e he).1.isWord]
  rfl

/-- The place of a layer is the one where it stands in the declared order. -/
theorem place_layerRow (h : r.IsCoherent) {e : Json × Provenance} (he : e ∈ r.entries.entries) :
    (layerRow r e.1 e.2).get "order_index" =
      if e.1 ∈ r.declared then .int (r.declared.idxOf e.1) else .null := by
  rw [(get_layerRow r e.1 e.2).2.2.2, h.orderIndex?_eq (h.entries.all e he).1]
  by_cases hmem : e.1 ∈ r.declared <;> simp [hmem]

/-- The rows of the layers that have a place. -/
def placedRows (r : LayerRegistry) : List Row :=
  (r.entries.entries.filter (·.1 ∈ r.declared)).map fun e => layerRow r e.1 e.2

theorem filter_layerRows (h : r.IsCoherent) :
    (r.entries.entries.map fun e => layerRow r e.1 e.2).filter
      (fun row => !(row.get "order_index").isNull) = placedRows r := by
  rw [placedRows, List.filter_map]
  congr 1
  refine List.filter_congr fun e he => ?_
  simp only [Function.comp_apply, place_layerRow h he]
  split <;> simp [Json.isNull, Json.int, *]

theorem cells_of_mem_placedRows (h : r.IsCoherent) {row : Row} (hrow : row ∈ placedRows r) :
    ∃ n, row.get "name" = n ∧ row.get "order_index" = .int (r.declared.idxOf n) := by
  obtain ⟨e, he, rfl⟩ := List.mem_map.1 hrow
  obtain ⟨he, hmem⟩ := List.mem_filter.1 he
  have hmem : e.1 ∈ r.declared := by simpa using hmem
  exact ⟨e.1, (get_layerRow r e.1 e.2).1, by rw [place_layerRow h he, if_pos hmem]⟩

theorem names_placedRows (r : LayerRegistry) :
    (placedRows r).map (·.get "name") = r.entries.keys.filter (· ∈ r.declared) := by
  rw [placedRows, List.map_map, Table.keys, List.filter_map]
  refine List.map_congr_left fun e _ => ?_
  exact (get_layerRow r e.1 e.2).1

/-- Sorted by their places, the layers stand in the declared order. -/
theorem names_mergeSort_placedRows (h : r.IsCoherent) :
    ((placedRows r).mergeSort fun a b => (a.get "order_index").le (b.get "order_index")).map
      (·.get "name") = r.declared := by
  have hplaces : ∀ a ∈ placedRows r, ∀ b ∈ placedRows r,
      (a.get "order_index").le (b.get "order_index") =
        decide (r.declared.idxOf (a.get "name") ≤ r.declared.idxOf (b.get "name")) := by
    intro a ha b hb
    obtain ⟨n, hname, hplace⟩ := cells_of_mem_placedRows h ha
    obtain ⟨m, hname', hplace'⟩ := cells_of_mem_placedRows h hb
    rw [hname, hplace, hname', hplace', le_int]
    simp
  rw [List.map_mergeSort (s := fun a b => decide (r.declared.idxOf a ≤ r.declared.idxOf b)) hplaces,
    names_placedRows, h.mergeSort_placed]

/-- The layers come back with their declared order. -/
theorem layerRegistry_ofRows (h : r.IsCoherent) :
    layerRegistry (r.entries.entries.map fun e => layerRow r e.1 e.2) = .ok r := by
  rw [layerRegistry, fill_map h.entries.isCanonical fun _ he => layerEntry_layerRow h he,
    filter_layerRows h, sortedBy_eq fun row hrow => ?_]
  · show Except.ok ({ entries := r.entries, declared := _ } : LayerRegistry) = .ok r
    rw [names_mergeSort_placedRows h]
  · obtain ⟨n, -, hplace⟩ := cells_of_mem_placedRows h hrow
    exact ⟨_, hplace⟩

/-! ## 4. Buckets -/

theorem areReadable_areScalar {d : Option Descriptor} (hd : Descriptor.IsWritten d)
    (hback : Descriptor.ofColumns (Descriptor.columns d) = d) :
    (Descriptor.areReadable (Descriptor.columns d) &&
      Descriptor.areScalar (Descriptor.columns d)) = true := by
  cases d with
  | none => decide
  | some d =>
    obtain ⟨hmerged, hwordy⟩ := hd d rfl
    rw [Bool.and_eq_true]
    constructor
    · cases hmerged with
      | media min max supports features =>
        cases h : Text.nonEmpty? (" and ".intercalate features) <;>
          simp [Descriptor.columns, Descriptor.areReadable, Json.textOrNull, Json.isTrue,
            Json.isText, h]
      | _ => simp [Descriptor.columns, Descriptor.areReadable, DescriptorKind.cell]
    · simp only [Descriptor.areScalar, hback, hwordy.min.isScalar, hwordy.max.isScalar,
        hwordy.axis.isScalar, hwordy.name.isScalar, hwordy.condition.isScalar,
        hwordy.supports.isScalar, Bool.and_self]

/-- The cells of a style row that say which bucket it belongs to. -/
theorem keyCells_styleRow (k : BucketKey) (touched name : Json) (p : StyleProperty) :
    (styleRow k touched name p).get "selector_id" = idCell .selector k.selector ∧
      (styleRow k touched name p).get "layer_id" = reference (idCell .layer) k.layer ∧
      (styleRow k touched name p).get "scope_root_id" =
        reference (idCell .selector) k.scopeRoot ∧
      (styleRow k touched name p).get "scope_limit_id" =
        reference (idCell .selector) k.scopeLimit ∧
      descriptorColumns (styleRow k touched name p) = Descriptor.columns k.descriptor ∧
      (styleRow k touched name p).get "touched" = touched := by
  refine ⟨rfl, rfl, rfl, rfl, rfl, rfl⟩

/-- The cells of a style row that say what its property is. -/
theorem propertyCells_styleRow (k : BucketKey) (touched name : Json) (p : StyleProperty) :
    (styleRow k touched name p).get "prop" = name ∧
      ({ value := (styleRow k touched name p).get "value", rowId := (styleRow k touched name p).id
         sequence := (styleRow k touched name p).get "sequence"
         spacingMode := (styleRow k touched name p).get "spacing_mode"
         originFile := (styleRow k touched name p).get "origin_file"
         migrationId := (styleRow k touched name p).get "migration_id" } : StyleProperty) = p := by
  refine ⟨rfl, rfl⟩

section Buckets

variable {selectors layers : List Json} {S L : Table Json Json}
  (hS : ∀ n ∈ selectors, S.get? (idCell .selector n) = some n)
  (hL : ∀ n ∈ layers, L.get? (idCell .layer n) = some n)

include hS hL

/-- The key of a bucket is read off each of its rows. -/
theorem keyOf_styleRow {k : BucketKey} (hk : k.IsKnown selectors layers)
    (hclean : Descriptor.IsClean k.descriptor) (touched name : Json) (p : StyleProperty) :
    keyOf S L (styleRow k touched name p) k.selector = .ok k := by
  obtain ⟨-, hlayer, hroot, hlimit, hcolumns, -⟩ := keyCells_styleRow k touched name p
  have hback : Descriptor.ofColumns (Descriptor.columns k.descriptor) = k.descriptor := by
    cases hd : k.descriptor with
    | none => rfl
    | some d =>
      rw [hd] at hclean
      exact ((hk.descriptor d hd).1.ofColumns_columns_iff).2 hclean
  have hrequire := areReadable_areScalar hk.descriptor hback
  simp only [keyOf, hlayer, hroot, hlimit, hcolumns, nameOf_reference hL hk.layer,
    nameOf_reference hS hk.scopeRoot, nameOf_reference hS hk.scopeLimit, ShapeError.require,
    hrequire, hback]
  rfl

/-- A style row brings its property to its bucket. -/
theorem addStyle_styleRow {k : BucketKey} (hk : k.IsKnown selectors layers)
    (hclean : Descriptor.IsClean k.descriptor) {touched name : Json}
    (ht : ∃ n : Int, touched = .int n) (hname : name.IsString) (p : StyleProperty)
    (buckets : Table BucketKey Bucket) :
    addStyle S L buckets (styleRow k touched name p) = .ok (buckets.put k
      { (buckets.get? k).getD { touched } with
        properties := putRow ((buckets.get? k).getD { touched }).properties (name, p) }) := by
  obtain ⟨hselector, -, -, -, -, htouched⟩ := keyCells_styleRow k touched name p
  obtain ⟨hprop, hproperty⟩ := propertyCells_styleRow k touched name p
  obtain ⟨hmem, n, -, hn⟩ := hk.selector
  obtain ⟨i, rfl⟩ := ht
  have hkey := keyOf_styleRow hS hL hk hclean (.int i) name p
  simp only [addStyle, hselector, nameAt?_idCell, hS _ hmem, hprop, hproperty, htouched,
    keyCell_of_isWord hname.isWord]
  rw [hn] at hkey ⊢
  simp only [bind, Except.bind, hkey]
  cases hb : buckets.get? k with
  | none => rfl
  | some b => rfl

/-- Further rows of the last bucket bring its further properties. -/
theorem foldlM_lastRows {k : BucketKey} (hk : k.IsKnown selectors layers)
    (hclean : Descriptor.IsClean k.descriptor) {touched : Json} (ht : ∃ n : Int, touched = .int n) :
    ∀ {rest done : List (Json × StyleProperty)} {es : List (BucketKey × Bucket)},
      Table.IsNamed (fun _ => True) ⟨done ++ rest⟩ →
      Table.IsCanonical ⟨es ++ [(k, { properties := ⟨done⟩, touched })]⟩ →
      (rest.map fun e => styleRow k touched e.1 e.2).foldlM (addStyle S L)
          ⟨es ++ [(k, { properties := ⟨done⟩, touched })]⟩ =
        .ok ⟨es ++ [(k, { properties := ⟨done ++ rest⟩, touched })]⟩
  | [], done, es, _, _ => by
    rw [List.append_nil]
    rfl
  | e :: rest, done, es, hnamed, hes => by
    have hname : e.1.IsString := (hnamed.all e (by simp)).1
    have hget : Table.get? ⟨es ++ [(k, { properties := ⟨done⟩, touched })]⟩ k =
        some ({ properties := ⟨done⟩, touched } : Bucket) :=
      (hes.get?_eq_some_iff hk.key_eq).2 (by simp)
    have hsplit : Table.IsNamed (fun _ => True) ⟨(done ++ [e]) ++ rest⟩ := by simpa using hnamed
    have hput : putRow (⟨done⟩ : Table Json StyleProperty) e = ⟨done ++ [e]⟩ :=
      Table.putRow_of_canonical_append (Table.canonical_append_left hsplit.isCanonical)
    have hes' :
        Table.IsCanonical ⟨es ++ [(k, ({ properties := ⟨done ++ [e]⟩, touched } : Bucket))]⟩ :=
      hes.of_keys_sublist (by simp [Table.keys])
    have hrow := addStyle_styleRow hS hL hk hclean ht hname e.2
      ⟨es ++ [(k, { properties := ⟨done⟩, touched })]⟩
    rw [hget, Option.getD_some, hput, Table.put_last hes] at hrow
    rw [List.map_cons, foldlM_cons_of_ok hrow, foldlM_lastRows hk hclean ht hsplit hes',
      List.append_assoc done]
    rfl

/-- The rows of a bucket that is not there yet put it at the end. -/
theorem foldlM_styleRows {k : BucketKey} (hk : k.IsKnown selectors layers)
    (hclean : Descriptor.IsClean k.descriptor) {clock : Int} {b : Bucket} (hb : b.IsCoherent clock)
    {es : List (BucketKey × Bucket)} (hes : Table.IsCanonical ⟨es ++ [(k, b)]⟩) :
    (styleRows k b).foldlM (addStyle S L) ⟨es⟩ = .ok ⟨es ++ [(k, b)]⟩ := by
  obtain ⟨⟨ps⟩, touched⟩ := b
  have ht : ∃ n : Int, touched = .int n := by
    obtain ⟨n, hn, -⟩ := hb.touched
    exact ⟨n, hn⟩
  obtain ⟨e, rest, rfl⟩ := List.exists_cons_of_ne_nil hb.nonempty
  have hname : e.1.IsString := (hb.properties.all e (by simp)).1
  have hnone : (⟨es⟩ : Table BucketKey Bucket).get? k = none :=
    (Table.canonical_append_left hes).get?_eq_none hk.key_eq (Table.not_mem_of_canonical_append hes)
  have hsplit : Table.IsCanonical (⟨[e] ++ rest⟩ : Table Json StyleProperty) :=
    hb.properties.isCanonical
  have hput : putRow ({} : Table Json StyleProperty) e = ⟨[e]⟩ :=
    Table.putRow_of_canonical_append (Table.canonical_append_left hsplit)
  have hes' : Table.IsCanonical ⟨es ++ [(k, ({ properties := ⟨[e]⟩, touched } : Bucket))]⟩ :=
    hes.of_keys_sublist (by simp [Table.keys])
  have hnew : (⟨es⟩ : Table BucketKey Bucket).put k { properties := ⟨[e]⟩, touched } =
      ⟨es ++ [(k, { properties := ⟨[e]⟩, touched })]⟩ :=
    Table.put_of_canonical_append (e := (k, _)) hes'
  have hrow := addStyle_styleRow hS hL hk hclean ht hname e.2 ⟨es⟩
  rw [hnone, Option.getD_none, hput, hnew] at hrow
  show ((e :: rest).map fun e => styleRow k touched e.1 e.2).foldlM (addStyle S L) ⟨es⟩ = _
  rw [List.map_cons, foldlM_cons_of_ok hrow, foldlM_lastRows hS hL hk hclean ht hb.properties hes']
  rfl

/-- All buckets come back from their rows, in their order. -/
theorem foldlM_addStyle {clock : Int} :
    ∀ {ds es : List (BucketKey × Bucket)}, Table.IsCanonical ⟨es ++ ds⟩ →
      (∀ e ∈ ds, e.1.IsKnown selectors layers ∧ Descriptor.IsClean e.1.descriptor ∧
        e.2.IsCoherent clock) →
      (ds.flatMap fun e => styleRows e.1 e.2).foldlM (addStyle S L) ⟨es⟩ = .ok ⟨es ++ ds⟩
  | [], es, _, _ => by
    rw [List.append_nil]
    rfl
  | e :: ds, es, hes, hds => by
    obtain ⟨⟨hk, hclean, hb⟩, hds⟩ := List.forall_mem_cons.1 hds
    have hsplit : Table.IsCanonical ⟨(es ++ [e]) ++ ds⟩ := by simpa using hes
    rw [List.flatMap_cons, List.foldlM_append,
      foldlM_styleRows hS hL hk hclean hb (Table.canonical_append_left hsplit)]
    show (ds.flatMap fun e => styleRows e.1 e.2).foldlM (addStyle S L) ⟨es ++ [e]⟩ = _
    simpa using foldlM_addStyle hsplit hds

end Buckets

end Snapshot

/-! ## 5. The clock -/

namespace BucketIndex

/-- The time of the bucket that was written last, zero if there is no bucket. -/
def latest (index : BucketIndex) : Int :=
  index.buckets.values.foldl (fun n b => max n b.time) 0

/-- The index with the clock at the bucket that was written last. -/
def rewound (index : BucketIndex) : BucketIndex :=
  { index with clock := index.latest }

/-- A time is that of the bucket written last, or zero if there is no bucket. -/
def IsLatest (index : BucketIndex) (n : Int) : Prop :=
  (∀ b ∈ index.buckets.values, ∃ m, b.touched = .int m ∧ m ≤ n) ∧
    ((∃ b ∈ index.buckets.values, b.touched = .int n) ∨ index.buckets.values = [] ∧ n = 0)

theorem foldl_max_time (bs : List Bucket) (n : Int) :
    n ≤ bs.foldl (fun n b => max n b.time) n ∧
      (∀ b ∈ bs, b.time ≤ bs.foldl (fun n b => max n b.time) n) ∧
      ((∃ b ∈ bs, b.time = bs.foldl (fun n b => max n b.time) n) ∨
        bs.foldl (fun n b => max n b.time) n = n) := by
  induction bs generalizing n with
  | nil => simp
  | cons b bs ih =>
    obtain ⟨hle, hall, hmem⟩ := ih (max n b.time)
    rw [List.foldl_cons]
    refine ⟨by omega, List.forall_mem_cons.2 ⟨by omega, hall⟩, ?_⟩
    rcases hmem with ⟨c, hc, heq⟩ | heq
    · exact .inl ⟨c, List.mem_cons_of_mem b hc, heq⟩
    · rcases Int.le_total n b.time with hn | hn
      · exact .inl ⟨b, List.mem_cons_self, by omega⟩
      · exact .inr (by omega)

theorem time_le_latest {index : BucketIndex} {b : Bucket} (hb : b ∈ index.buckets.values) :
    b.time ≤ index.latest :=
  (foldl_max_time index.buckets.values 0).2.1 b hb

theorem IsCoherent.isLatest_latest {K : BucketKey → Prop} {index : BucketIndex}
    (h : index.IsCoherent K) : index.IsLatest index.latest := by
  have htouched : ∀ b ∈ index.buckets.values, ∃ n, b.touched = .int n ∧ 0 < n ∧ b.time = n := by
    intro b hb
    obtain ⟨e, he, rfl⟩ := List.mem_map.1 hb
    obtain ⟨n, hn, hpos, -⟩ := (h.all e he).2.touched
    exact ⟨n, hn, hpos, Bucket.time_eq hn⟩
  obtain ⟨-, hall, hmem⟩ := foldl_max_time index.buckets.values 0
  refine ⟨fun b hb => ?_, ?_⟩
  · obtain ⟨n, hn, -, htime⟩ := htouched b hb
    exact ⟨n, hn, htime ▸ hall b hb⟩
  · rcases hmem with ⟨b, hb, heq⟩ | heq
    · obtain ⟨n, hn, -, htime⟩ := htouched b hb
      exact .inl ⟨b, hb, by rw [hn, ← htime, heq]; rfl⟩
    · cases hvalues : index.buckets.values with
      | nil => exact .inr ⟨rfl, heq⟩
      | cons b bs =>
        -- a bucket was written after zero, so the greatest time is not zero
        have hb : b ∈ index.buckets.values := by simp [hvalues]
        obtain ⟨n, -, hpos, htime⟩ := htouched b hb
        have := hall b hb
        omega

/-- Buckets that are put back in order bring the clock to the one that was written last. -/
theorem foldl_restore (es : List (BucketKey × Bucket)) (index : BucketIndex) :
    es.foldl (fun index e => index.restore e.1 e.2) index =
      { buckets := es.foldl (fun t e => t.put e.1 e.2) index.buckets
        clock := (es.map (·.2)).foldl (fun n b => max n b.time) index.clock } := by
  induction es generalizing index with
  | nil => rfl
  | cons e es ih =>
    rw [List.foldl_cons, ih]
    rfl

theorem foldl_restore_empty {index : BucketIndex} (h : index.buckets.IsCanonical) :
    index.buckets.entries.foldl (fun index e => index.restore e.1 e.2) {} = index.rewound := by
  rw [foldl_restore, Table.foldl_put (t := {}) (by simpa using h)]
  rfl

end BucketIndex

end StyleLedger
