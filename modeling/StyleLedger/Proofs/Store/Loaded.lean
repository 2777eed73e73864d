import StyleLedger.Proofs.Store.Reloaded
import StyleLedger.Proofs.Store.Shapes
import StyleLedger.Proofs.Store.Verified

/-!
Rows are loaded when their stored texts are.

Of rows whose cells are of the kinds of their columns, most are always read: names are single
values, numbers can be sorted, and a style row finds its bucket whatever it refers to. What is left
are the stored texts, which must have the shapes that their readers take, and the kinds of imports.
Each table is read exactly when that holds of its rows.

* `Snapshot.IsShaped` — the shapes of the stored texts, and the kinds of the imports.
* `exists_bucketIndex`, `exists_layerRegistry`, `exists_rawEntries` — tables that are always read.
* `exists_selectorEntry_iff`, `exists_ruleBlocks_iff`, `exists_importEntries_iff` — those that are
  not.
-/

namespace StyleLedger

open Outcome

/-! ## 1. Cells that hold stored texts -/

namespace Json

/-- What a cell holds has a shape, if it holds a stored text that can be read. -/
def Holds (shape : Json → Prop) (cell : Json) : Prop :=
  ∀ v, ofCell cell = .ok v → shape v

/-- A cell holds a stored text that can be read, so it is not empty. -/
def IsFilled (cell : Json) : Prop :=
  cell.isTrue = true ∧ ∃ v, ofCell cell = .ok v

theorem IsStoredText.isFilled {cell : Json} (h : cell.IsStoredText) (hstring : cell.IsString) :
    cell.IsFilled := by
  obtain ⟨t, rfl⟩ := hstring
  rcases h with hnull | ⟨v, hv⟩
  · simp at hnull
  · refine ⟨?_, v, mapError_eq_ok.2 hv⟩
    have hne : t ≠ "" := by
      rintro rfl
      have hempty : (Json.read "").toOption = none := by decide
      rw [show (Json.text "").shown = "" from rfl] at hv
      simp [hv, Except.toOption] at hempty
    simpa [isTrue] using hne

theorem Holds.mono {shape shape' : Json → Prop} {cell : Json} (h : cell.Holds shape)
    (hshape : ∀ v, shape v → shape' v) : cell.Holds shape' :=
  fun v hv => hshape v (h v hv)

theorem holds_iff {shape : Json → Prop} {cell v : Json} (h : ofCell cell = .ok v) :
    cell.Holds shape ↔ shape v := by
  refine ⟨fun hshape => hshape v h, fun hshape w hw => ?_⟩
  obtain rfl := Except.ok.inj (h.symm.trans hw)
  exact hshape

end Json

section Readers

variable {P : Json → Prop} {cell : Json} (hcell : cell.IsFilled)

include hcell

/-- A stored list of declarations is read exactly when it has the shape of one. -/
theorem StoredDeclaration.listOfText_iff :
    (∃ ds, listOfText cell = .ok ds ∧ ∀ d ∈ ds, P d.name ∧ P d.value) ↔
      cell.Holds (ListShape P) := by
  obtain ⟨htrue, v, hv⟩ := hcell
  rw [Json.holds_iff hv, ← listOfJson_iff, listOfText, Json.orElse, if_pos htrue, hv]
  rfl

theorem StoredKeyframe.listOfText_iff :
    (∃ fs, listOfText cell = .ok fs ∧ ∀ f ∈ fs, ∀ d ∈ f.declarations, P d.name ∧ P d.value) ↔
      cell.Holds (ListShape P) := by
  obtain ⟨htrue, v, hv⟩ := hcell
  rw [Json.holds_iff hv, listOfText, Json.orElse, if_pos htrue, hv]
  simp only [ListShape, ← ofJson_iff, ← exists_mapM_forall_iff, bind_eq_ok, Except.ok.injEq,
    exists_eq_left', Json.asItems_eq_ok]
  constructor
  · rintro ⟨fs, ⟨items, hitems, hfs⟩, hP⟩
    exact ⟨items, hitems, fs, hfs, hP⟩
  · rintro ⟨items, hitems, fs, hfs, hP⟩
    exact ⟨fs, ⟨items, hitems, hfs⟩, hP⟩

omit hcell in
/-- A stored definition is read exactly when it has the shape of one; it may be absent. -/
theorem Snapshot.exists_definitionOf?_iff (hcell : cell = .null ∨ cell.IsFilled) :
    (∃ d, definitionOf? cell = .ok d) ↔ cell.Holds (Selector.Shape fun _ => True) := by
  rcases hcell with rfl | ⟨htrue, v, hv⟩
  · exact iff_of_true ⟨none, rfl⟩ fun v hv => by simp [Json.ofCell] at hv
  · rw [Json.holds_iff hv, ← Selector.exists_ofJson_iff, definitionOf?, if_pos htrue, hv]
    simp only [bind_eq_ok, pure_eq_ok, Except.ok.injEq, exists_eq_left']
    constructor
    · rintro ⟨d, s, hs, -⟩
      exact ⟨s, hs⟩
    · rintro ⟨s, hs⟩
      exact ⟨some s, s, hs, rfl⟩

end Readers

/-! ## 2. Rows -/

namespace Snapshot

/-- The columns that hold lists of declarations, with the rows of their tables. -/
def declarationColumns (s : Snapshot) : List (String × List Row) :=
  [("props_json", s.fontFaces), ("props_json", s.pages), ("props_json", s.counterStyles),
   ("features_json", s.fontFeatureValues), ("props_json", s.fontPaletteValues),
   ("props_json", s.startingStyles)]

/-- Every stored text of a snapshot has the shape that its reader takes, with a property of the
cells in it, and every import is of a known kind. -/
structure IsShaped (P : Json → Prop) (s : Snapshot) : Prop where
  definitions : ∀ r ∈ s.selectors, (r.get "def_json").Holds (Selector.Shape P)
  declarations : ∀ x ∈ s.declarationColumns, ∀ r ∈ x.2,
    (r.get x.1).Holds (StoredDeclaration.ListShape P)
  frames : ∀ r ∈ s.keyframes, (r.get "frames_json").Holds (StoredKeyframe.ListShape P)
  imports : ∀ r ∈ s.imports, ∃ kind : ImportKind, r.get "import_type" = .text kind.name

theorem IsShaped.mono {P Q : Json → Prop} {s : Snapshot} (h : s.IsShaped P)
    (hPQ : ∀ w, P w → Q w) : s.IsShaped Q where
  definitions r hr := (h.definitions r hr).mono fun _ hv => hv.mono hPQ
  declarations x hx r hr := (h.declarations x hx r hr).mono fun _ hv => hv.mono hPQ
  frames r hr := (h.frames r hr).mono fun _ hv => hv.mono hPQ
  imports := h.imports

variable {r : Row}

theorem exists_fill_iff {κ α : Type} [DecidableEq κ] [Keyed κ] {rows : List Row}
    {entry : Row → Except ShapeError (κ × α)} :
    (∃ t, fill rows entry = .ok t) ↔ ∀ r ∈ rows, ∃ e, entry r = .ok e := by
  rw [← exists_mapM_iff]
  constructor
  · rintro ⟨t, ht⟩
    obtain ⟨es, hes, -⟩ := bind_eq_ok.1 ht
    exact ⟨es, hes⟩
  · rintro ⟨es, hes⟩
    exact ⟨_, bind_eq_ok.2 ⟨es, hes, rfl⟩⟩

/-! Of rows that fit, most are always read. -/

theorem exists_tokenEntry (hr : Schema.tokens.Fits r) : ∃ e, tokenEntry r = .ok e := by
  simp [tokenEntry, keyCell_of_isWord (hr.word "name" (by decide)), bind, Except.bind, pure,
    Except.pure]

theorem exists_propertyEntry (hr : Schema.properties.Fits r) : ∃ e, propertyEntry r = .ok e := by
  simp [propertyEntry, keyCell_of_isWord (hr.word "name" (by decide)), bind, Except.bind, pure,
    Except.pure]

/-! Others are read when the text in them is. -/

theorem exists_selectorEntry_iff (hr : Schema.selectors.Fits r)
    (hcell : r.get "def_json" = .null ∨ (r.get "def_json").IsFilled) :
    (∃ e, selectorEntry r = .ok e) ↔
      (r.get "def_json").Holds (Selector.Shape fun _ => True) := by
  have hid : keyCell r.id = .ok r.id := keyCell_of_isWord (hr.word "id" (by decide))
  simp only [← exists_definitionOf?_iff hcell, selectorEntry, hid,
    keyCell_of_isWord (hr.word "name" (by decide)), bind_eq_ok, pure_eq_ok, Except.ok.injEq]
  constructor
  · rintro ⟨e, -, -, d, hd, -⟩
    exact ⟨d, hd⟩
  · rintro ⟨d, hd⟩
    exact ⟨_, _, rfl, d, hd, _, rfl, rfl⟩

theorem exists_animationEntry_iff (hr : Schema.keyframes.Fits r)
    (hcell : (r.get "frames_json").IsFilled) :
    (∃ e, animationEntry r = .ok e) ↔
      (r.get "frames_json").Holds (StoredKeyframe.ListShape fun _ => True) := by
  simp only [← StoredKeyframe.listOfText_iff hcell, animationEntry,
    keyCell_of_isWord (hr.word "name" (by decide)), bind_eq_ok, pure_eq_ok, Except.ok.injEq]
  constructor
  · rintro ⟨e, fs, hfs, -⟩
    exact ⟨fs, hfs, by simp⟩
  · rintro ⟨fs, hfs, -⟩
    exact ⟨_, fs, hfs, _, rfl, rfl⟩

theorem exists_fontFaceEntry_iff (hcell : (r.get "props_json").IsFilled) :
    (∃ e, fontFaceEntry r = .ok e) ↔
      (r.get "props_json").Holds (StoredDeclaration.ListShape fun _ => True) := by
  simp only [← StoredDeclaration.listOfText_iff hcell, fontFaceEntry, bind_eq_ok, pure_eq_ok]
  constructor
  · rintro ⟨e, ds, hds, -⟩
    exact ⟨ds, hds, by simp⟩
  · rintro ⟨ds, hds, -⟩
    exact ⟨_, ds, hds, rfl⟩

theorem exists_ruleBlock_iff {name : Json} (hname : name.IsWord) {bodyColumn : String}
    (hcell : (r.get bodyColumn).IsFilled) :
    (∃ e, ruleBlock name bodyColumn r = .ok e) ↔
      (r.get bodyColumn).Holds (StoredDeclaration.ListShape fun _ => True) := by
  simp only [← StoredDeclaration.listOfText_iff hcell, ruleBlock, keyCell_of_isWord hname,
    bind_eq_ok, pure_eq_ok, Except.ok.injEq]
  constructor
  · rintro ⟨e, ds, hds, -⟩
    exact ⟨ds, hds, by simp⟩
  · rintro ⟨ds, hds, -⟩
    exact ⟨_, ds, hds, _, rfl, rfl⟩

theorem importKind_eq_ok {v : Json} {kind : ImportKind} :
    importKind v = .ok kind ↔ v = .text kind.name := by
  constructor
  · intro h
    unfold importKind at h
    split at h
    · split at h
      · next k hk =>
        obtain rfl := Except.ok.inj h
        have hname := List.find?_some hk
        rw [of_decide_eq_true hname]
      · simp at h
    · simp at h
  · rintro rfl
    exact importKind_name kind

theorem nameAt?_of_isWord (names : Table Json Json) {id : Json} (hid : id.IsWord) :
    nameAt? names id = .ok (names.get? id) := by
  simp only [nameAt?, keyCell_of_isWord hid]
  rfl

theorem exists_nameOf (names : Table Json Json) {id : Json} (hid : id.IsWord) :
    ∃ v, nameOf names id = .ok v := by
  unfold nameOf
  split
  · exact ⟨_, bind_eq_ok.2 ⟨_, nameAt?_of_isWord names hid, rfl⟩⟩
  · exact ⟨_, rfl⟩

/-- A wrapper can be read from columns of texts, and addresses a bucket. -/
theorem areReadable_areScalar_of_isTyped {c : DescriptorColumns} (h : c.IsTyped) :
    (Descriptor.areReadable c && Descriptor.areScalar c) = true := by
  have hreadable : Descriptor.areReadable c = true := by
    rcases h.condition with hnull | ⟨t, ht⟩
    · simp [Descriptor.areReadable, hnull, Json.isTrue]
    · simp [Descriptor.areReadable, ht, Json.isText]
  have hscalar : Descriptor.areScalar c = true := by
    have hnull : Json.isScalar .null = true := rfl
    unfold Descriptor.areScalar Descriptor.ofColumns
    split
    · rfl
    · next d hd =>
      split at hd
      · obtain rfl := Option.some.inj hd
        split <;> simp [h.min.isScalar, h.max.isScalar, h.axis.isScalar, h.containerName.isScalar,
          h.condition.isScalar, h.supports.isScalar, hnull]
      · simp at hd
  rw [hreadable, hscalar]
  rfl

/-- The columns of a wrapper in a row that fits hold texts. -/
theorem isTyped_descriptorColumns (hr : Schema.styles.Fits r) : (descriptorColumns r).IsTyped :=
  ⟨hr.word _ (by decide), hr.word _ (by decide), hr.word _ (by decide), hr.word _ (by decide),
    hr.word _ (by decide), hr.word _ (by decide), hr.word _ (by decide)⟩

theorem exists_keyOf (selectors layers : Table Json Json) (hr : Schema.styles.Fits r)
    (selector : Json) : ∃ k, keyOf selectors layers r selector = .ok k := by
  obtain ⟨layer, hlayer⟩ := exists_nameOf layers (hr.word "layer_id" (by decide))
  obtain ⟨root, hroot⟩ := exists_nameOf selectors (hr.word "scope_root_id" (by decide))
  obtain ⟨limit, hlimit⟩ := exists_nameOf selectors (hr.word "scope_limit_id" (by decide))
  have hcolumns := areReadable_areScalar_of_isTyped (isTyped_descriptorColumns hr)
  simp only [keyOf, bind_eq_ok, pure_eq_ok]
  exact ⟨_, layer, hlayer, root, hroot, limit, hlimit, (),
    ShapeError.require_of_true hcolumns _, rfl⟩

theorem exists_addStyle (selectors layers : Table Json Json) (hr : Schema.styles.Fits r)
    (t : Table BucketKey Bucket) : ∃ u, addStyle selectors layers t r = .ok u := by
  obtain ⟨n, hn⟩ := hr.whole "touched" (by decide)
  have htime : timeCell (r.get "touched") = .ok (r.get "touched") := by
    rw [hn]
    rfl
  have hprop : keyCell (r.get "prop") = .ok (r.get "prop") :=
    keyCell_of_isWord (hr.word "prop" (by decide))
  simp only [addStyle, nameAt?_of_isWord selectors (hr.word "selector_id" (by decide)), hprop,
    htime, bind, Except.bind]
  split
  · exact ⟨t, rfl⟩
  · exact ⟨t, rfl⟩
  · next selector _ _ =>
    obtain ⟨k, hk⟩ := exists_keyOf selectors layers hr selector
    rw [hk]
    simp only
    cases t.get? k with
    | none => exact ⟨_, rfl⟩
    | some b => exact ⟨_, rfl⟩

/-- A starting style is read under the name of its selector. -/
theorem exists_addStarting_iff {selectors : Table Json Json} {name : Json}
    (hname : selectors.get? (r.get "selector_id") = some name) (hstring : name.IsString)
    (hr : Schema.startingStyles.Fits r) (hcell : (r.get "props_json").IsFilled)
    (t : Table Json RuleBlock) :
    (∃ u, addStarting selectors t r = .ok u) ↔
      (r.get "props_json").Holds (StoredDeclaration.ListShape fun _ => True) := by
  obtain ⟨n, rfl⟩ := hstring
  rw [← exists_ruleBlock_iff (Json.isWord_text n) hcell]
  simp only [addStarting, nameAt?_of_isWord selectors (hr.word "selector_id" (by decide)), hname,
    bind_eq_ok, pure_eq_ok, Except.ok.injEq, exists_eq_left']
  constructor
  · rintro ⟨u, e, he, -⟩
    exact ⟨e, he⟩
  · rintro ⟨e, he⟩
    exact ⟨_, e, he, rfl⟩

/-! ## 3. Tables -/

/-- The identifier of a row leads to the name of one. -/
theorem exists_get?_namesById {rows : List Row} {id : Json}
    (h : (rows.map (·.id.key)).contains id.key = true) :
    ∃ n, (namesById rows).get? id = some n ∧ ∃ r ∈ rows, r.get "name" = n := by
  obtain ⟨r, hr, hkey⟩ := List.mem_map.1 (List.contains_iff_mem.1 h)
  have hsome : ((namesById rows).get? id).isSome := by
    rw [namesById, Table.get?_ofList]
    refine Table.isSome_get?_iff (t := ⟨_⟩) |>.2 ⟨(r.id, r.get "name"), ?_, hkey⟩
    exact List.mem_reverse.2 (List.mem_map_of_mem hr)
  obtain ⟨n, hn⟩ := Option.isSome_iff_exists.1 hsome
  exact ⟨n, hn, exists_of_get?_namesById hn⟩

theorem exists_layerRegistry {rows : List Row} (hrows : ∀ r ∈ rows, Schema.layers.Fits r) :
    ∃ l, layerRegistry rows = .ok l := by
  have hentries : ∀ r ∈ rows, ∃ e : Json × Provenance, (do
      let _ ← keyCell r.id
      return (← keyCell (r.get "name"), provenance r) : Except ShapeError _) = .ok e := by
    intro r hr
    have hid : keyCell r.id = .ok r.id := keyCell_of_isWord ((hrows r hr).word "id" (by decide))
    have hname := keyCell_of_isWord ((hrows r hr).word "name" (by decide))
    exact ⟨_, bind_eq_ok.2 ⟨_, hid, bind_eq_ok.2 ⟨_, hname, rfl⟩⟩⟩
  obtain ⟨entries, hfill⟩ := exists_fill_iff.2 hentries
  have hwhole : ∀ r ∈ rows.filter fun r => !(r.get "order_index").isNull,
      (r.get "order_index").IsWhole := by
    intro r hr
    obtain ⟨hr, hplaced⟩ := List.mem_filter.1 hr
    rcases (hrows r hr).kinds { name := "order_index", affinity := .whole } (by decide) with
      hnull | hwhole
    · have hnull : r.get "order_index" = .null := hnull
      simp [hnull, Json.isNull] at hplaced
    · exact hwhole
  exact ⟨_, bind_eq_ok.2 ⟨_, hfill, bind_eq_ok.2 ⟨_, sortedBy_eq hwhole, rfl⟩⟩⟩

theorem exists_bucketIndex (selectors layers : Table Json Json) {rows : List Row}
    (hrows : ∀ r ∈ rows, Schema.styles.Fits r) :
    ∃ index, bucketIndex selectors layers rows = .ok index := by
  have hsteps : (∃ t, rows.foldlM (addStyle selectors layers) {} = .ok t) ↔ ∀ r ∈ rows, True :=
    exists_foldlM_iff fun r hr t => iff_true_intro (exists_addStyle selectors layers (hrows r hr) t)
  obtain ⟨t, ht⟩ := hsteps.2 fun _ _ => trivial
  exact ⟨_, bind_eq_ok.2 ⟨t, ht, rfl⟩⟩

theorem exists_rawEntries {rows : List Row} (hrows : ∀ r ∈ rows, Schema.rawBlocks.Fits r) :
    ∃ es, rawEntries rows = .ok es := by
  have hsorted := sortedBy_eq fun r hr => (hrows r hr).whole "sequence" (by decide)
  exact ⟨_, bind_eq_ok.2 ⟨_, hsorted, rfl⟩⟩

/-- Blocks are read when their declarations are, if their names are texts. -/
theorem exists_fill_ruleBlock_iff {name : Row → Json} {bodyColumn : String} {rows : List Row}
    (hname : ∀ r ∈ rows, (name r).IsWord) (hcells : ∀ r ∈ rows, (r.get bodyColumn).IsFilled) :
    (∃ t, fill rows (fun r => ruleBlock (name r) bodyColumn r) = .ok t) ↔
      ∀ r ∈ rows, (r.get bodyColumn).Holds (StoredDeclaration.ListShape fun _ => True) :=
  exists_fill_iff.trans
    (forall₂_congr fun r hr => exists_ruleBlock_iff (hname r hr) (hcells r hr))

theorem exists_ruleBlocks_iff (schema : Schema) {rows : List Row}
    (hrows : ∀ r ∈ rows, schema.Fits r) (nameColumn bodyColumn : String)
    (hname : (nameColumn, .text) ∈ schema.columns.map fun c => (c.name, c.affinity))
    (hcells : ∀ r ∈ rows, (r.get bodyColumn).IsFilled) :
    (∃ t, ruleBlocks nameColumn bodyColumn rows = .ok t) ↔
      ∀ r ∈ rows, (r.get bodyColumn).Holds (StoredDeclaration.ListShape fun _ => True) :=
  exists_fill_ruleBlock_iff (fun r hr => (hrows r hr).word nameColumn hname) hcells

theorem exists_pageBlocks_iff {rows : List Row} (hrows : ∀ r ∈ rows, Schema.pages.Fits r)
    (hcells : ∀ r ∈ rows, (r.get "props_json").IsFilled) :
    (∃ t, pageBlocks rows = .ok t) ↔
      ∀ r ∈ rows, (r.get "props_json").Holds (StoredDeclaration.ListShape fun _ => True) :=
  exists_fill_ruleBlock_iff
    (fun r hr => (((hrows r hr).word "pseudo" (by decide)).orElse_text "").isWord) hcells

/-- Starting styles are read when their declarations are, if their selectors are there. -/
theorem exists_starting_iff {selectors : Table Json Json} {rows : List Row}
    (hrows : ∀ r ∈ rows, Schema.startingStyles.Fits r)
    (hnames : ∀ r ∈ rows, ∃ name, selectors.get? (r.get "selector_id") = some name ∧ name.IsString)
    (hcells : ∀ r ∈ rows, (r.get "props_json").IsFilled) :
    (∃ t, rows.foldlM (addStarting selectors) {} = .ok t) ↔
      ∀ r ∈ rows, (r.get "props_json").Holds (StoredDeclaration.ListShape fun _ => True) := by
  refine exists_foldlM_iff fun r hr t => ?_
  obtain ⟨name, hname, hstring⟩ := hnames r hr
  exact exists_addStarting_iff hname hstring (hrows r hr) (hcells r hr) t

theorem exists_importEntries_iff {rows : List Row} (hrows : ∀ r ∈ rows, Schema.imports.Fits r) :
    (∃ es, importEntries rows = .ok es) ↔
      ∀ r ∈ rows, ∃ kind : ImportKind, r.get "import_type" = .text kind.name := by
  have hsorted := sortedBy_eq fun r hr => (hrows r hr).whole "sequence" (by decide)
  simp only [importEntries, hsorted, bind_eq_ok, Except.ok.injEq, exists_eq_left', exists_mapM_iff,
    pure_eq_ok, importKind_eq_ok, List.mem_mergeSort]
  refine forall₂_congr fun r _ => ?_
  constructor
  · rintro ⟨e, kind, hkind, -⟩
    exact ⟨kind, hkind⟩
  · rintro ⟨kind, hkind⟩
    exact ⟨_, kind, hkind, rfl⟩

/-! ## 4. What is read of texts -/

variable {cell : Json}

theorem isPlain_of_declarations (hcell : cell.IsFilled)
    (hshape : cell.Holds (StoredDeclaration.ListShape Json.IsString))
    {ds : List StoredDeclaration} (h : StoredDeclaration.listOfText cell = .ok ds) :
    ∀ d ∈ ds, d.IsPlain := by
  obtain ⟨ds', hds', hplain⟩ := (StoredDeclaration.listOfText_iff hcell).2 hshape
  obtain rfl := Except.ok.inj (h.symm.trans hds')
  exact hplain

theorem isPlain_of_frames (hcell : cell.IsFilled)
    (hshape : cell.Holds (StoredKeyframe.ListShape Json.IsString))
    {fs : List StoredKeyframe} (h : StoredKeyframe.listOfText cell = .ok fs) :
    ∀ f ∈ fs, ∀ d ∈ f.declarations, d.IsPlain := by
  obtain ⟨fs', hfs', hplain⟩ := (StoredKeyframe.listOfText_iff hcell).2 hshape
  obtain rfl := Except.ok.inj (h.symm.trans hfs')
  exact hplain

theorem isPlain_of_definition (hcell : cell = .null ∨ cell.IsFilled)
    (hshape : cell.Holds (Selector.Shape Json.IsString)) {d : Option Selector}
    (h : definitionOf? cell = .ok d) : ∀ s ∈ d, s.IsPlain := by
  rcases hcell with rfl | ⟨htrue, v, hv⟩
  · obtain rfl := Except.ok.inj h
    simp
  · rw [definitionOf?, if_pos htrue, hv] at h
    simp only [bind_eq_ok, pure_eq_ok, Except.ok.injEq, exists_eq_left'] at h
    obtain ⟨s, hs, rfl⟩ := h
    intro s' hs'
    obtain rfl := Option.some.inj hs'
    exact (hshape v hv).isPlain hs

theorem isPlain_of_ruleBlock {name : Json} {bodyColumn : String}
    (hcell : (r.get bodyColumn).IsFilled)
    (hshape : (r.get bodyColumn).Holds (StoredDeclaration.ListShape Json.IsString))
    {e : Json × RuleBlock} (h : ruleBlock name bodyColumn r = .ok e) :
    e.1 = name ∧ e.2.IsPlain := by
  simp only [ruleBlock, bind_eq_ok, pure_eq_ok] at h
  obtain ⟨ds, hds, key, hkey, rfl⟩ := h
  exact ⟨(eq_of_keyCell hkey).symm, isPlain_of_declarations hcell hshape hds⟩

/-- What every row brings to a table holds of all values. -/
theorem values_of_fill {κ α : Type} [DecidableEq κ] [Keyed κ] {V : α → Prop} {rows : List Row}
    {entry : Row → Except ShapeError (κ × α)} {t : Table κ α} (h : fill rows entry = .ok t)
    (hentry : ∀ r ∈ rows, ∀ e, entry r = .ok e → V e.2) : t.All fun _ v => V v :=
  (all_of_fill (K := fun _ => True) h fun r hr e he => ⟨trivial, hentry r hr e he⟩).imp
    fun _ _ hv => hv.2

/-- References stand for texts, if names are texts. -/
theorem isString_of_get?_namesById (schema : Schema) {rows : List Row}
    (hrows : ∀ r ∈ rows, schema.Fits r)
    (hname : ("name", .text, true) ∈
      schema.columns.map fun c => (c.name, c.affinity, c.required)) {id n : Json}
    (h : (namesById rows).get? id = some n) : n.IsString := by
  obtain ⟨r, hr, rfl⟩ := exists_of_get?_namesById h
  exact (hrows r hr).string "name" hname

section Names

variable {S L : Table Json Json} (hS : ∀ {id n}, S.get? id = some n → n.IsString)

include hS

/-- The keys of the buckets hold texts if references stand for texts. -/
theorem isWordy_bucketIndex (hL : ∀ {id n}, L.get? id = some n → n.IsString) {rows : List Row}
    {index : BucketIndex} (h : bucketIndex S L rows = .ok index) :
    ∀ k ∈ index.buckets.keys, k.IsWordy := by
  have hstep : ∀ r ∈ rows, ∀ t u : Table BucketKey Bucket, (t.All fun k _ => k.IsWordy ∧ True) →
      addStyle S L t r = .ok u → u.All fun k _ => k.IsWordy ∧ True := by
    intro r _ t u ht h
    simp only [addStyle, bind_eq_ok] at h
    obtain ⟨name?, hname?, h⟩ := h
    split at h
    · exact pure_eq_ok.1 h ▸ ht
    · exact pure_eq_ok.1 h ▸ ht
    · next selector _ =>
      simp only [bind_eq_ok] at h
      obtain ⟨k, hk, name, -, h⟩ := h
      have hk := isWordy_keyOf hS hL (hS (get?_of_nameAt? hname?)) hk
      split at h
      · obtain rfl := pure_eq_ok.1 h
        exact ht.put hk trivial
      · obtain ⟨b, -, h⟩ := bind_eq_ok.1 h
        obtain rfl := pure_eq_ok.1 h
        exact ht.put hk trivial
  simp only [bucketIndex, bind_eq_ok, pure_eq_ok] at h
  obtain ⟨t, ht, rfl⟩ := h
  have hread : t.All fun k _ => k.IsWordy ∧ True := foldlM_keeps hstep (Table.all_empty _) ht
  have hempty : (({} : BucketIndex).buckets.All fun k _ => k.IsWordy ∧ True) := Table.all_empty _
  have hall := all_restore (K := BucketKey.IsWordy) (V := fun _ => True) hread hempty
  intro k hk
  obtain ⟨e, he, rfl⟩ := List.mem_map.1 hk
  exact (hall e he).1

/-- Starting styles are read under texts if references stand for texts. -/
theorem isPlain_starting {rows : List Row} (hcells : ∀ r ∈ rows, (r.get "props_json").IsFilled)
    (hshapes : ∀ r ∈ rows,
      (r.get "props_json").Holds (StoredDeclaration.ListShape Json.IsString))
    {t : Table Json RuleBlock} (h : rows.foldlM (addStarting S) {} = .ok t) :
    t.HasTextKeys RuleBlock.IsPlain := by
  refine foldlM_keeps (fun r hr t u ht h => ?_) (Table.all_empty _) h
  simp only [addStarting, bind_eq_ok] at h
  obtain ⟨name?, hname?, h⟩ := h
  split at h
  · exact pure_eq_ok.1 h ▸ ht
  · exact pure_eq_ok.1 h ▸ ht
  · simp only [bind_eq_ok, pure_eq_ok] at h
    obtain ⟨e, he, rfl⟩ := h
    obtain ⟨hname, hplain⟩ := isPlain_of_ruleBlock (hcells r hr) (hshapes r hr) he
    have hstring := hname ▸ hS (get?_of_nameAt? hname?)
    exact (Table.All.put ht hstring hplain).respell hstring

end Names

end Snapshot

end StyleLedger
