import StyleLedger.Proofs.Digest
import StyleLedger.Proofs.Store.Loaded

/-!
What a snapshot without errors lacks to be loaded.

The audit looks at stored texts no further than that they are structured values, and not at the
kinds of imports. Everything else that loading asks for follows from the kinds of the columns and
from the errors that the audit would have reported, whatever the rows say. So a snapshot without
errors is loaded exactly when its stored texts have the shapes that their readers take and its
imports are of known kinds, and if there are texts in these shapes where a style sheet needs them, a
sheet is made of it (`loads_iff_of_clean`).

* `Snapshot.IsSearchable` — what the audit has seen to.
-/

namespace StyleLedger

open Outcome

/-! ## 1. What the audit has seen to -/

namespace Audit

variable {s : Snapshot}

theorem isStoredText_of_storedTexts (h : storedTexts s = []) :
    ∀ x ∈ textColumns s, ∀ r ∈ x.2.2, (r.get x.2.1).IsStoredText := by
  intro x hx r hr
  have hnone := List.filterMap_eq_nil_iff.1 (List.flatMap_eq_nil_iff.1 h x hx) r hr
  cases hread : Json.read (r.get x.2.1).shown with
  | ok v => exact .inr ⟨v, hread⟩
  | error e =>
    simp only [hread, ite_eq_left_iff, reduceCtorEq, imp_false, Bool.not_eq_true, Bool.not_eq_false]
      at hnone
    exact .inl (Json.isNull_iff.1 hnone)

theorem contains_of_styleReferences (h : styleReferences s = []) :
    ∀ r ∈ s.startingStyles,
      (s.selectors.map (·.id.key)).contains (r.get "selector_id").key = true := by
  intro r hr
  have hnil := List.map_eq_nil_iff.1 (List.append_eq_nil_iff.1 h).2
  simpa using List.filter_eq_nil_iff.1 hnil r hr

/-- Whatever a rule reports is among the findings. -/
theorem subset_of_audit {findings : List Finding} (haudit : s.audit = .ok findings) :
    styleReferences s ⊆ findings ∧ tokenReferences s ⊆ findings ∧ storedTexts s ⊆ findings ∧
      duplicateNames s ⊆ findings := by
  obtain ⟨-, -, hfindings⟩ := bind_eq_ok.1 haudit
  obtain rfl := pure_eq_ok.1 hfindings
  refine ⟨?_, ?_, ?_, ?_⟩ <;> exact fun f hf => by simp [hf]

/-- Where no error is found, a rule that reports nothing but errors has found nothing. -/
theorem eq_nil_of_isError {findings xs : List Finding} (hclean : ∀ f ∈ findings, f.isError = false)
    (hxs : xs ⊆ findings) (herror : ∀ f ∈ xs, f.isError = true) : xs = [] := by
  refine List.eq_nil_iff_forall_not_mem.2 fun f hf => ?_
  have := hclean f (hxs hf)
  simp [herror f hf] at this

/-- An audit without errors has found nothing in the stored texts and the references. -/
theorem eq_nil_of_clean {findings : List Finding} (haudit : s.audit = .ok findings)
    (hclean : ∀ f ∈ findings, f.isError = false) : storedTexts s = [] ∧ styleReferences s = [] := by
  obtain ⟨hreferences, -, htexts, -⟩ := subset_of_audit haudit
  refine ⟨eq_nil_of_isError hclean htexts fun f hf => ?_,
    eq_nil_of_isError hclean hreferences fun f hf => ?_⟩
  · obtain ⟨x, -, hf⟩ := List.mem_flatMap.1 hf
    obtain ⟨r, -, hf⟩ := List.mem_filterMap.1 hf
    simp only at hf
    split at hf
    · split at hf
      · simp at hf
      · exact Option.some.inj hf ▸ rfl
    · simp at hf
  · rcases List.mem_append.1 hf with hf | hf
    · obtain ⟨r, -, hf⟩ := List.mem_flatMap.1 hf
      obtain ⟨x, -, rfl⟩ := List.mem_map.1 hf
      rfl
    · obtain ⟨r, -, rfl⟩ := List.mem_map.1 hf
      rfl

end Audit

namespace Snapshot

variable {s : Snapshot}

/-- No stored text is broken, and every starting style points at a selector. -/
structure IsSearchable (s : Snapshot) : Prop where
  texts : ∀ x ∈ Audit.textColumns s, ∀ r ∈ x.2.2, (r.get x.2.1).IsStoredText
  starting : ∀ r ∈ s.startingStyles, ∃ name, (namesById s.selectors).get? (r.get "selector_id") =
    some name ∧ name.IsString

theorem isSearchable_of_clean (hfits : s.Fits) {findings : List Finding}
    (haudit : s.audit = .ok findings) (hclean : ∀ f ∈ findings, f.isError = false) :
    s.IsSearchable := by
  obtain ⟨htexts, hreferences⟩ := Audit.eq_nil_of_clean haudit hclean
  refine ⟨Audit.isStoredText_of_storedTexts htexts, fun r hr => ?_⟩
  obtain ⟨n, hn, row, hrow, rfl⟩ :=
    exists_get?_namesById (Audit.contains_of_styleReferences hreferences r hr)
  have hrow : Schema.selectors.Fits row :=
    hfits (.selectors, s.selectors) (by simp [Snapshot.tables]) row hrow
  exact ⟨_, hn, hrow.string "name" (by decide)⟩

/-- A cell that must not be empty holds a stored text. -/
theorem IsSearchable.isFilled (h : s.IsSearchable) (schema : Schema) {rows : List Row}
    (hrows : ∀ r ∈ rows, schema.Fits r) (table column : String)
    (hx : (table, column, rows) ∈ Audit.textColumns s)
    (hcolumn : (column, .text, true) ∈
      schema.columns.map fun c => (c.name, c.affinity, c.required)) :
    ∀ r ∈ rows, (r.get column).IsFilled :=
  fun r hr => (h.texts _ hx r hr).isFilled ((hrows r hr).string _ hcolumn)

/-- A definition may be absent. -/
theorem IsSearchable.definition (h : s.IsSearchable)
    (hrows : ∀ r ∈ s.selectors, Schema.selectors.Fits r) :
    ∀ r ∈ s.selectors, r.get "def_json" = .null ∨ (r.get "def_json").IsFilled := by
  intro r hr
  rcases (hrows r hr).word "def_json" (by decide) with hnull | hstring
  · exact .inl hnull
  · exact .inr ((h.texts ("selectors", "def_json", s.selectors) (by simp [Audit.textColumns])
      r hr).isFilled hstring)

theorem IsSearchable.declarationColumns (h : s.IsSearchable) (hfits : s.Fits) :
    ∀ x ∈ s.declarationColumns, ∀ r ∈ x.2, (r.get x.1).IsFilled := by
  obtain ⟨-, -, -, -, -, hfaces, -, -, -, hpages, hcounter, hfeature, hpalette, hstarting⟩ :=
    List.forall_iff_forall_mem.2 hfits
  refine List.forall_iff_forall_mem.1 ⟨?_, ?_, ?_, ?_, ?_, ?_⟩
  · exact h.isFilled .fontFaces hfaces "font_faces" "props_json" (by simp [Audit.textColumns])
      (by decide)
  · exact h.isFilled .pages hpages "pages" "props_json" (by simp [Audit.textColumns]) (by decide)
  · exact h.isFilled .counterStyles hcounter "counter_styles" "props_json"
      (by simp [Audit.textColumns]) (by decide)
  · exact h.isFilled .fontFeatureValues hfeature "font_feature_values" "features_json"
      (by simp [Audit.textColumns]) (by decide)
  · exact h.isFilled .fontPaletteValues hpalette "font_palette_values" "props_json"
      (by simp [Audit.textColumns]) (by decide)
  · exact h.isFilled .startingStyles hstarting "starting_styles" "props_json"
      (by simp [Audit.textColumns]) (by decide)

/-! ## 2. What is left to ask for -/

/-- A snapshot that the audit has seen to is loaded when its stored texts have the shapes that their
readers take, and its imports are of known kinds. -/
theorem exists_toCascade_iff (hfits : s.Fits) (h : s.IsSearchable) :
    (∃ c, s.toCascade = .ok c) ↔ s.IsShaped fun _ => True := by
  obtain ⟨htokens, hselectors, hlayers, hstyles, hproperties, -, hkeyframes, hraw, himports,
    hpages, hcounter, hfeature, hpalette, hstarting⟩ := List.forall_iff_forall_mem.2 hfits
  obtain ⟨hfacesFilled, hpagesFilled, hcounterFilled, hfeatureFilled, hpaletteFilled,
    hstartingFilled⟩ := List.forall_iff_forall_mem.2 (h.declarationColumns hfits)
  have hframesFilled := h.isFilled .keyframes hkeyframes "keyframes" "frames_json"
    (by simp [Audit.textColumns]) (by decide)
  -- the stages that may fail, each with what it asks for
  have hselectorsRead := exists_fill_iff.trans (forall₂_congr fun r hr =>
    exists_selectorEntry_iff (hselectors r hr) (h.definition hselectors r hr))
  have hfacesRead := exists_fill_iff.trans (forall₂_congr fun r hr =>
    exists_fontFaceEntry_iff (hfacesFilled r hr))
  have hframesRead := exists_fill_iff.trans (forall₂_congr fun r hr =>
    exists_animationEntry_iff (hkeyframes r hr) (hframesFilled r hr))
  have himportsRead := exists_importEntries_iff himports
  have hpagesRead := exists_pageBlocks_iff hpages hpagesFilled
  have hcounterRead := exists_ruleBlocks_iff .counterStyles hcounter "name" "props_json" (by decide)
    hcounterFilled
  have hfeatureRead := exists_ruleBlocks_iff .fontFeatureValues hfeature "family" "features_json"
    (by decide) hfeatureFilled
  have hpaletteRead := exists_ruleBlocks_iff .fontPaletteValues hpalette "name" "props_json"
    (by decide) hpaletteFilled
  have hstartingRead := exists_starting_iff hstarting h.starting hstartingFilled
  simp only [toCascade, bind_eq_ok, pure_eq_ok]
  constructor
  · rintro ⟨-, -, -, selectors, hselectors', -, -, -, -, -, -, faces, hfaces', keyframes, hframes',
      -, -, imports, himports', pages, hpages', counter, hcounter', feature, hfeature', palette,
      hpalette', starting, hstarting', -⟩
    constructor
    case definitions => exact hselectorsRead.1 ⟨_, hselectors'⟩
    case frames => exact hframesRead.1 ⟨_, hframes'⟩
    case imports => exact himportsRead.1 ⟨_, himports'⟩
    case declarations =>
      exact List.forall_iff_forall_mem.1 ⟨hfacesRead.1 ⟨_, hfaces'⟩, hpagesRead.1 ⟨_, hpages'⟩,
        hcounterRead.1 ⟨_, hcounter'⟩, hfeatureRead.1 ⟨_, hfeature'⟩,
        hpaletteRead.1 ⟨_, hpalette'⟩, hstartingRead.1 ⟨_, hstarting'⟩⟩
  · intro hshaped
    obtain ⟨hfaces', hpages', hcounter', hfeature', hpalette', hstarting'⟩ :=
      List.forall_iff_forall_mem.2 hshaped.declarations
    obtain ⟨tokens, htokens⟩ := exists_fill_iff.2 fun r hr => exists_tokenEntry (htokens r hr)
    obtain ⟨selectors, hselectors⟩ := hselectorsRead.2 hshaped.definitions
    obtain ⟨layers, hlayers⟩ := exists_layerRegistry hlayers
    obtain ⟨buckets, hbuckets⟩ :=
      exists_bucketIndex (namesById s.selectors) (namesById s.layers) hstyles
    obtain ⟨properties, hproperties⟩ :=
      exists_fill_iff.2 fun r hr => exists_propertyEntry (hproperties r hr)
    obtain ⟨faces, hfaces⟩ := hfacesRead.2 hfaces'
    obtain ⟨keyframes, hkeyframes⟩ := hframesRead.2 hshaped.frames
    obtain ⟨raw, hraw⟩ := exists_rawEntries hraw
    obtain ⟨imports, himports⟩ := himportsRead.2 hshaped.imports
    obtain ⟨pages, hpages⟩ := hpagesRead.2 hpages'
    obtain ⟨counter, hcounter⟩ := hcounterRead.2 hcounter'
    obtain ⟨feature, hfeature⟩ := hfeatureRead.2 hfeature'
    obtain ⟨palette, hpalette⟩ := hpaletteRead.2 hpalette'
    obtain ⟨starting, hstarting⟩ := hstartingRead.2 hstarting'
    exact ⟨_, tokens, htokens, selectors, hselectors, layers, hlayers, buckets, hbuckets,
      properties, hproperties, faces, hfaces, keyframes, hkeyframes, raw, hraw, imports, himports,
      pages, hpages, counter, hcounter, feature, hfeature, palette, hpalette, starting, hstarting,
      rfl⟩

/-! ## 3. Style sheets -/

/-- A cascade that is loaded from texts is legible. -/
theorem isLegible_of_isShaped (hfits : s.Fits) (h : s.IsSearchable)
    (hshaped : s.IsShaped Json.IsString) {c : Cascade} (hc : s.toCascade = .ok c) :
    c.IsLegible := by
  obtain ⟨-, hselectors, hlayers, -, -, -, hkeyframes, -⟩ := List.forall_iff_forall_mem.2 hfits
  obtain ⟨hfacesFilled, hpagesFilled, hcounterFilled, hfeatureFilled, hpaletteFilled,
    hstartingFilled⟩ := List.forall_iff_forall_mem.2 (h.declarationColumns hfits)
  obtain ⟨hfaces, hpages, hcounter, hfeature, hpalette, hstarting⟩ :=
    List.forall_iff_forall_mem.2 hshaped.declarations
  have hframesFilled := h.isFilled .keyframes hkeyframes "keyframes" "frames_json"
    (by simp [Audit.textColumns]) (by decide)
  have hselectorNames : ∀ {id n}, (namesById s.selectors).get? id = some n → n.IsString :=
    fun hn => isString_of_get?_namesById .selectors hselectors (by decide) hn
  have hlayerNames : ∀ {id n}, (namesById s.layers).get? id = some n → n.IsString :=
    fun hn => isString_of_get?_namesById .layers hlayers (by decide) hn
  simp only [toCascade, bind_eq_ok, pure_eq_ok] at hc
  obtain ⟨tokens, -, selectors, hselectors', layers, -, buckets, hbuckets', properties, -, faces,
    hfaces', keyframes, hkeyframes', raw, -, imports, -, pages, hpages', counter, hcounter',
    feature, hfeature', palette, hpalette', starting, hstarting', rfl⟩ := hc
  constructor
  case definitions =>
    refine values_of_fill hselectors' fun r hr e he => ?_
    simp only [selectorEntry, bind_eq_ok, pure_eq_ok] at he
    obtain ⟨-, -, d, hd, -, -, rfl⟩ := he
    exact isPlain_of_definition (h.definition hselectors r hr) (hshaped.definitions r hr) hd
  case keys => exact isWordy_bucketIndex hselectorNames hlayerNames hbuckets'
  case fontFaces =>
    refine values_of_fill hfaces' fun r hr e he => ?_
    simp only [fontFaceEntry, bind_eq_ok, pure_eq_ok] at he
    obtain ⟨ds, hds, rfl⟩ := he
    exact isPlain_of_declarations (hfacesFilled r hr) (hfaces r hr) hds
  case keyframes =>
    refine values_of_fill hkeyframes' fun r hr e he => ?_
    simp only [animationEntry, bind_eq_ok, pure_eq_ok] at he
    obtain ⟨fs, hfs, -, -, rfl⟩ := he
    exact isPlain_of_frames (hframesFilled r hr) (hshaped.frames r hr) hfs
  case pages =>
    exact values_of_fill hpages' fun r hr e he =>
      (isPlain_of_ruleBlock (hpagesFilled r hr) (hpages r hr) he).2
  case counterStyles =>
    exact values_of_fill hcounter' fun r hr e he =>
      (isPlain_of_ruleBlock (hcounterFilled r hr) (hcounter r hr) he).2
  case fontFeatureValues =>
    exact values_of_fill hfeature' fun r hr e he =>
      (isPlain_of_ruleBlock (hfeatureFilled r hr) (hfeature r hr) he).2
  case fontPaletteValues =>
    exact values_of_fill hpalette' fun r hr e he =>
      (isPlain_of_ruleBlock (hpaletteFilled r hr) (hpalette r hr) he).2
  case startingStyles => exact isPlain_starting hselectorNames hstartingFilled hstarting hstarting'

/-- A snapshot without errors is loaded exactly when its stored texts have the shapes that their
readers take, and its imports are of known kinds. If there are texts in these shapes where there
can be any value, a style sheet is made of a store with the snapshot in it. -/
theorem loads_iff_of_clean (s : Snapshot) (hfits : s.Fits) {findings : List Finding}
    (haudit : s.audit = .ok findings) (hclean : ∀ f ∈ findings, f.isError = false) :
    ((∃ c, s.toCascade = .ok c) ↔ s.IsShaped fun _ => True) ∧
      (s.IsShaped Json.IsString → ∀ store : Store, store.load = s → ∀ config,
        ∃ css, store.compile config = .ok css) := by
  have hsearchable := isSearchable_of_clean hfits haudit hclean
  have hload := exists_toCascade_iff hfits hsearchable
  refine ⟨hload, fun hshaped store hstore config => ?_⟩
  obtain ⟨c, hc⟩ := hload.2 (hshaped.mono fun _ _ => trivial)
  have hlegible := isLegible_of_isShaped hfits hsearchable hshaped hc
  have hcompiled := Cascade.compile_of_isLegible hlegible (hfits.isTyped hc) config
  refine ⟨_, bind_eq_ok.2 ⟨c, ?_, hcompiled⟩⟩
  rw [hstore, hc]

/-- A selector with a stored definition, and one style of it. -/
def styledCard (definition : String) : Snapshot :=
  { selectors := [⟨[("id", selectorId (.text "card")), ("name", .text "card"),
      ("def_json", .text definition)] ++ originCells {} ++
      [("deleted", .bool false), ("created_at", .text ""), ("updated_at", .text "")]⟩]
    styles := [styleRow { selector := .text "card" } (.int 1) (.text "color")
      { value := .text "red", rowId := .text "style", sequence := .int 1 }] }

theorem fits_styledCard (definition : String) : (styledCard definition).Fits := by
  have hselector : ∀ r ∈ (styledCard definition).selectors, Schema.selectors.Fits r :=
    List.forall_mem_singleton.2 ⟨rfl, List.forall_iff_forall_mem.1 ⟨isWord_idCell _ _,
      Json.isString_text _, Json.isWord_text _, Json.isWord_null, Json.isWord_null, ⟨false, rfl⟩,
      Json.isString_text _, Json.isString_text _⟩⟩
  have hkey : ({ selector := .text "card" } : BucketKey).IsTyped :=
    ⟨Json.isWord_null, Json.isWord_null, Json.isWord_null, Json.isWord_null, Json.isWord_null,
      Json.isWord_null, Json.isWord_null⟩
  have hstyle : ∀ r ∈ (styledCard definition).styles, Schema.styles.Fits r :=
    List.forall_mem_singleton.2 (fits_styleRow hkey ⟨1, rfl⟩ (Json.isString_text _)
      ⟨Json.isString_text _, Json.isWord_text _, ⟨1, rfl⟩, Json.isWord_null, Json.isWord_null,
        Json.isWord_null⟩)
  have hnone : ∀ schema : Schema, ∀ r ∈ ([] : List Row), schema.Fits r := fun _ _ hr => nomatch hr
  exact List.forall_iff_forall_mem.1 ⟨hnone _, hselector, hnone _, hstyle, hnone _, hnone _,
    hnone _, hnone _, hnone _, hnone _, hnone _, hnone _, hnone _, hnone _⟩

/-- An audit finds nothing wrong with a definition that is a list. -/
theorem exists_clean_styledCard : ∀ definition ∈ ["[]", (Selector.cls (.text "card")).toText],
    ∃ findings, (styledCard definition).audit = .ok findings ∧
      ∀ f ∈ findings, f.isError = false := by
  have hclean : ∀ definition ∈ ["[]", (Selector.cls (.text "card")).toText],
      ((styledCard definition).audit.toOption.any fun findings =>
        findings.all fun f => !f.isError) = true := by
    unfold styledCard styleRow selectorId idCell
    rw [Identity.entityId_eq]
    decide +kernel
  intro definition hdefinition
  obtain ⟨findings, haudit, hall⟩ := exists_ok_of_any (hclean definition hdefinition)
  exact ⟨findings, haudit, by simpa using hall⟩

/-- A card with a definition is loaded, and a sheet is made of it. -/
theorem loads_styledCard : ∃ definition findings css, (styledCard definition).Fits ∧
    (styledCard definition).audit = .ok findings ∧ (∀ f ∈ findings, f.isError = false) ∧
    (∃ c, (styledCard definition).toCascade = .ok c) ∧
    ({ content := styledCard definition } : Store).compile {} = .ok css := by
  have hmem : (Selector.cls (.text "card")).toText ∈
      ["[]", (Selector.cls (.text "card")).toText] := by simp
  obtain ⟨findings, haudit, hclean⟩ := exists_clean_styledCard _ hmem
  have hread : Json.ofCell (.text (Selector.cls (.text "card")).toText) =
      .ok (Selector.cls (.text "card")).toJson :=
    Json.ofText_write (Selector.toJson_isPlain (Json.isString_text "card"))
  have hshaped : (styledCard (Selector.cls (.text "card")).toText).IsShaped Json.IsString := by
    constructor
    case definitions =>
      refine List.forall_mem_singleton.2 ((Json.holds_iff hread).2 ?_)
      exact .simple rfl (by simp [Selector.simpleKinds]) rfl (Json.isString_text "card")
    case declarations => simp [declarationColumns, styledCard]
    case frames => simp [styledCard]
    case imports => simp [styledCard]
  obtain ⟨hload, hcompile⟩ := loads_iff_of_clean _ (fits_styledCard _) haudit hclean
  obtain ⟨css, hcss⟩ := hcompile hshaped { content := _ } rfl {}
  exact ⟨_, findings, css, fits_styledCard _, haudit, hclean,
    hload.2 (hshaped.mono fun _ _ => trivial), hcss⟩

/-- An audit without errors does not mean that a snapshot is loaded: a list is no definition. -/
theorem not_loads_of_clean : ¬∀ s : Snapshot, s.Fits → ∀ findings, s.audit = .ok findings →
    (∀ f ∈ findings, f.isError = false) → ∃ c, s.toCascade = .ok c := by
  intro h
  obtain ⟨findings, haudit, hclean⟩ := exists_clean_styledCard "[]" List.mem_cons_self
  obtain ⟨c, hc⟩ := h (styledCard "[]") (fits_styledCard _) findings haudit hclean
  have hnone : (styledCard "[]").toCascade.toOption = none := by decide +kernel
  simp [hc, Except.toOption] at hnone

end Snapshot

end StyleLedger
