import StyleLedger.Proofs.Source.Evaluation
import StyleLedger.Proofs.Spacing
import StyleLedger.Proofs.Store.Reloaded

/-!
Where spacing macros are left in a style sheet.

A sheet takes its declarations from the buckets of a cascade and from everything that is written
outside them: tokens, registered properties, font faces, at-rules and animations. The macro is
expanded in the former and in nothing else, so a sheet has a macro exactly when a value outside the
buckets has one once its references are replaced (`Cascade.IsReachable.macros_outside_rules`).

* `Sheet.declarations` — every declaration of a sheet, in whatever block it stands.
* `Cascade.substitutedCells` — the values outside the buckets whose references are replaced.
* `Cascade.verbatimCells` — the values that a sheet takes over as they are.
-/

namespace StyleLedger

open Value Outcome

/-! ## 1. The declarations of a sheet -/

mutual

/-- The declarations of a block and of the blocks inside it. -/
def SheetBlock.allDeclarations : SheetBlock → List SheetDeclaration
  | .block _ ds children => ds ++ SheetBlock.nested children

/-- The declarations of some blocks and of the blocks inside them. -/
def SheetBlock.nested : List SheetBlock → List SheetDeclaration
  | [] => []
  | b :: bs => b.allDeclarations ++ SheetBlock.nested bs

end

theorem SheetBlock.nested_eq (bs : List SheetBlock) :
    SheetBlock.nested bs = bs.flatMap SheetBlock.allDeclarations := by
  induction bs with
  | nil => rfl
  | cons b bs ih => rw [SheetBlock.nested, ih, List.flatMap_cons]

/-- Every declaration of a sheet. -/
def Sheet.declarations (sheet : Sheet) : List SheetDeclaration :=
  sheet.root ++ SheetBlock.nested sheet.preamble ++ sheet.rules.flatMap (·.declarations) ++
    SheetBlock.nested sheet.keyframes

/-! ## 2. The values outside the buckets -/

namespace Cascade

/-- The values of some at-rules. -/
def blockCells (t : Table Json RuleBlock) : List Json :=
  t.values.flatMap fun b => b.declarations.map (·.value)

/-- The values outside the buckets whose references are replaced. -/
def substitutedCells (s : Cascade) : List Json :=
  s.liveTokens.map (·.2.value) ++
  s.properties.values.flatMap (fun p => [p.valueSyntax, p.initialValue].filter (·.isTrue)) ++
  s.fontFaces.values.flatMap (fun f => (Sheet.faceDeclarations f).map (·.value)) ++
  blockCells s.pages ++ blockCells s.counterStyles ++
  s.fontFeatureValues.values.flatMap (fun b =>
    (b.declarations.filter fun d => (Sheet.featureParts? d.name.shown).isSome).map (·.value)) ++
  blockCells s.fontPaletteValues ++ blockCells s.startingStyles ++
  s.keyframes.values.flatMap (fun a => a.frames.flatMap fun f => f.declarations.map (·.value))

/-- The values that a sheet takes over as they are: what is said of the inheritance of properties,
and the quoted families of font faces. -/
def verbatimCells (s : Cascade) : List Json :=
  (s.properties.values.map (·.inherits)).filter (·.isTrue) ++
  s.fontFaces.values.map fun f => .text ("\"" ++ f.family.shown ++ "\"")

end Cascade

namespace Sheet

variable {config : CompilerConfig} {v : Json}

/-- A value with its references replaced. -/
def substitutedCell (config : CompilerConfig) (v : Json) : Json :=
  .text (substituted config v)

theorem allDeclarations_leaf (header : Json) (ds : List SheetDeclaration) :
    (leaf header ds).allDeclarations = ds := by
  simp [leaf, SheetBlock.allDeclarations, SheetBlock.nested]

theorem values_declarationsOf (config : CompilerConfig) (ds : List StoredDeclaration) :
    (declarationsOf config ds).map (·.value) =
      (ds.map (·.value)).map (substitutedCell config) := by
  simp [declarationsOf, substitutedCell, Function.comp_def]

/-- One more item in the list of a key is one more item in some list. -/
theorem mem_flatMap_put {κ α : Type} [DecidableEq κ] [Keyed κ] (t : Table κ (List α)) (k : κ)
    (x y : α) : y ∈ (t.put k ((t.get? k).getD [] ++ [x])).entries.flatMap (·.2) ↔
      y ∈ t.entries.flatMap (·.2) ∨ y = x := by
  have hwrite : ∀ es : List (κ × List α),
      y ∈ (Table.write k ((Table.lookup k es).getD [] ++ [x]) es).flatMap (·.2) ↔
        y ∈ es.flatMap (·.2) ∨ y = x := by
    intro es
    induction es with
    | nil => simp [Table.write, Table.lookup]
    | cons e es ih =>
      by_cases he : Keyed.key e.1 = Keyed.key k
      · simp only [Table.write, Table.lookup, he, if_true, Option.getD_some, List.flatMap_cons,
          List.mem_append, List.mem_singleton]
        exact or_right_comm
      · simp only [Table.write, Table.lookup, he, if_false, List.flatMap_cons, List.mem_append, ih]
        exact or_assoc.symm
  exact hwrite t.entries

/-- The grouping keeps what it has and adds the declaration of every feature. -/
theorem mem_flatMap_grouped {x : SheetDeclaration} (ds : List StoredDeclaration)
    (t : Table String (List SheetDeclaration)) :
    x ∈ (ds.foldl (fun t d =>
      match featureParts? d.name.shown with
      | none => t
      | some (block, feature) =>
        t.put block ((t.get? block).getD [] ++
          [{ name := feature, value := .text (substituted config d.value) }])) t).entries.flatMap
            (·.2) ↔ x ∈ t.entries.flatMap (·.2) ∨ ∃ d ∈ ds, ∃ block feature,
      featureParts? d.name.shown = some (block, feature) ∧
        x = { name := feature, value := substitutedCell config d.value } := by
  induction ds generalizing t with
  | nil => simp
  | cons d ds ih =>
    rw [List.foldl_cons, ih]
    cases hparts : featureParts? d.name.shown with
    | none => simp [hparts]
    | some parts =>
      simp only [mem_flatMap_put, List.exists_mem_cons_iff, hparts, Option.some.injEq, or_assoc]
      refine or_congr Iff.rfl (or_congr ?_ Iff.rfl)
      constructor
      · rintro rfl
        exact ⟨parts.1, parts.2, rfl, rfl⟩
      · rintro ⟨block, feature, rfl, rfl⟩
        rfl

/-- The declarations of features, in whichever block they are put. -/
theorem mem_nested_featureBlocks {ds : List StoredDeclaration} {x : SheetDeclaration} :
    x ∈ SheetBlock.nested (featureBlocks config ds) ↔ ∃ d ∈ ds, ∃ block feature,
      featureParts? d.name.shown = some (block, feature) ∧
        x = { name := feature, value := substitutedCell config d.value } := by
  rw [SheetBlock.nested_eq, featureBlocks, List.flatMap_map]
  simp only [allDeclarations_leaf]
  exact (mem_flatMap_grouped ds {}).trans (by simp)

/-- The values of features, in whichever block they are put. -/
theorem mem_values_featureBlocks {ds : List StoredDeclaration} :
    v ∈ (SheetBlock.nested (featureBlocks config ds)).map (·.value) ↔
      v ∈ ((ds.filter fun d => (featureParts? d.name.shown).isSome).map (·.value)).map
        (substitutedCell config) := by
  simp only [List.mem_map, mem_nested_featureBlocks, List.mem_filter, Option.isSome_iff_exists]
  constructor
  · rintro ⟨_, ⟨d, hd, block, feature, hparts, rfl⟩, rfl⟩
    exact ⟨d.value, ⟨d, ⟨hd, (block, feature), hparts⟩, rfl⟩, rfl⟩
  · rintro ⟨_, ⟨d, ⟨hd, ⟨block, feature⟩, hparts⟩, rfl⟩, rfl⟩
    exact ⟨_, ⟨d, hd, block, feature, hparts, rfl⟩, rfl⟩

theorem values_propertyBlock (config : CompilerConfig) (name : Json) (p : PropertyEntry) :
    (propertyBlock config name p).allDeclarations.map (·.value) =
      ([p.valueSyntax].filter (·.isTrue)).map (substitutedCell config) ++
        [p.inherits].filter (·.isTrue) ++
        ([p.initialValue].filter (·.isTrue)).map (substitutedCell config) := by
  have hline : ∀ (key : String) (v : Json) (resolve : Json → Json),
      (if v.isTrue then [({ name := key, value := resolve v } : SheetDeclaration)] else []).map
        (·.value) = ([v].filter (·.isTrue)).map resolve := by
    intro key v resolve
    cases hv : v.isTrue <;> simp [hv]
  simp only [propertyBlock, allDeclarations_leaf, List.map_append]
  refine congrArg₂ (· ++ ·) (congrArg₂ (· ++ ·) ?_ ?_) ?_
  · exact hline "syntax" p.valueSyntax (substitutedCell config)
  · exact (hline "inherits" p.inherits fun v => v).trans (List.map_id' _)
  · exact hline "initial-value" p.initialValue (substitutedCell config)

theorem values_fontFaceBlock (config : CompilerConfig) (f : FontFace) :
    (fontFaceBlock config f).allDeclarations.map (·.value) =
      .text ("\"" ++ f.family.shown ++ "\"") ::
        ((faceDeclarations f).map (·.value)).map (substitutedCell config) := by
  rw [fontFaceBlock, allDeclarations_leaf, List.map_cons, values_declarationsOf]

theorem values_blocks (config : CompilerConfig) (t : Table Json RuleBlock) (header : Json → Json) :
    (SheetBlock.nested (t.entries.map fun e =>
      leaf (header e.1) (declarationsOf config e.2.declarations))).map (·.value) =
      (Cascade.blockCells t).map (substitutedCell config) := by
  simp only [SheetBlock.nested_eq, List.flatMap_map, allDeclarations_leaf, List.map_flatMap,
    values_declarationsOf, Cascade.blockCells, Table.values]

theorem values_animationBlock (config : CompilerConfig) (name : Json) (a : Animation) :
    (animationBlock config name a).allDeclarations.map (·.value) =
      (a.frames.flatMap fun f => f.declarations.map (·.value)).map (substitutedCell config) := by
  simp only [animationBlock, SheetBlock.allDeclarations, List.nil_append, SheetBlock.nested_eq,
    List.flatMap_map, allDeclarations_leaf, List.map_flatMap, values_declarationsOf]

theorem mem_values_properties (s : Cascade) (config : CompilerConfig) :
    v ∈ (SheetBlock.nested (s.properties.entries.map fun e => propertyBlock config e.1 e.2)).map
        (·.value) ↔
      v ∈ (s.properties.values.flatMap fun p =>
        [p.valueSyntax, p.initialValue].filter (·.isTrue)).map (substitutedCell config) ∨
      v ∈ (s.properties.values.map (·.inherits)).filter (·.isTrue) := by
  have hone : ∀ (name : Json) (p : PropertyEntry),
      v ∈ (propertyBlock config name p).allDeclarations.map (·.value) ↔
        v ∈ ([p.valueSyntax, p.initialValue].filter (·.isTrue)).map (substitutedCell config) ∨
          v = p.inherits ∧ v.isTrue = true := by
    intro name p
    have hsplit : [p.valueSyntax, p.initialValue].filter (·.isTrue) =
        [p.valueSyntax].filter (·.isTrue) ++ [p.initialValue].filter (·.isTrue) :=
      List.filter_append [p.valueSyntax] [p.initialValue]
    rw [values_propertyBlock, hsplit, List.map_append]
    simp only [List.mem_append, List.mem_filter, List.mem_singleton, or_right_comm]
  rw [SheetBlock.nested_eq, List.flatMap_map, List.map_flatMap, List.map_flatMap]
  simp only [List.mem_flatMap, hone]
  constructor
  · rintro ⟨e, he, h | ⟨rfl, htrue⟩⟩
    · exact .inl ⟨e.2, List.mem_map_of_mem he, h⟩
    · exact .inr (List.mem_filter.2
        ⟨List.mem_map_of_mem (f := PropertyEntry.inherits) (List.mem_map_of_mem he), htrue⟩)
  · rintro (⟨p, hp, h⟩ | h)
    · obtain ⟨e, he, rfl⟩ := List.mem_map.1 hp
      exact ⟨e, he, .inl h⟩
    · obtain ⟨hmem, htrue⟩ := List.mem_filter.1 h
      obtain ⟨p, hp, rfl⟩ := List.mem_map.1 hmem
      obtain ⟨e, he, rfl⟩ := List.mem_map.1 hp
      exact ⟨e, he, .inr ⟨rfl, htrue⟩⟩

theorem mem_values_fontFaces (s : Cascade) (config : CompilerConfig) :
    v ∈ (SheetBlock.nested (s.fontFaces.values.map (fontFaceBlock config))).map (·.value) ↔
      v ∈ (s.fontFaces.values.flatMap fun f => (faceDeclarations f).map (·.value)).map
        (substitutedCell config) ∨
      v ∈ s.fontFaces.values.map fun f => .text ("\"" ++ f.family.shown ++ "\"") := by
  rw [SheetBlock.nested_eq, List.flatMap_map, List.map_flatMap, List.map_flatMap]
  simp only [values_fontFaceBlock, List.mem_flatMap, List.mem_cons, List.mem_map (b := v)]
  constructor
  · rintro ⟨f, hf, rfl | h⟩
    · exact .inr ⟨f, hf, rfl⟩
    · exact .inl ⟨f, hf, h⟩
  · rintro (⟨f, hf, h⟩ | ⟨f, hf, rfl⟩)
    · exact ⟨f, hf, .inr h⟩
    · exact ⟨f, hf, .inl rfl⟩

theorem mem_values_fontFeatureValues (s : Cascade) (config : CompilerConfig) :
    v ∈ (SheetBlock.nested (s.fontFeatureValues.entries.map fun e =>
        .block (.text ("@font-feature-values \"" ++ e.1.shown ++ "\"")) []
          (featureBlocks config e.2.declarations))).map (·.value) ↔
      v ∈ (s.fontFeatureValues.values.flatMap fun b =>
        (b.declarations.filter fun d => (featureParts? d.name.shown).isSome).map (·.value)).map
          (substitutedCell config) := by
  rw [SheetBlock.nested_eq, List.flatMap_map, List.map_flatMap, List.map_flatMap, Table.values,
    List.flatMap_map]
  simp only [List.mem_flatMap, SheetBlock.allDeclarations, List.nil_append,
    mem_values_featureBlocks]

theorem mem_values_startingStyles (s : Cascade) (config : CompilerConfig) :
    v ∈ (SheetBlock.nested (if s.startingStyles.isEmpty then []
        else [.block (.text "@starting-style") [] (s.startingStyles.entries.map fun e =>
          leaf (s.selectorCell e.1) (declarationsOf config e.2.declarations))])).map (·.value) ↔
      v ∈ (Cascade.blockCells s.startingStyles).map (substitutedCell config) := by
  rw [← values_blocks config s.startingStyles s.selectorCell]
  split
  · next hempty =>
    have hnil : s.startingStyles.entries = [] := by simpa [Table.isEmpty] using hempty
    rw [hnil]
    rfl
  · rw [SheetBlock.nested, SheetBlock.nested, SheetBlock.allDeclarations, List.nil_append,
      List.append_nil]

/-- The declarations outside the rules have the values outside the buckets. -/
theorem mem_values_iff (s : Cascade) (config : CompilerConfig) :
    (v ∈ (ofCascade s config).root.map (·.value) ∨
        v ∈ (SheetBlock.nested (ofCascade s config).preamble).map (·.value) ∨
        v ∈ (SheetBlock.nested (ofCascade s config).keyframes).map (·.value)) ↔
      v ∈ s.substitutedCells.map (substitutedCell config) ∨ v ∈ s.verbatimCells := by
  have hroot : (ofCascade s config).root.map (·.value) =
      (s.liveTokens.map (·.2.value)).map (substitutedCell config) := by
    simp [ofCascade, substitutedCell, Function.comp_def]
  have hkeyframes : (SheetBlock.nested (ofCascade s config).keyframes).map (·.value) =
      (s.keyframes.values.flatMap fun a => a.frames.flatMap fun f =>
        f.declarations.map (·.value)).map (substitutedCell config) := by
    simp only [ofCascade, SheetBlock.nested_eq, List.flatMap_map, List.map_flatMap (g := _),
      values_animationBlock, Table.values]
  have hnested : ∀ bs cs : List SheetBlock,
      SheetBlock.nested (bs ++ cs) = SheetBlock.nested bs ++ SheetBlock.nested cs := by
    intro bs cs
    simp only [SheetBlock.nested_eq, List.flatMap_append]
  have hpreamble : (ofCascade s config).preamble = preambleOf s config := rfl
  rw [hroot, hkeyframes, hpreamble]
  simp only [preambleOf, hnested, Cascade.substitutedCells, Cascade.verbatimCells, List.map_append,
    List.mem_append]
  rw [mem_values_properties, mem_values_fontFaces, mem_values_fontFeatureValues,
    mem_values_startingStyles, values_blocks config s.pages fun key => .text (pageHeader key),
    values_blocks config s.counterStyles fun key => .text ("@counter-style " ++ key.shown),
    values_blocks config s.fontPaletteValues fun key =>
      .text ("@font-palette-values " ++ key.shown)]
  tauto

/-- The values of buckets are expanded. -/
theorem not_holdsMacro_rules (s : Cascade) (config : CompilerConfig) :
    ∀ r ∈ (ofCascade s config).rules, ∀ d ∈ r.declarations, ¬HoldsMacro d.value.shown := by
  intro r hr d hd
  obtain ⟨e, -, rfl⟩ := List.mem_map.1 hr
  obtain ⟨p, -, rfl⟩ := List.mem_map.1 hd
  exact not_holdsMacro_expandSpacing _ _

/-- A sheet has a macro exactly where a value outside the buckets has one once its references are
replaced, or is taken over with one. -/
theorem holdsMacro_iff (s : Cascade) (config : CompilerConfig) :
    (∃ d ∈ (ofCascade s config).declarations, HoldsMacro d.value.shown) ↔
      (∃ v ∈ s.substitutedCells, HoldsMacro (substituted config v)) ∨
        ∃ v ∈ s.verbatimCells, HoldsMacro v.shown := by
  have houtside : (∃ d ∈ (ofCascade s config).declarations, HoldsMacro d.value.shown) ↔
      ∃ v, (v ∈ (ofCascade s config).root.map (·.value) ∨
        v ∈ (SheetBlock.nested (ofCascade s config).preamble).map (·.value) ∨
        v ∈ (SheetBlock.nested (ofCascade s config).keyframes).map (·.value)) ∧
          HoldsMacro v.shown := by
    constructor
    · rintro ⟨d, hd, hmacro⟩
      refine ⟨d.value, ?_, hmacro⟩
      simp only [declarations, List.mem_append] at hd
      rcases hd with ((hd | hd) | hd) | hd
      · exact .inl (List.mem_map_of_mem hd)
      · exact .inr (.inl (List.mem_map_of_mem hd))
      · obtain ⟨r, hr, hd⟩ := List.mem_flatMap.1 hd
        exact absurd hmacro (not_holdsMacro_rules s config r hr d hd)
      · exact .inr (.inr (List.mem_map_of_mem hd))
    · rintro ⟨v, hv, hmacro⟩
      simp only [declarations, List.mem_append]
      rcases hv with hv | hv | hv
      · obtain ⟨d, hd, rfl⟩ := List.mem_map.1 hv
        exact ⟨d, .inl (.inl (.inl hd)), hmacro⟩
      · obtain ⟨d, hd, rfl⟩ := List.mem_map.1 hv
        exact ⟨d, .inl (.inl (.inr hd)), hmacro⟩
      · obtain ⟨d, hd, rfl⟩ := List.mem_map.1 hv
        exact ⟨d, .inr hd, hmacro⟩
  rw [houtside]
  simp only [mem_values_iff, or_and_right, exists_or]
  refine or_congr ?_ Iff.rfl
  constructor
  · rintro ⟨_, hv, hmacro⟩
    obtain ⟨w, hw, rfl⟩ := List.mem_map.1 hv
    exact ⟨w, hw, hmacro⟩
  · rintro ⟨w, hw, hmacro⟩
    exact ⟨_, List.mem_map_of_mem hw, hmacro⟩

end Sheet

/-! ## 3. Reachable cascades -/

namespace Cascade.IsReachable

variable {migrations : List String} {ctx : Context} {s : Cascade}

/-- The sheet of whatever statements and reloads have led to has no macro in its rules, under any
mode. Elsewhere it has one exactly when a value that was written there has one once its references
are replaced; if no such value has one as it was written, and the prefix of the custom properties
has none, then the sheet has none at all. -/
theorem macros_outside_rules (h : IsReachable migrations ctx s) (config : CompilerConfig) :
    ∃ sheet, Sheet.plan s config = .ok sheet ∧
      (∀ r ∈ sheet.rules, ∀ d ∈ r.declarations, ¬HoldsMacro d.value.shown) ∧
      ((∃ d ∈ sheet.declarations, HoldsMacro d.value.shown) ↔
        (∃ v ∈ s.substitutedCells, HoldsMacro (Sheet.substituted config v)) ∨
          ∃ v ∈ s.verbatimCells, HoldsMacro v.shown) ∧
      (¬HoldsMacro config.tokenPrefix →
        (∀ v ∈ s.substitutedCells ++ s.verbatimCells, ¬HoldsMacro v.shown) →
          ∀ d ∈ sheet.declarations, ¬HoldsMacro d.value.shown) := by
  refine ⟨_, h.plan_eq config, Sheet.not_holdsMacro_rules s config, Sheet.holdsMacro_iff s config,
    fun hbegins hfree d hd hmacro => ?_⟩
  rcases (Sheet.holdsMacro_iff s config).1 ⟨d, hd, hmacro⟩ with ⟨v, hv, hmacro⟩ | ⟨v, hv, hmacro⟩
  · exact not_holdsMacro_substituteTokens hbegins (hfree v (List.mem_append_left _ hv)) hmacro
  · exact hfree v (List.mem_append_right _ hv) hmacro

/-- A style and a page, of which only the style has a macro. -/
theorem macros_outside_rules_card : ∃ stmts sheet,
    Source.parse "CREATE STYLE SELECTOR card (margin = Butter( )); CREATE PAGE (margin = 1px);"
      false = .ok stmts ∧
    Sheet.plan (Cascade.run {} {} stmts).state {} = .ok sheet ∧
    sheet.declarations.map (·.value) = [.text "1px", .text "8px"] ∧
    ∀ d ∈ sheet.declarations, ¬HoldsMacro d.value.shown := by
  obtain ⟨stmts, hparse, hfacts⟩ := exists_ok_of_any (x := Source.parse
      "CREATE STYLE SELECTOR card (margin = Butter( )); CREATE PAGE (margin = 1px);" false)
    (p := fun stmts =>
      let s := (Cascade.run {} {} stmts).state
      decide ((∀ v ∈ s.substitutedCells ++ s.verbatimCells, ¬HoldsMacro v.shown) ∧
        (Sheet.ofCascade s {}).declarations.map (·.value) = [.text "1px", .text "8px"]))
    (by
      rw [Source.parse_ofList]
      decide +kernel)
  obtain ⟨hfree, hvalues⟩ := of_decide_eq_true hfacts
  obtain ⟨sheet, hplan, -, -, hnone⟩ := macros_outside_rules (of_parse hparse) {}
  obtain rfl : Sheet.ofCascade _ {} = sheet :=
    Except.ok.inj (((of_parse hparse).plan_eq {}).symm.trans hplan)
  exact ⟨stmts, _, hparse, hplan, hvalues, hnone (by decide) hfree⟩

/-- The macro in a page is left. -/
theorem not_free_of_macros : ¬∀ {migrations : List String} {ctx : Context} {s : Cascade},
    IsReachable migrations ctx s → ∀ (config : CompilerConfig) (sheet : Sheet),
      Sheet.plan s config = .ok sheet → ∀ d ∈ sheet.declarations, ¬HoldsMacro d.value.shown := by
  intro hfree
  obtain ⟨stmts, hparse, hfacts⟩ := exists_ok_of_any
    (x := Source.parse "CREATE PAGE (margin = BUTTER());" false)
    (p := fun stmts =>
      (Sheet.ofCascade (Cascade.run {} {} stmts).state {}).declarations.any fun d =>
        decide (HoldsMacro d.value.shown))
    (by
      rw [Source.parse_ofList]
      decide +kernel)
  obtain ⟨d, hd, hmacro⟩ := List.any_eq_true.1 hfacts
  have hreach := of_parse hparse
  exact hfree hreach {} _ (hreach.plan_eq {}) d hd (of_decide_eq_true hmacro)

end Cascade.IsReachable

end StyleLedger
