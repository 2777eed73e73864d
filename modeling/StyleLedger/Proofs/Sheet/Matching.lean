import StyleLedger.Compile
import StyleLedger.Proofs.Cascade.Matching

/-!
Matching cascades have the same style sheet.

Where and when an entry was written does not show in a sheet, and neither does the clock. The one
thing that a sheet takes over and does not write is the file that a declaration comes from; without
it the sheets of matching cascades are the same (`bare_ofCascade`), and so are their texts
(`Cascade.Matches.render_eq`).

* `Sheet.bare` — a sheet without the files of its declarations; it has the same text.
-/

namespace StyleLedger

/-! ## 1. Lists that agree in a part of their elements -/

section Lists

variable {α β γ : Type} {f : α → β} {xs ys : List α}

/-- What depends on a part only agrees where the part does. -/
theorem map_eq_of_map_eq {g : α → γ} (h : xs.map f = ys.map f)
    (hg : ∀ x y, f x = f y → g x = g y) : xs.map g = ys.map g := by
  induction xs generalizing ys with
  | nil =>
    obtain rfl : ys = [] := by simpa using h
    rfl
  | cons x xs ih =>
    cases ys with
    | nil => simp at h
    | cons y ys =>
      obtain ⟨hxy, h⟩ := List.cons_eq_cons.1 h
      rw [List.map_cons, List.map_cons, hg x y hxy, ih h]

theorem map_filter_eq_of_map_eq {p : α → Bool} (h : xs.map f = ys.map f)
    (hp : ∀ x y, f x = f y → p x = p y) : (xs.filter p).map f = (ys.filter p).map f := by
  induction xs generalizing ys with
  | nil =>
    obtain rfl : ys = [] := by simpa using h
    rfl
  | cons x xs ih =>
    cases ys with
    | nil => simp at h
    | cons y ys =>
      obtain ⟨hxy, h⟩ := List.cons_eq_cons.1 h
      rw [List.filter_cons, List.filter_cons, hp x y hxy]
      split
      · rw [List.map_cons, List.map_cons, hxy, ih h]
      · exact ih h

end Lists

/-- What depends on keys and on a part of the values agrees for tables that agree in that part. -/
theorem Table.Same.map_entries {κ α β γ : Type} {f : α → β} {t u : Table κ α} (h : Same f t u)
    {g : κ × α → γ} (hg : ∀ k v w, f v = f w → g (k, v) = g (k, w)) :
    t.entries.map g = u.entries.map g := by
  refine map_eq_of_map_eq (congrArg Table.entries h) ?_
  rintro ⟨k, v⟩ ⟨l, w⟩ heq
  obtain ⟨rfl, hvw⟩ := Prod.mk.inj heq
  exact hg k v w hvw

/-! ## 2. Sheets without the files of their declarations -/

def SheetDeclaration.bare (d : SheetDeclaration) : SheetDeclaration :=
  { d with originFile := .null }

def SheetRule.bare (r : SheetRule) : SheetRule :=
  { r with declarations := r.declarations.map SheetDeclaration.bare }

namespace Sheet

/-- A sheet without the files of its declarations. -/
def bare (sheet : Sheet) : Sheet :=
  { sheet with rules := sheet.rules.map SheetRule.bare }

theorem ruleLines_bare (gap : List String) (indent : String) (r : SheetRule) :
    ruleLines gap indent r.bare = ruleLines gap indent r := by
  have hlines : ∀ indent, r.bare.declarations.map (declarationLine indent) =
      r.declarations.map (declarationLine indent) := fun indent => by
    rw [SheetRule.bare, List.map_map]
    rfl
  simp only [ruleLines, hlines]
  rfl

/-- Groups are made alike from elements that have the same key. -/
theorem groups_map {κ α : Type} [DecidableEq κ] [Keyed κ] (key : α → κ) (g : α → α)
    (hkey : ∀ x, key (g x) = key x) (xs : List α) :
    Table.groups key (xs.map g) = (Table.groups key xs).map fun e => (e.1, e.2.map g) := by
  have hfold : ∀ (xs : List α) (t : Table κ (List α)),
      (xs.map g).foldl (fun t x => t.put (key x) ((t.get? (key x)).getD [] ++ [x]))
          (t.map (List.map g)) =
        (xs.foldl (fun t x => t.put (key x) ((t.get? (key x)).getD [] ++ [x])) t).map
          (List.map g) := by
    intro xs
    induction xs with
    | nil => exact fun t => rfl
    | cons x xs ih =>
      intro t
      rw [List.map_cons, List.foldl_cons, List.foldl_cons, ← ih, Table.map_put, hkey,
        Table.get?_map]
      cases t.get? (key x) <;> simp
  exact congrArg Table.entries (hfold xs {})

theorem rulesLines_bare (rules : List SheetRule) :
    rulesLines (rules.map SheetRule.bare) = rulesLines rules := by
  have hscope : ∀ (scope : Json × Json) (group : List SheetRule),
      scopeLines scope (group.map SheetRule.bare) = scopeLines scope group := by
    intro scope group
    unfold scopeLines
    split
    · simp only [List.flatMap_map, ruleLines_bare]
    · simp only [List.flatMap_map, ruleLines_bare]
  have hgroups : scopeGroups (rules.map SheetRule.bare) =
      (scopeGroups rules).map fun e => (e.1, e.2.map SheetRule.bare) :=
    groups_map _ SheetRule.bare (fun _ => rfl) rules
  simp only [rulesLines, hgroups, List.flatMap_map, hscope]

theorem rulesIn_bare (sheet : Sheet) (layer : Json) :
    sheet.bare.rulesIn layer = (sheet.rulesIn layer).map SheetRule.bare := by
  simp only [rulesIn, bare, List.filter_map]
  rfl

/-- The files of declarations do not show in any line. -/
theorem lines_bare (sheet : Sheet) : sheet.bare.lines = sheet.lines := by
  have hlayer : ∀ layer, sheet.bare.layerLines layer = sheet.layerLines layer := by
    intro layer
    simp only [layerLines, rulesIn_bare]
    cases hrules : sheet.rulesIn layer with
    | nil => rfl
    | cons r rs =>
      simp only [List.map_cons]
      rw [← List.map_cons, rulesLines_bare]
  have hlayers : sheet.bare.layerOrder.flatMap sheet.bare.layerLines =
      sheet.layerOrder.flatMap sheet.layerLines :=
    List.flatMap_congr fun layer _ => hlayer layer
  simp only [lines, rulesIn_bare, rulesLines_bare, hlayers]
  rfl

/-! ## 3. Sheets of matching cascades -/

theorem blocks_eq {t u : Table Json RuleBlock} (hsame : t.Same RuleBlock.bare u)
    (g : Json → List StoredDeclaration → SheetBlock) :
    (t.entries.map fun e => g e.1 e.2.declarations) =
      u.entries.map fun e => g e.1 e.2.declarations :=
  hsame.map_entries fun k v w hvw => by
    have hds : v.declarations = w.declarations := (RuleBlock.mk.inj hvw).1
    rw [hds]

variable {a b : Cascade} (h : a.Matches b) (config : CompilerConfig)

include h

theorem definitions_eq : a.definitions = b.definitions := by
  have hdefinitions : ∀ s : Cascade, s.definitions =
      ⟨(s.selectors.entries.map fun e => e.2.definition.map (e.1, ·)).filterMap id⟩ := fun s => by
    rw [Cascade.definitions, List.filterMap_map]
    rfl
  rw [hdefinitions, hdefinitions, h.selectors.map_entries fun k v w hvw => by
    rw [(SelectorEntry.bare_eq_iff.1 hvw).1]]

theorem selectorCell_eq (name : Json) : a.selectorCell name = b.selectorCell name := by
  rw [Cascade.selectorCell, Cascade.selectorCell, definitions_eq h]

theorem layerOrderOf_eq : layerOrderOf a config = layerOrderOf b config := by
  obtain ⟨t, ht⟩ := h.buckets
  simp only [layerOrderOf, h.layers.declared, ht.left, ht.right, Table.keys_map]

theorem bare_ruleOf {k : BucketKey} {c d : Bucket}
    (hsame : c.properties.Same StyleProperty.bare d.properties) :
    (ruleOf a config k c).bare = (ruleOf b config k d).bare := by
  have hdeclarations : (ruleOf a config k c).bare.declarations =
      (ruleOf b config k d).bare.declarations := by
    simp only [ruleOf, SheetRule.bare, List.map_map]
    refine hsame.map_entries fun name p q hpq => ?_
    simp only [StyleProperty.bare, StyleProperty.mk.injEq] at hpq
    simp [SheetDeclaration.bare, hpq]
  have hcell := selectorCell_eq h
  simp only [ruleOf, SheetRule.bare, SheetRule.mk.injEq, scopeCell, hcell, true_and,
    and_true] at hdeclarations ⊢
  exact hdeclarations

theorem bare_rulesOf : (rulesOf a config).map SheetRule.bare =
    (rulesOf b config).map SheetRule.bare := by
  obtain ⟨t, ht⟩ := h.buckets
  have hrules : ∀ (s : Cascade) (f : Bucket × Bucket → Bucket), s.buckets.buckets = t.map f →
      (rulesOf s config).map SheetRule.bare = (t.entries.filter fun e =>
        !(f e.2).properties.isEmpty).map fun e => (ruleOf s config e.1 (f e.2)).bare := by
    intro s f hs
    simp only [rulesOf, fullBuckets, hs, Table.map, List.filter_map, List.map_map]
    rfl
  have hempty : ∀ e ∈ t.entries, (!e.2.1.properties.isEmpty) = !e.2.2.properties.isEmpty :=
    fun e he => by rw [(ht.same e he).isEmpty]
  rw [hrules a Prod.fst ht.left, hrules b Prod.snd ht.right, List.filter_congr hempty]
  exact List.map_congr_left fun e he =>
    bare_ruleOf h config (ht.same e (List.mem_of_mem_filter he))

theorem preambleOf_eq : preambleOf a config = preambleOf b config := by
  have hproperties : (a.properties.entries.map fun e => propertyBlock config e.1 e.2) =
      b.properties.entries.map fun e => propertyBlock config e.1 e.2 :=
    h.properties.map_entries fun k v w hvw => by
      simp only [PropertyEntry.bare, PropertyEntry.mk.injEq] at hvw
      simp [propertyBlock, hvw]
  have hfaces : a.fontFaces.values.map (fontFaceBlock config) =
      b.fontFaces.values.map (fontFaceBlock config) :=
    map_eq_of_map_eq h.fontFaces.values fun v w hvw => by
      simp only [FontFace.bare, FontFace.mk.injEq] at hvw
      simp [fontFaceBlock, faceDeclarations, hvw]
  simp only [preambleOf, hproperties, hfaces, h.startingStyles.isEmpty, selectorCell_eq h]
  rw [blocks_eq h.pages fun key ds => leaf (.text (pageHeader key)) (declarationsOf config ds),
    blocks_eq h.counterStyles fun key ds =>
      leaf (.text ("@counter-style " ++ key.shown)) (declarationsOf config ds),
    blocks_eq h.fontFeatureValues fun family ds =>
      .block (.text ("@font-feature-values \"" ++ family.shown ++ "\"")) []
        (featureBlocks config ds),
    blocks_eq h.fontPaletteValues fun key ds =>
      leaf (.text ("@font-palette-values " ++ key.shown)) (declarationsOf config ds),
    blocks_eq h.startingStyles fun key ds => leaf (b.selectorCell key) (declarationsOf config ds)]

/-- Without the files of their declarations the sheets of matching cascades are the same. -/
theorem bare_ofCascade : (ofCascade a config).bare = (ofCascade b config).bare := by
  have himports : (a.imports.filter (·.kind = .css)).map (fun i => SheetImport.mk i.path i.media) =
      (b.imports.filter (·.kind = .css)).map fun i => SheetImport.mk i.path i.media := by
    refine map_eq_of_map_eq (f := ImportEntry.bare) (map_filter_eq_of_map_eq h.imports ?_) ?_
    · intro i j hij
      simp only [ImportEntry.bare, ImportEntry.mk.injEq] at hij
      simp [hij]
    · intro i j hij
      simp only [ImportEntry.bare, ImportEntry.mk.injEq] at hij
      simp [hij]
  have hroot : (ofCascade a config).root = (ofCascade b config).root := by
    have htokens : a.tokens.entries.map (fun e => (e.1, e.2.bare)) =
        b.tokens.entries.map fun e => (e.1, e.2.bare) := congrArg Table.entries h.tokens
    refine map_eq_of_map_eq (map_filter_eq_of_map_eq htokens ?_) ?_
    · intro e d hed
      rw [(TokenEntry.bare_eq_iff.1 (Prod.mk.inj hed).2).2]
    · rintro ⟨name, t⟩ ⟨name', t'⟩ hed
      obtain rfl : name = name' := (Prod.mk.inj hed).1
      have hvalue : t.value = t'.value := (TokenEntry.bare_eq_iff.1 (Prod.mk.inj hed).2).1
      simp only [hvalue]
  have hkeyframes : (a.keyframes.entries.map fun e => animationBlock config e.1 e.2) =
      b.keyframes.entries.map fun e => animationBlock config e.1 e.2 :=
    h.keyframes.map_entries fun k v w hvw => by
      have hframes : v.frames = w.frames := (Animation.mk.inj hvw).1
      simp [animationBlock, hframes]
  have hraw : a.raw.map (·.css) = b.raw.map (·.css) :=
    map_eq_of_map_eq h.raw fun r r' hr => (RawEntry.mk.inj hr).1
  simp only [bare, ofCascade, Sheet.mk.injEq]
  exact ⟨himports, hroot, preambleOf_eq h config, bare_rulesOf h config, layerOrderOf_eq h config,
    hkeyframes, by rw [hraw]⟩

end Sheet

theorem Cascade.Matches.lines_eq {a b : Cascade} (h : a.Matches b) (config : CompilerConfig) :
    (Sheet.ofCascade a config).lines = (Sheet.ofCascade b config).lines := by
  rw [← Sheet.lines_bare, Sheet.bare_ofCascade h config, Sheet.lines_bare]

/-- Matching cascades have the same style sheet. -/
theorem Cascade.Matches.render_eq {a b : Cascade} (h : a.Matches b) (config : CompilerConfig) :
    (Sheet.ofCascade a config).render = (Sheet.ofCascade b config).render := by
  rw [Sheet.render, Sheet.render, h.lines_eq config]

end StyleLedger
