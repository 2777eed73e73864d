import StyleLedger.Compile
import StyleLedger.Proofs.Cascade.Settled
import StyleLedger.Proofs.Cascade.Typed

/-!
Every cascade that plain statements have written has a style sheet.

Making a sheet can fail where a cell that has to be a text is something else. A cascade that is
legible and typed has no such cell: its names and values are texts, its definitions are made of
texts and so stand for texts, however they refer to one another (`isText_resolveCellWithin`), and
its wrappers can be written. It does not matter where the cascade comes from.

* `Cascade.IsLegible` — what is read for a sheet is made of texts; settled cascades are legible.
* `Cascade.compile_of_isLegible` — the sheet of a legible and typed cascade is made.
-/

namespace StyleLedger

open Outcome

/-! ## 1. Checks -/

theorem ShapeError.require_of_true {condition : Bool} (h : condition = true) (e : ShapeError) :
    ShapeError.require condition e = .ok () := by
  rw [require, if_pos h]

theorem Json.IsString.isText {v : Json} (h : v.IsString) : v.isText = true := by
  obtain ⟨s, rfl⟩ := h
  rfl

theorem Json.IsWord.isText_of_isTrue {v : Json} (h : v.IsWord) (htrue : v.isTrue = true) :
    v.isText = true := by
  rcases h with rfl | hs
  · simp [Json.isTrue] at htrue
  · exact Json.IsString.isText hs

/-! ## 2. Definitions -/

namespace Selector

section Rendering

variable {reference : Json → Bool × Bool}
  (href : ∀ name : Json, name.IsString → reference name = (true, true))

include href

mutual

theorem renders_of_isPlain : ∀ {s : Selector}, s.IsPlain → s.renders reference = true
  | .element _, _ | .cls _, _ | .id _, _ | .pseudo _, _ | .pseudoElement _, _
  | .attr _ _ _ _, _ => by simp [renders]
  | .reference name, h => by
    simp only [IsPlain] at h
    simp [renders, href name h]
  | .and parts, h | .or parts, h => by
    simp only [IsPlain] at h
    simp [renders, partsRender_of_arePlain h]
  | .child l r, h | .descendant l r, h | .join _ l r, h => by
    simp only [IsPlain] at h
    simp [renders, renders_of_isPlain h.1, renders_of_isPlain h.2]

theorem partsRender_of_arePlain : ∀ {ss : List Selector}, ArePlain ss →
    partsRender reference ss = true
  | [], _ => by simp [partsRender]
  | s :: ss, h => by
    simp only [ArePlain] at h
    have hs := renders_of_isPlain h.1
    have hss := partsRender_of_arePlain h.2
    cases s with
    | element v =>
      simp only [IsPlain] at h
      simp [partsRender, hs, hss, Json.IsString.isText h.1]
    | reference name =>
      simp only [IsPlain] at h
      simp [partsRender, hs, hss, href name h.1]
    | _ => simp [partsRender, hs, hss]

end

end Rendering

variable {definitions : Table Json Selector} {s : Selector}

/-- What a plain definition stands for is a text, since every definition it refers to is plain. -/
theorem isText_resolveCellWithin (depth : Nat) (hdefs : definitions.All fun _ d => d.IsPlain)
    (hs : s.IsPlain) : (resolveCellWithin depth definitions s).isText = true := by
  induction depth generalizing definitions s with
  | zero =>
    cases s with
    | element v =>
      simp only [IsPlain] at hs
      simpa [resolveCellWithin] using hs.isText
    | _ => rfl
  | succ depth ih =>
    cases s with
    | element v =>
      simp only [IsPlain] at hs
      simpa [resolveCellWithin] using hs.isText
    | reference name =>
      simp only [resolveCellWithin]
      split
      · rfl
      · next target htarget =>
        obtain ⟨l, -, hl⟩ := Table.lookup_mem htarget
        exact ih (hdefs.erase name) (hdefs _ hl)
    | _ => rfl

theorem isResolvableWithin_of_isPlain (depth : Nat) (hdefs : definitions.All fun _ d => d.IsPlain)
    (hs : s.IsPlain) : isResolvableWithin depth definitions s = true := by
  induction depth generalizing definitions s with
  | zero => exact renders_of_isPlain (fun name hname => by simp [hname.isWord.isScalar]) hs
  | succ depth ih =>
    refine renders_of_isPlain (fun name hname => ?_) hs
    split
    · simp [hname.isWord.isScalar]
    · next target htarget =>
      obtain ⟨l, -, hl⟩ := Table.lookup_mem htarget
      have hrest := hdefs.erase name
      simp [hname.isWord.isScalar, ih hrest (hdefs _ hl),
        isText_resolveCellWithin depth hrest (hdefs _ hl)]

end Selector

/-- What the columns of a store do not say of a cascade, and a sheet needs: definitions and
declarations are made of texts, and buckets and starting styles name selectors by texts. -/
structure Cascade.IsLegible (s : Cascade) : Prop where
  definitions : s.selectors.All fun _ e => ∀ d ∈ e.definition, d.IsPlain
  keys : ∀ k ∈ s.buckets.buckets.keys, k.IsWordy
  fontFaces : s.fontFaces.All fun _ f => ∀ d ∈ f.declarations, d.IsPlain
  keyframes : s.keyframes.All fun _ a => ∀ f ∈ a.frames, ∀ d ∈ f.declarations, d.IsPlain
  pages : s.pages.All fun _ b => b.IsPlain
  counterStyles : s.counterStyles.All fun _ b => b.IsPlain
  fontFeatureValues : s.fontFeatureValues.All fun _ b => b.IsPlain
  fontPaletteValues : s.fontPaletteValues.All fun _ b => b.IsPlain
  startingStyles : s.startingStyles.HasTextKeys RuleBlock.IsPlain

theorem Cascade.IsSettled.isLegible {s : Cascade} (h : s.IsSettled) : s.IsLegible where
  definitions e he := (h.rest.selectors.all e he).2
  keys := h.keys
  fontFaces e he := (h.rest.fontFaces.2 e he).2
  keyframes e he f hf := ((h.rest.keyframes.all e he).2 f hf).2
  pages e he := (h.rest.pages.all e he).2
  counterStyles e he := (h.rest.counterStyles.all e he).2
  fontFeatureValues e he := (h.rest.fontFeatureValues.all e he).2
  fontPaletteValues e he := (h.rest.fontPaletteValues.all e he).2
  startingStyles := h.rest.startingStyles.all

namespace Cascade.IsLegible

variable {s : Cascade}

theorem definitions_isPlain (h : s.IsLegible) : s.definitions.All fun _ d => d.IsPlain := by
  intro e he
  obtain ⟨entry, hentry, hdefinition⟩ := List.mem_filterMap.1 he
  obtain ⟨d, hd, rfl⟩ := Option.map_eq_some_iff.1 hdefinition
  exact h.definitions entry hentry d hd

theorem isText_selectorCell (h : s.IsLegible) {name : Json} (hname : name.IsString) :
    (s.selectorCell name).isText = true :=
  Selector.isText_resolveCellWithin _ h.definitions_isPlain
    (by simpa [Selector.IsPlain] using hname)

theorem isString_selectorCell (h : s.IsLegible) {name : Json} (hname : name.IsString) :
    (s.selectorCell name).IsString := by
  have htext := h.isText_selectorCell hname
  cases hcell : s.selectorCell name with
  | text t => exact ⟨t, rfl⟩
  | _ => simp [hcell, Json.isText] at htext

/-- What a scope stands for is a text, or null if there is no scope. -/
theorem isWord_scopeCell (h : s.IsLegible) {name : Json} (hname : name.IsWord) :
    (Sheet.scopeCell s name).IsWord := by
  unfold Sheet.scopeCell
  split
  · next htrue =>
    rcases hname with rfl | hname
    · simp [Json.isTrue] at htrue
    · exact (h.isString_selectorCell hname).isWord
  · exact Json.isWord_null

theorem isResolvable (h : s.IsLegible) {name : Json} (hname : name.IsString) :
    s.isResolvable name = true :=
  Selector.isResolvableWithin_of_isPlain _ h.definitions_isPlain
    (by simpa [Selector.IsPlain] using hname)

end Cascade.IsLegible

/-! ## 3. Planning -/

namespace Sheet

theorem checkValue_of_isString {v : Json} (h : v.IsString) : checkValue v = .ok () :=
  ShapeError.require_of_true h.isText _

theorem checkName_of_isString {v : Json} (h : v.IsString) : checkName v = .ok () :=
  ShapeError.require_of_true h.isText _

theorem checkDeclarations_of_isPlain {ds : List StoredDeclaration} (h : ∀ d ∈ ds, d.IsPlain) :
    checkDeclarations ds = .ok () :=
  forM_eq_ok fun d hd => by
    rw [bind_of_ok (checkName_of_isString (h d hd).1)]
    exact checkValue_of_isString (h d hd).2

theorem checkFeatures_of_isPlain {ds : List StoredDeclaration} (h : ∀ d ∈ ds, d.IsPlain) :
    checkFeatures ds = .ok () :=
  forM_eq_ok fun d hd => by
    rw [bind_of_ok (checkName_of_isString (h d hd).1)]
    split
    · exact checkValue_of_isString (h d hd).2
    · rfl

theorem checkBlocks_of_isPlain {t : Table Json RuleBlock} (h : t.All fun _ b => b.IsPlain) :
    (t.values.forM fun b => checkDeclarations b.declarations) = .ok () :=
  forM_eq_ok fun b hb => by
    obtain ⟨e, he, rfl⟩ := List.mem_map.1 hb
    exact checkDeclarations_of_isPlain (h e he)

theorem checkValue_of_isTrue {v : Json} (h : v.IsWord) (htrue : v.isTrue = true) :
    checkValue v = .ok () :=
  ShapeError.require_of_true (h.isText_of_isTrue htrue) _

theorem checkProperty_of_isTyped {p : PropertyEntry} (h : p.IsTyped) :
    checkProperty p = .ok () := by
  simp only [checkProperty]
  rw [bind_if_of_ok (checkValue_of_isTrue h.valueSyntax)]
  split
  · next htrue => exact checkValue_of_isTrue h.initialValue htrue
  · rfl

theorem checkStyle_of_isTyped (config : CompilerConfig) {name : Json} (hname : name.IsString)
    {p : StyleProperty} (h : p.IsTyped) : checkStyle config name p = .ok () := by
  have hmode : (config.spacingFor p.spacingMode).IsWord :=
    (Json.isWord_textOrNull _).orElse h.spacingMode
  simp only [checkStyle]
  rw [bind_of_ok (checkName_of_isString hname), bind_of_ok (checkValue_of_isString h.value)]
  split
  · next hcond =>
    exact ShapeError.require_of_true
      (hmode.isText_of_isTrue (Bool.and_eq_true_iff.1 hcond).2) _
  · rfl

section Cascade

variable {s : Cascade} (h : s.IsLegible) (ht : s.IsTyped) (config : CompilerConfig)

include h

theorem checkSelector_of_isString {name : Json} (hname : name.IsString) :
    checkSelector s name = .ok () :=
  ShapeError.require_of_true (h.isResolvable hname) _

/-- A scope that is there is named by a text. -/
theorem checkSelector_of_isTrue {scope : Json} (hscope : scope.IsWord)
    (htrue : scope.isTrue = true) : checkSelector s scope = .ok () := by
  rcases hscope with rfl | hscope
  · simp [Json.isTrue] at htrue
  · exact checkSelector_of_isString h hscope

include ht

theorem checkBucket_of_mem {e : BucketKey × Bucket} (he : e ∈ s.buckets.buckets.entries) :
    checkBucket s config e.1 e.2 = .ok () := by
  have hk := h.keys e.1 (Table.mem_keys_of_mem he)
  have hb := (ht.buckets e he).2
  simp only [checkBucket]
  rw [bind_of_ok (forM_eq_ok fun d hd =>
      checkStyle_of_isTyped config (hb.properties d hd).1 (hb.properties d hd).2),
    bind_of_ok (checkSelector_of_isString h hk.selector),
    bind_if_of_ok (checkSelector_of_isTrue h hk.scopeRoot)]
  split
  · next htrue => exact checkSelector_of_isTrue h hk.scopeLimit htrue
  · rfl

/-- Every cell that has to be a text is one. -/
theorem checkCascade_of_isLegible : checkCascade s config = .ok () := by
  have htokens : (s.liveTokens.forM fun x => do
      checkValue x.1
      checkValue x.2.value) = .ok () := forM_eq_ok fun e he => by
    have hmem := List.mem_of_mem_filter he
    rw [bind_of_ok (checkValue_of_isString (ht.tokens e hmem).1)]
    exact checkValue_of_isString (ht.tokens e hmem).2.value
  have hproperties : s.properties.values.forM checkProperty = .ok () := forM_eq_ok fun p hp => by
    obtain ⟨e, he, rfl⟩ := List.mem_map.1 hp
    exact checkProperty_of_isTyped (ht.properties e he).2
  have hfaces :
      (s.fontFaces.values.forM fun f => checkDeclarations (faceDeclarations f)) = .ok () :=
    forM_eq_ok fun f hf => by
      obtain ⟨e, he, rfl⟩ := List.mem_map.1 hf
      exact checkDeclarations_of_isPlain fun d hd =>
        h.fontFaces e he d (List.mem_of_mem_filter hd)
  have hfeatures :
      (s.fontFeatureValues.values.forM fun b => checkFeatures b.declarations) = .ok () :=
    forM_eq_ok fun b hb => by
      obtain ⟨e, he, rfl⟩ := List.mem_map.1 hb
      exact checkFeatures_of_isPlain (h.fontFeatureValues e he)
  have hstarting : (s.startingStyles.entries.forM fun x => do
      checkSelector s x.1
      checkDeclarations x.2.declarations) = .ok () := forM_eq_ok fun e he => by
    obtain ⟨hname, hb⟩ := h.startingStyles e he
    rw [bind_of_ok (checkSelector_of_isString h hname)]
    exact checkDeclarations_of_isPlain hb
  have hbuckets : ((fullBuckets s).forM fun x => checkBucket s config x.1 x.2) = .ok () :=
    forM_eq_ok fun e he => checkBucket_of_mem h ht config (List.mem_of_mem_filter he)
  have hkeyframes : (s.keyframes.values.forM fun a =>
      a.frames.forM fun f => checkDeclarations f.declarations) = .ok () := forM_eq_ok fun a ha => by
    obtain ⟨e, he, rfl⟩ := List.mem_map.1 ha
    exact forM_eq_ok fun f hf => checkDeclarations_of_isPlain (h.keyframes e he f hf)
  simp only [checkCascade]
  rw [bind_of_ok htokens, bind_of_ok hproperties, bind_of_ok hfaces,
    bind_of_ok (checkBlocks_of_isPlain h.pages),
    bind_of_ok (checkBlocks_of_isPlain h.counterStyles), bind_of_ok hfeatures,
    bind_of_ok (checkBlocks_of_isPlain h.fontPaletteValues), bind_of_ok hstarting,
    bind_of_ok hbuckets, hkeyframes]

/-! ## 4. Writing -/

/-- The scope of a rule is a single value, and its wrappers can be written. -/
theorem isScalar_isWritable_of_mem {r : SheetRule} (hr : r ∈ rulesOf s config) :
    (r.scopeRoot.isScalar && r.scopeLimit.isScalar) = true ∧ r.isWritable = true := by
  obtain ⟨e, he, rfl⟩ := List.mem_map.1 hr
  have hmem := List.mem_of_mem_filter he
  have hk := h.keys e.1 (Table.mem_keys_of_mem hmem)
  have hroot := (h.isWord_scopeCell hk.scopeRoot).isScalar
  have hlimit := (h.isWord_scopeCell hk.scopeLimit).isScalar
  refine ⟨Bool.and_eq_true_iff.2 ⟨hroot, hlimit⟩, ?_⟩
  show e.1.descriptor.all (·.isWritable) = true
  cases hd : e.1.descriptor with
  | none => rfl
  | some d =>
    have htyped : (Descriptor.columns e.1.descriptor).IsTyped := (ht.buckets e hmem).1
    rw [hd] at htyped
    by_cases hkind : d.kind = .containerStyle
    · have hword : d.condition.IsWord := by
        simpa [Descriptor.columns, hkind] using htyped.condition
      by_cases htrue : d.condition.isTrue = true
      · simp [Descriptor.isWritable, hword.isText_of_isTrue htrue]
      · simp [Descriptor.isWritable, htrue]
    · simp [Descriptor.isWritable, hkind]

omit h ht in
/-- The rules of a scope are among the rules. -/
theorem mem_of_mem_scopeGroups {rules : List SheetRule} {e : (Json × Json) × List SheetRule}
    (he : e ∈ scopeGroups rules) : ∀ r ∈ e.2, r ∈ rules := by
  have hfold : ∀ (rs : List SheetRule) (t : Table (Json × Json) (List SheetRule)),
      (∀ r ∈ rs, r ∈ rules) → (t.All fun _ group => ∀ r ∈ group, r ∈ rules) →
      (rs.foldl (fun t r => t.put (r.scopeRoot, r.scopeLimit)
        ((t.get? (r.scopeRoot, r.scopeLimit)).getD [] ++ [r])) t).All fun _ group =>
          ∀ r ∈ group, r ∈ rules := by
    intro rs
    induction rs with
    | nil => exact fun t _ ht => ht
    | cons r rs ih =>
      intro t hrs ht
      obtain ⟨hr, hrs⟩ := List.forall_mem_cons.1 hrs
      refine ih _ hrs (ht.put_values _ ?_)
      refine List.forall_mem_append.2 ⟨?_, List.forall_mem_singleton.2 hr⟩
      cases hgroup : t.get? (r.scopeRoot, r.scopeLimit) with
      | none => simp
      | some group =>
        obtain ⟨l, -, hl⟩ := Table.lookup_mem hgroup
        exact ht _ hl
  exact hfold rules {} (fun r hr => hr) (Table.all_empty _) e he

theorem checkRules_of_mem {rules : List SheetRule} (hrules : ∀ r ∈ rules, r ∈ rulesOf s config) :
    checkRules rules = .ok () := by
  have hscopes : rules.all (fun r => r.scopeRoot.isScalar && r.scopeLimit.isScalar) = true :=
    List.all_eq_true.2 fun r hr => (isScalar_isWritable_of_mem h ht config (hrules r hr)).1
  have hwrappers : (scopeGroups rules).all (fun x => x.2.all (·.isWritable)) = true :=
    List.all_eq_true.2 fun e he => List.all_eq_true.2 fun r hr =>
      (isScalar_isWritable_of_mem h ht config (hrules r (mem_of_mem_scopeGroups he r hr))).2
  simp only [checkRules]
  rw [bind_of_ok (ShapeError.require_of_true hscopes _), ShapeError.require_of_true hwrappers]

theorem checkRender_of_isLegible : (ofCascade s config).checkRender = .ok () := by
  have hrules : ∀ layer, checkRules ((ofCascade s config).rulesIn layer) = .ok () := fun layer =>
    checkRules_of_mem h ht config fun r hr => List.mem_of_mem_filter hr
  have hraw : (ofCascade s config).raw.all (·.isText) = true := by
    refine List.all_eq_true.2 fun css hcss => ?_
    obtain ⟨r, hr, rfl⟩ := List.mem_map.1 (List.mem_of_mem_filter hcss)
    exact (ht.raw r hr).css.isText
  simp only [checkRender]
  rw [bind_of_ok (hrules .null), bind_of_ok (forM_eq_ok fun layer _ => hrules layer),
    ShapeError.require_of_true hraw]

end Cascade

end Sheet

/-- The style sheet of a legible and typed cascade is made. -/
theorem Cascade.compile_of_isLegible {s : Cascade} (h : s.IsLegible) (ht : s.IsTyped)
    (config : CompilerConfig) : s.compile config = .ok (Sheet.ofCascade s config).render := by
  simp only [Cascade.compile, Sheet.plan, Sheet.write, Sheet.checkCascade_of_isLegible h ht config]
  simp only [bind, Except.bind, pure, Except.pure, Sheet.checkRender_of_isLegible h ht config]

/-- The style sheet of a settled and typed cascade is made. -/
theorem Cascade.compile_of_isSettled {s : Cascade} (h : s.IsSettled) (ht : s.IsTyped)
    (config : CompilerConfig) : s.compile config = .ok (Sheet.ofCascade s config).render :=
  Cascade.compile_of_isLegible h.isLegible ht config

/-- The style sheet of a cascade that plain statements have written is made. -/
theorem Cascade.compile_of_isCoherent {D : Option Descriptor → Prop} {s : Cascade}
    (h : s.IsCoherent D) (ht : s.IsTyped) (config : CompilerConfig) :
    s.compile config = .ok (Sheet.ofCascade s config).render :=
  Cascade.compile_of_isSettled h.isSettled ht config

end StyleLedger
