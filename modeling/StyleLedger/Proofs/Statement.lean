import StyleLedger.Proofs.Descriptor.Columns
import StyleLedger.Statement

/-!
What statements hold that were written down.

The types of conditions and definitions have room for any value, because stored rows may bring any.
A statement that was written down brings texts only, and null where something is absent. This module
says so for every part of a statement (`Statement.IsPlain`), and carries it through the merging of
conditions: the descriptors of a plain condition hold texts and nulls (`isWordy_of_ofCondition`).

* `Json.IsWord`, `Json.IsString` — a text or null, and a text.
* `Condition.IsPlain`, `Selector.IsPlain`, `Statement.IsPlain` — the parts of statements.
* `Descriptor.IsWordy` — the descriptors.
-/

namespace StyleLedger

open Outcome

/-! ## 1. Texts and nulls -/

namespace Json

/-- A text, or null. -/
def IsWord (v : Json) : Prop :=
  v = .null ∨ ∃ s, v = .text s

/-- A text. -/
def IsString (v : Json) : Prop :=
  ∃ s, v = .text s

theorem isNull_iff {v : Json} : v.isNull = true ↔ v = .null := by
  cases v <;> simp [isNull]

theorem isWord_null : IsWord .null := .inl rfl

theorem isWord_text (s : String) : IsWord (.text s) := .inr ⟨s, rfl⟩

theorem isWord_textOrNull (s : Option String) : IsWord (textOrNull s) := by
  cases s with
  | none => exact isWord_null
  | some s => exact isWord_text s

theorem isString_text (s : String) : IsString (.text s) := ⟨s, rfl⟩

theorem IsString.isWord {v : Json} (h : v.IsString) : v.IsWord := .inr h

/-- A text is found under itself, and so is null. -/
theorem IsWord.key_eq {v : Json} (h : v.IsWord) : v.key = v := by
  rcases h with rfl | ⟨s, rfl⟩
  · exact key_null
  · exact key_text s

theorem key_eq_null_iff {v : Json} : Keyed.key v = .null ↔ v = .null := by
  cases v with
  | number n =>
    simp only [Keyed.key, Json.key]
    split <;> simp [Json.int]
  | _ => simp [Keyed.key, Json.key, Json.int]

/-- A cell that is found under a text or null is that text or null. -/
theorem IsWord.eq_of_key_eq {v w : Json} (hv : v.IsWord) (h : Keyed.key w = Keyed.key v) :
    w = v := by
  obtain rfl | ⟨s, rfl⟩ := hv
  · exact key_eq_null_iff.1 (h.trans key_null)
  · rw [key_text] at h
    cases w with
    | number n =>
      simp only [Keyed.key, Json.key] at h
      split at h <;> simp [Json.int] at h
    | text t => simpa using h
    | _ => simp [Keyed.key, Json.key, Json.int] at h

theorem IsWord.orElse {v w : Json} (hv : v.IsWord) (hw : w.IsWord) : (v.orElse w).IsWord := by
  unfold Json.orElse
  split
  · exact hv
  · exact hw

/-- A text stands in for what is absent. -/
theorem IsWord.orElse_text {v : Json} (h : v.IsWord) (s : String) :
    (v.orElse (.text s)).IsString := by
  rcases h with rfl | ⟨r, rfl⟩
  · exact ⟨s, rfl⟩
  · unfold Json.orElse
    split
    · exact ⟨r, rfl⟩
    · exact ⟨s, rfl⟩

theorem IsWord.isScalar {v : Json} (h : v.IsWord) : v.isScalar = true := by
  rcases h with rfl | ⟨s, rfl⟩ <;> rfl

end Json

/-! ## 2. Conditions and definitions -/

/-- An atom holds texts; a bound or an axis may be absent. -/
def Atom.IsPlain : Atom → Prop
  | width min max => min.IsWord ∧ max.IsWord
  | feature name value => name.IsWord ∧ value.IsWord
  | container name min max axis => name.IsWord ∧ min.IsWord ∧ max.IsWord ∧ axis.IsWord
  | containerStyle name condition => name.IsWord ∧ condition.IsWord
  | supports condition => condition.IsWord

namespace Condition

mutual

/-- Every atom of a condition is plain. -/
def IsPlain : Condition → Prop
  | atom a => a.IsPlain
  | all parts | any parts => ArePlain parts

/-- Every one of some conditions is plain. -/
def ArePlain : List Condition → Prop
  | [] => True
  | c :: cs => IsPlain c ∧ ArePlain cs

end

theorem arePlain_iff (cs : List Condition) : ArePlain cs ↔ ∀ c ∈ cs, c.IsPlain := by
  induction cs with
  | nil => simp [ArePlain]
  | cons c cs ih => simp [ArePlain, ih]

mutual

theorem IsPlain.of_mem_alternatives : ∀ {c : Condition}, c.IsPlain →
    ∀ atoms ∈ c.alternatives, ∀ a ∈ atoms, a.IsPlain
  | .atom a, h, atoms, hatoms, b, hb => by
    simp only [alternatives, List.mem_singleton] at hatoms
    rw [hatoms, List.mem_singleton] at hb
    rw [hb]
    exact h
  | .all parts, h, atoms, hatoms, a, ha => of_mem_conjunctions h atoms hatoms a ha
  | .any parts, h, atoms, hatoms, a, ha => of_mem_disjunctions h atoms hatoms a ha

theorem of_mem_conjunctions : ∀ {cs : List Condition}, ArePlain cs →
    ∀ atoms ∈ conjunctions cs, ∀ a ∈ atoms, a.IsPlain
  | [], _, atoms, hatoms, a, ha => by
    simp only [conjunctions, List.mem_singleton] at hatoms
    rw [hatoms] at ha
    simp at ha
  | c :: cs, h, atoms, hatoms, a, ha => by
    simp only [conjunctions, List.mem_flatMap, List.mem_map] at hatoms
    obtain ⟨first, hfirst, more, hmore, rfl⟩ := hatoms
    rcases List.mem_append.1 ha with ha | ha
    · exact h.1.of_mem_alternatives first hfirst a ha
    · exact of_mem_conjunctions h.2 more hmore a ha

theorem of_mem_disjunctions : ∀ {cs : List Condition}, ArePlain cs →
    ∀ atoms ∈ disjunctions cs, ∀ a ∈ atoms, a.IsPlain
  | [], _, atoms, hatoms, a, ha => by simp [disjunctions] at hatoms
  | c :: cs, h, atoms, hatoms, a, ha => by
    simp only [disjunctions, List.mem_append] at hatoms
    rcases hatoms with hatoms | hatoms
    · exact h.1.of_mem_alternatives atoms hatoms a ha
    · exact of_mem_disjunctions h.2 atoms hatoms a ha

end

end Condition

namespace Selector

mutual

/-- Every part of a definition is a text; the value, the operator and the flag of an attribute
selector may be absent. -/
def IsPlain : Selector → Prop
  | element v | cls v | id v | pseudo v | pseudoElement v | reference v => v.IsString
  | attr name value operator flag =>
    name.IsString ∧ value.IsWord ∧ operator.IsWord ∧ flag.IsWord
  | and parts | or parts => ArePlain parts
  | child p c => IsPlain p ∧ IsPlain c
  | descendant a d => IsPlain a ∧ IsPlain d
  | join _ l r => IsPlain l ∧ IsPlain r

/-- Every one of some definitions is plain. -/
def ArePlain : List Selector → Prop
  | [] => True
  | s :: ss => IsPlain s ∧ ArePlain ss

end

theorem arePlain_iff (ss : List Selector) : ArePlain ss ↔ ∀ s ∈ ss, s.IsPlain := by
  induction ss with
  | nil => simp [ArePlain]
  | cons s ss ih => simp [ArePlain, ih]

end Selector

/-! ## 3. Statements -/

/-- The names of a target are not empty, and its condition is plain. -/
structure StyleTarget.IsPlain (t : StyleTarget) : Prop where
  selector : t.selector ≠ ""
  scopeRoot : ∀ r ∈ t.scopeRoot, r ≠ ""
  scopeLimit : ∀ l ∈ t.scopeLimit, l ≠ ""
  condition : ∀ c ∈ t.condition, c.IsPlain

/-- The parts of a statement that was written down. -/
def Statement.IsPlain : Statement → Prop
  | createSelector _ definition => definition.IsPlain
  | createStyle target _ | alterStyle target _ _ => target.IsPlain
  | setLayer name => name ≠ ""
  | _ => True

/-! ## 4. Descriptors -/

namespace Descriptor

/-- Every cell of a descriptor is a text or null. -/
structure IsWordy (d : Descriptor) : Prop where
  min : d.min.IsWord
  max : d.max.IsWord
  axis : d.axis.IsWord
  name : d.name.IsWord
  condition : d.condition.IsWord
  supports : d.supports.IsWord

/-- Every value that has been gathered from an alternative is a text or null. -/
structure Parts.IsWordy (p : Parts) : Prop where
  min : p.min.IsWord
  max : p.max.IsWord
  query : ∀ name min max axis, p.container = some (.query name min max axis) →
    name.IsWord ∧ axis.IsWord
  style : ∀ name condition, p.container = some (.style name condition) →
    name.IsWord ∧ condition.IsWord

theorem isWord_of_bound {value b : Json} (h : bound value = .ok b) : b.IsWord := by
  unfold bound at h
  split at h
  · obtain rfl := Except.ok.inj h
    exact Json.isWord_null
  · simp only [bind_eq_ok, pure_eq_ok] at h
    obtain ⟨v, -, rfl⟩ := h
    split
    · exact Json.isWord_null
    · exact Json.isWord_text v

theorem Parts.mergeContainer_isWordy {p : Parts} (hp : p.IsWordy) {name min max axis : Json}
    {c : ContainerPart} (hname : name.IsWord) (haxis : axis.IsWord)
    (h : mergeContainer p.container name min max axis = .ok c) :
    ∃ name' min' max' axis', c = .query name' min' max' axis' ∧ name'.IsWord ∧ axis'.IsWord := by
  unfold mergeContainer at h
  split at h
  · exact ⟨_, _, _, _, (Except.ok.inj h).symm, hname, haxis⟩
  · simp at h
  · next name' min' max' axis' hc =>
    obtain ⟨hname', haxis'⟩ := hp.query _ _ _ _ hc
    split at h
    · exact ⟨_, _, _, _, (Except.ok.inj h).symm, hname', haxis.orElse haxis'⟩
    · simp at h

theorem Parts.add_isWordy {p q : Parts} {a : Atom} (hp : p.IsWordy) (ha : a.IsPlain)
    (h : p.add a = .ok q) : q.IsWordy := by
  cases a with
  | width min max =>
    obtain ⟨lo, hi, hlo, hhi, rfl⟩ := Parts.add_width h
    refine ⟨?_, ?_, hp.query, hp.style⟩
    · rcases hlo with rfl | hlo
      · exact hp.min
      · exact isWord_of_bound hlo
    · rcases hhi with rfl | hhi
      · exact hp.max
      · exact isWord_of_bound hhi
  | feature name value =>
    simp only [Parts.add, bind_eq_ok, pure_eq_ok] at h
    obtain ⟨f, -, rfl⟩ := h
    exact ⟨hp.min, hp.max, hp.query, hp.style⟩
  | supports condition =>
    simp only [Parts.add, bind_eq_ok, pure_eq_ok] at h
    obtain ⟨text, -, rfl⟩ := h
    exact ⟨hp.min, hp.max, hp.query, hp.style⟩
  | container name min max axis =>
    simp only [Parts.add, bind_eq_ok, pure_eq_ok] at h
    obtain ⟨c, hc, rfl⟩ := h
    obtain ⟨name', min', max', axis', rfl, hname, haxis⟩ :=
      Parts.mergeContainer_isWordy hp ha.1 ha.2.2.2 hc
    refine ⟨hp.min, hp.max, fun _ _ _ _ heq => ?_, fun _ _ heq => by simp at heq⟩
    obtain ⟨rfl, -, -, rfl⟩ := ContainerPart.query.inj (Option.some.inj heq)
    exact ⟨hname, haxis⟩
  | containerStyle name condition =>
    simp only [Parts.add] at h
    split at h
    · simp at h
    · obtain rfl := Except.ok.inj h
      refine ⟨hp.min, hp.max, fun _ _ _ _ heq => by simp at heq, fun _ _ heq => ?_⟩
      obtain ⟨rfl, rfl⟩ := ContainerPart.style.inj (Option.some.inj heq)
      exact ha

theorem Parts.descriptor_isWordy {p : Parts} {d : Descriptor} (hp : p.IsWordy)
    (h : p.descriptor = .ok (some d)) : d.IsWordy := by
  have hsupports : p.supportsText.IsWord := Json.isWord_textOrNull _
  have hnull := Json.isWord_null
  unfold Parts.descriptor at h
  split at h
  · next c hc =>
    split at h
    · simp at h
    · split at h
      · obtain rfl := Option.some.inj (Except.ok.inj h)
        obtain ⟨hname, hcondition⟩ := hp.style _ _ hc
        exact ⟨hnull, hnull, hnull, hname, hcondition, hsupports⟩
      · simp only [bind_eq_ok, pure_eq_ok, Option.some.injEq] at h
        obtain ⟨lo, hlo, hi, hhi, rfl⟩ := h
        obtain ⟨hname, haxis⟩ := hp.query _ _ _ _ hc
        exact ⟨isWord_of_bound hlo, isWord_of_bound hhi, haxis, hname, hnull, hsupports⟩
  · split at h
    · obtain rfl := Option.some.inj (Except.ok.inj h)
      exact ⟨hp.min, hp.max, hnull, hnull, hnull, hsupports⟩
    · split at h
      · simp at h
      · obtain rfl := Option.some.inj (Except.ok.inj h)
        exact ⟨hnull, hnull, hnull, hnull, hsupports, hnull⟩

/-- The descriptors of a plain condition hold texts and nulls. -/
theorem isWordy_of_ofCondition {c : Option Condition} (hc : ∀ c' ∈ c, c'.IsPlain)
    {ds : List (Option Descriptor)} (h : ofCondition c = .ok ds) {d : Descriptor}
    (hd : some d ∈ ds) : d.IsWordy := by
  obtain ⟨c, hmem, atoms, hatoms, p, hp, hd⟩ := exists_parts_of_ofCondition h hd
  have hplain := (hc c hmem).of_mem_alternatives atoms hatoms
  have hempty : Parts.IsWordy {} := ⟨Json.isWord_null, Json.isWord_null, by simp, by simp⟩
  exact Parts.descriptor_isWordy
    (foldlM_keeps (fun a ha p q hp hq => Parts.add_isWordy hp (hplain a ha) hq) hempty hp) hd

end Descriptor

end StyleLedger
