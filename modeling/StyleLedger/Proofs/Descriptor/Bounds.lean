import StyleLedger.Proofs.Statement
import Mathlib.Algebra.Order.Ring.Rat
import Mathlib.Data.List.DropRight
import Mathlib.Data.List.Induction

/-!
What the bounds of a conjunction mean, and what is left of them in its wrapper.

Texts are read as widths by any function; a bound that is absent, blank or infinite asks for
nothing. A conjunction of tests asks for everything that one of its tests asks for, but a wrapper
has room for one lower and one upper bound, and takes the last one that is stated on each side
(`exists_ofAtoms_viewport`, `exists_ofAtoms_container`). So a wrapper never asks for more than the
conjunction; it asks for less as soon as a bound is followed by a weaker one, an infinite one
included. Both admit the same widths exactly when no bound asks for more than the last one on its
side, or when the wrapper admits no width at all (`forall_within_iff`).

* `Json.limit?` — the width that a bound says.
* `Within` — a width lies between two bounds.
* `lastStated` — the last bound that is there.
* `LastIsTightest` — no bound asks for more than the last one on its side.
-/

namespace StyleLedger

open Outcome

/-! ## 1. Readings -/

/-- The width that a bound says, for a reading of texts without blanks at their ends; an absent, a
blank or an infinite bound says none. -/
def Json.limit? (read : String → ℚ) : Json → Option ℚ
  | .text s =>
    let v := Text.trimmed s
    if v = "" ∨ Text.upper v = "INF" then none else some (read v)
  | _ => none

/-- A width is neither below a lower bound nor above an upper one. -/
def Within (read : String → ℚ) (min max : Json) (w : ℚ) : Prop :=
  (∀ b ∈ min.limit? read, b ≤ w) ∧ ∀ b ∈ max.limit? read, w ≤ b

instance (read : String → ℚ) (min max : Json) (w : ℚ) : Decidable (Within read min max w) :=
  inferInstanceAs (Decidable (_ ∧ _))

namespace Atom

/-- The lower bound of a test on a size. -/
def min : Atom → Json
  | width min _ | container _ min _ _ => min
  | _ => .null

/-- The upper bound of a test on a size. -/
def max : Atom → Json
  | width _ max | container _ _ max _ => max
  | _ => .null

/-- A width passes a test; tests on anything else let every width pass. -/
def Admits (read : String → ℚ) (a : Atom) (w : ℚ) : Prop :=
  Within read a.min a.max w

instance (read : String → ℚ) (a : Atom) (w : ℚ) : Decidable (a.Admits read w) :=
  inferInstanceAs (Decidable (Within read a.min a.max w))

/-- A test on the viewport: bounds that may be absent, or a feature and its value. -/
def IsViewport : Atom → Prop
  | width min max => min.IsWord ∧ max.IsWord
  | feature name value => name.IsString ∧ value.IsString
  | _ => False

/-- A test on the size of a given container along a given axis. -/
def IsOn (name axis : Json) : Atom → Prop
  | container name' min max axis' => name' = name ∧ axis' = axis ∧ min.IsWord ∧ max.IsWord
  | _ => False

/-- The feature that a test asks for, as it is written in brackets. -/
def featureTexts : Atom → List String
  | feature (.text name) (.text value) =>
    ["(" ++ name.map (fun c => if c = '_' then '-' else c) ++ ": " ++ Text.trimmed value ++ ")"]
  | _ => []

end Atom

namespace Descriptor

/-- A width passes the bounds of a wrapper; no wrapper lets every width pass. -/
def Admits (read : String → ℚ) (d : Option Descriptor) (w : ℚ) : Prop :=
  ∀ x ∈ d, Within read x.min x.max w

instance (read : String → ℚ) (d : Option Descriptor) (w : ℚ) : Decidable (Admits read d w) :=
  inferInstanceAs (Decidable (∀ x ∈ d, Within read x.min x.max w))

/-- The features of a wrapper. -/
def featuresOf (d : Option Descriptor) : List String :=
  d.elim [] (·.features)

/-- The last of some bounds that is there; null if none is. -/
def lastStated (bounds : List Json) : Json :=
  bounds.foldl (fun previous b => Parts.orPrevious b previous) .null

theorem lastStated_concat (bounds : List Json) (b : Json) :
    lastStated (bounds ++ [b]) = Parts.orPrevious b (lastStated bounds) := by
  simp [lastStated]

/-- The last stated bound is one of the bounds, unless none is stated. -/
theorem lastStated_cases (bounds : List Json) :
    lastStated bounds = .null ∨ lastStated bounds ∈ bounds := by
  induction bounds using List.reverseRecOn with
  | nil => exact .inl rfl
  | append_singleton bounds b ih =>
    rw [lastStated_concat, Parts.orPrevious]
    split
    · exact ih.imp_right (List.mem_append_left [b])
    · exact .inr (by simp)

end Descriptor

/-! ## 2. Bounds without their blanks -/

/-- A text without blanks at its ends has none to lose. -/
theorem Text.trim_trim (cs : List Char) : trim (trim cs) = trim cs := by
  have hend : ∀ ds, trimEnd (trimEnd ds) = trimEnd ds := List.rdropWhile_idempotent isBlank
  have htake : trimEnd (trimStart cs) <+: trimStart cs := List.rdropWhile_prefix isBlank _
  have hstart : trimStart (trimEnd (trimStart cs)) = trimEnd (trimStart cs) := by
    refine List.dropWhile_eq_self_iff.2 fun hpos => ?_
    have hpos' : 0 < (trimStart cs).length := Nat.lt_of_lt_of_le hpos htake.length_le
    rw [htake.getElem hpos]
    exact List.dropWhile_get_zero_not isBlank cs hpos'
  rw [trim, trim, hstart, hend]

theorem Text.trimmed_trimmed (s : String) : trimmed (trimmed s) = trimmed s := by
  simp [trimmed, trim_trim]

namespace Descriptor

/-- A bound that is brought into normal form says what it said before. -/
theorem exists_bound {v : Json} (h : v.IsWord) : ∃ b, bound v = .ok b ∧
    ∀ read, b.limit? read = v.limit? read := by
  rcases h with rfl | ⟨s, rfl⟩
  · exact ⟨.null, rfl, fun _ => rfl⟩
  · by_cases hnone : Text.trimmed s = "" ∨ Text.upper (Text.trimmed s) = "INF"
    · refine ⟨.null, ?_, fun read => ?_⟩
      · have htest : ((Text.trimmed s).isEmpty || Text.upper (Text.trimmed s) == "INF") = true :=
          by simpa using hnone
        simp [bound, Json.isNull, trimmed, htest, bind, Except.bind, pure, Except.pure]
      · simp [Json.limit?, hnone]
    · refine ⟨.text (Text.trimmed s), ?_, fun read => ?_⟩
      · have htest : ((Text.trimmed s).isEmpty || Text.upper (Text.trimmed s) == "INF") = false :=
          by simpa using hnone
        simp [bound, Json.isNull, trimmed, htest, bind, Except.bind, pure, Except.pure]
      · simp [Json.limit?, Text.trimmed_trimmed]

/-! ## 3. Wrappers -/

namespace Parts

/-- A stated bound replaces the one before it; one that is absent leaves it. -/
theorem exists_bound_orPrevious {v previous previous' : Json} (h : v.IsWord)
    (hprevious : ∀ read, previous.limit? read = previous'.limit? read) :
    ∃ b, (if v.isNull then pure previous else bound v) = .ok b ∧
      ∀ read, b.limit? read = (orPrevious v previous').limit? read := by
  by_cases hnull : v.isNull = true
  · exact ⟨previous, by rw [if_pos hnull]; rfl, by simpa [orPrevious, hnull] using hprevious⟩
  · obtain ⟨b, hb, hread⟩ := exists_bound h
    exact ⟨b, by rw [if_neg hnull, hb], by simpa [orPrevious, hnull] using hread⟩

/-- What tests on the viewport have gathered: the last stated bounds and all features. -/
structure GathersViewport (atoms : List Atom) (p : Parts) : Prop where
  min : ∀ read, p.min.limit? read = (lastStated (atoms.map Atom.min)).limit? read
  max : ∀ read, p.max.limit? read = (lastStated (atoms.map Atom.max)).limit? read
  features : p.features = atoms.flatMap Atom.featureTexts
  supports : p.supports = []
  container : p.container = none

/-- One more test on the viewport is taken in. -/
theorem GathersViewport.add {atoms : List Atom} {p : Parts} (h : GathersViewport atoms p) {a : Atom}
    (ha : a.IsViewport) : ∃ q, p.add a = .ok q ∧ GathersViewport (atoms ++ [a]) q := by
  cases a with
  | width lower upper =>
    obtain ⟨lo, hlo, hmin⟩ := exists_bound_orPrevious ha.1 h.min
    obtain ⟨hi, hhi, hmax⟩ := exists_bound_orPrevious ha.2 h.max
    refine ⟨{ p with min := lo, max := hi }, ?_, ?_, ?_, ?_, h.supports, h.container⟩
    · have hrun : p.add (.width lower upper) =
          (if lower.isNull then pure p.min else bound lower) >>= fun lo =>
            (if upper.isNull then pure p.max else bound upper) >>= fun hi =>
              pure { p with min := lo, max := hi } := by
        simp only [Parts.add]
        split <;> split <;> rfl
      rw [hrun, hlo, hhi]
      rfl
    · simpa [lastStated_concat, Atom.min] using hmin
    · simpa [lastStated_concat, Atom.max] using hmax
    · simpa [Atom.featureTexts] using h.features
  | feature name value =>
    obtain ⟨⟨n, rfl⟩, v, rfl⟩ := ha
    refine ⟨_, rfl, ?_, ?_, ?_, h.supports, h.container⟩
    · simpa [lastStated_concat, Atom.min, orPrevious, Json.isNull] using h.min
    · simpa [lastStated_concat, Atom.max, orPrevious, Json.isNull] using h.max
    · simp [h.features, Atom.featureTexts]
  | _ => exact ha.elim

theorem exists_gathersViewport {atoms : List Atom} (h : ∀ a ∈ atoms, a.IsViewport) :
    ∃ p, Parts.ofAtoms atoms = .ok p ∧ GathersViewport atoms p := by
  induction atoms using List.reverseRecOn with
  | nil => exact ⟨{}, rfl, fun _ => rfl, fun _ => rfl, rfl, rfl, rfl⟩
  | append_singleton atoms a ih =>
    obtain ⟨hatoms, ha⟩ := List.forall_mem_append.1 h
    obtain ⟨p, hp, hgathers⟩ := ih hatoms
    obtain ⟨q, hq, hgathers⟩ := hgathers.add (ha a List.mem_cons_self)
    exact ⟨q, foldlM_concat hp hq, hgathers⟩

/-- Tests on one container are gathered into one, with the last stated bounds. -/
theorem ofAtoms_container {name axis : Json} {atoms : List Atom} (hne : atoms ≠ [])
    (h : ∀ a ∈ atoms, a.IsOn name axis) : Parts.ofAtoms atoms = .ok
      { container := some (.query name (lastStated (atoms.map Atom.min))
          (lastStated (atoms.map Atom.max)) axis) } := by
  induction atoms using List.reverseRecOn with
  | nil => contradiction
  | append_singleton atoms a ih =>
    obtain ⟨hatoms, ha⟩ := List.forall_mem_append.1 h
    have ha := ha a List.mem_cons_self
    cases a with
    | container name' lower upper axis' =>
      obtain ⟨rfl, rfl, -, -⟩ := ha
      rw [List.map_append, List.map_append, List.map_singleton, List.map_singleton,
        lastStated_concat, lastStated_concat]
      cases atoms with
      | nil =>
        have hfirst : ∀ v : Json, orPrevious v .null = v := fun v => by
          cases v <;> simp [orPrevious, Json.isNull]
        simp [Parts.ofAtoms, Parts.add, mergeContainer, lastStated, hfirst, Atom.min, Atom.max,
          bind, Except.bind, pure, Except.pure]
      | cons b atoms =>
        refine foldlM_concat (ih (List.cons_ne_nil b atoms) hatoms) ?_
        have hname : name'.alike name' = true := by simp [Json.alike]
        have haxis : axis'.orElse axis' = axis' := by simp [Json.orElse]
        simp [Parts.add, mergeContainer, hname, haxis, Atom.min, Atom.max, bind, Except.bind, pure,
          Except.pure]
    | _ => exact ha.elim

end Parts

variable {atoms : List Atom}

/-- The wrapper of tests on the viewport has the last stated bound on each side, and every
feature. -/
theorem exists_ofAtoms_viewport (h : ∀ a ∈ atoms, a.IsViewport) : ∃ d, ofAtoms atoms = .ok d ∧
    featuresOf d = atoms.flatMap Atom.featureTexts ∧ ∀ read w, Admits read d w ↔
      Within read (lastStated (atoms.map Atom.min)) (lastStated (atoms.map Atom.max)) w := by
  obtain ⟨p, hp, hgathers⟩ := Parts.exists_gathersViewport h
  have hsupports : p.supportsText = .null := by
    rw [Parts.supportsText, hgathers.supports]
    rfl
  have hwithin : ∀ read w, Within read p.min p.max w ↔
      Within read (lastStated (atoms.map Atom.min)) (lastStated (atoms.map Atom.max)) w := by
    intro read w
    rw [Within, Within, hgathers.min, hgathers.max]
  cases hasks : p.asksMedia with
  | true =>
    have hrun : ofAtoms atoms = .ok (some
        { kind := .media, min := p.min, max := p.max, features := p.features,
          supports := p.supportsText }) := by
      simp [ofAtoms, hp, Parts.descriptor, hgathers.container, hasks, bind, Except.bind]
    refine ⟨_, hrun, hgathers.features, fun read w => ?_⟩
    simpa [Admits] using hwithin read w
  | false =>
    simp only [Parts.asksMedia, Bool.or_eq_false_iff, Bool.not_eq_false', Json.isNull_iff,
      List.isEmpty_iff] at hasks
    obtain ⟨⟨hmin, hmax⟩, hfeatures⟩ := hasks
    refine ⟨none, ?_, ?_, fun read w => ?_⟩
    · simp [ofAtoms, hp, Parts.descriptor, hgathers.container, Parts.asksMedia, hmin, hmax,
        hfeatures, hsupports, bind, Except.bind, Json.isNull]
    · exact hfeatures.symm.trans hgathers.features
    · rw [← hwithin, hmin, hmax]
      simp [Admits, Within, Json.limit?]

/-- The wrapper of tests on one container has the last stated bound on each side. -/
theorem exists_ofAtoms_container {name axis : Json} (hne : atoms ≠ [])
    (h : ∀ a ∈ atoms, a.IsOn name axis) : ∃ d, ofAtoms atoms = .ok d ∧
    featuresOf d = atoms.flatMap Atom.featureTexts ∧ ∀ read w, Admits read d w ↔
      Within read (lastStated (atoms.map Atom.min)) (lastStated (atoms.map Atom.max)) w := by
  have hfeatures : atoms.flatMap Atom.featureTexts = [] := by
    refine List.flatMap_eq_nil_iff.2 fun a ha => ?_
    have hon := h a ha
    cases a <;> first | rfl | exact hon.elim
  have hword : ∀ side : Atom → Json, (∀ a ∈ atoms, (side a).IsWord) →
      (lastStated (atoms.map side)).IsWord := by
    intro side hside
    rcases lastStated_cases (atoms.map side) with hnull | hmem
    · exact hnull ▸ Json.isWord_null
    · obtain ⟨a, ha, heq⟩ := List.mem_map.1 hmem
      exact heq ▸ hside a ha
  obtain ⟨lo, hlo, hmin⟩ := exists_bound (hword Atom.min fun a ha => by
    have hon := h a ha
    cases a <;> first | exact hon.2.2.1 | exact hon.elim)
  obtain ⟨hi, hhi, hmax⟩ := exists_bound (hword Atom.max fun a ha => by
    have hon := h a ha
    cases a <;> first | exact hon.2.2.2 | exact hon.elim)
  refine ⟨some { kind := .container, name, min := lo, max := hi, axis }, ?_, hfeatures.symm,
    fun read w => ?_⟩
  · simp only [ofAtoms, Parts.ofAtoms_container hne h, bind, Except.bind, Parts.descriptor, hlo,
      hhi]
    rfl
  · simp [Admits, Within, hmin, hmax]

/-! ## 4. When nothing is lost -/

/-- No bound asks for more than the last stated one on its side. -/
structure LastIsTightest (read : String → ℚ) (atoms : List Atom) : Prop where
  min : ∀ a ∈ atoms, ∀ b ∈ a.min.limit? read,
    ∃ c ∈ (lastStated (atoms.map Atom.min)).limit? read, b ≤ c
  max : ∀ a ∈ atoms, ∀ b ∈ a.max.limit? read,
    ∃ c ∈ (lastStated (atoms.map Atom.max)).limit? read, c ≤ b

/-- A width that passes every test is within the last stated bounds. -/
theorem within_lastStated {read : String → ℚ} {w : ℚ} (h : ∀ a ∈ atoms, a.Admits read w) :
    Within read (lastStated (atoms.map Atom.min)) (lastStated (atoms.map Atom.max)) w := by
  constructor
  · rcases lastStated_cases (atoms.map Atom.min) with hnull | hmem
    · simp [hnull, Json.limit?]
    · obtain ⟨a, ha, heq⟩ := List.mem_map.1 hmem
      exact heq ▸ (h a ha).1
  · rcases lastStated_cases (atoms.map Atom.max) with hnull | hmem
    · simp [hnull, Json.limit?]
    · obtain ⟨a, ha, heq⟩ := List.mem_map.1 hmem
      exact heq ▸ (h a ha).2

/-- If only widths from `b` on are admitted, and one is, then there is a lower bound, and it is not
below `b`. -/
theorem exists_limit_of_forall_le {read : String → ℚ} {min max : Json} {b v : ℚ}
    (hv : Within read min max v) (h : ∀ w, Within read min max w → b ≤ w) :
    ∃ c ∈ min.limit? read, b ≤ c := by
  cases hc : min.limit? read with
  | some c =>
    have hcv : c ≤ v := hv.1 c hc
    refine ⟨c, rfl, h c ⟨fun x hx => ?_, fun x hx => hcv.trans (hv.2 x hx)⟩⟩
    exact (Option.some.inj (hc.symm.trans hx)).ge
  | none =>
    -- An open side admits widths as small as one likes.
    have hsmall : b ≤ Min.min v (b - 1) := by
      refine h _ ⟨fun x hx => ?_, fun x hx => (min_le_left _ _).trans (hv.2 x hx)⟩
      exact absurd (hc.symm.trans hx) (by simp)
    exact absurd (hsmall.trans (min_le_right _ _)) (not_le.2 (sub_one_lt b))

/-- If only widths up to `b` are admitted, and one is, then there is an upper bound, and it is not
above `b`. -/
theorem exists_limit_of_forall_ge {read : String → ℚ} {min max : Json} {b v : ℚ}
    (hv : Within read min max v) (h : ∀ w, Within read min max w → w ≤ b) :
    ∃ c ∈ max.limit? read, c ≤ b := by
  cases hc : max.limit? read with
  | some c =>
    have hcv : v ≤ c := hv.2 c hc
    refine ⟨c, rfl, h c ⟨fun x hx => (hv.1 x hx).trans hcv, fun x hx => ?_⟩⟩
    exact (Option.some.inj (hc.symm.trans hx)).le
  | none =>
    have hlarge : Max.max v (b + 1) ≤ b := by
      refine h _ ⟨fun x hx => (hv.1 x hx).trans (le_max_left _ _), fun x hx => ?_⟩
      exact absurd (hc.symm.trans hx) (by simp)
    exact absurd ((le_max_right _ _).trans hlarge) (not_le.2 (lt_add_one b))

/-- The last stated bounds admit what all tests admit exactly if no bound asks for more than the
last one on its side, or if they admit nothing. -/
theorem forall_within_iff (read : String → ℚ) (atoms : List Atom) :
    (∀ w, Within read (lastStated (atoms.map Atom.min)) (lastStated (atoms.map Atom.max)) w ↔
      ∀ a ∈ atoms, a.Admits read w) ↔
    LastIsTightest read atoms ∨
      ∀ w, ¬Within read (lastStated (atoms.map Atom.min)) (lastStated (atoms.map Atom.max)) w := by
  constructor
  · intro hsame
    by_cases hnone :
        ∀ w, ¬Within read (lastStated (atoms.map Atom.min)) (lastStated (atoms.map Atom.max)) w
    · exact .inr hnone
    · obtain ⟨v, hv⟩ := not_forall_not.1 hnone
      refine .inl ⟨fun a ha b hb => ?_, fun a ha b hb => ?_⟩
      · exact exists_limit_of_forall_le hv fun w hw => ((hsame w).1 hw a ha).1 b hb
      · exact exists_limit_of_forall_ge hv fun w hw => ((hsame w).1 hw a ha).2 b hb
  · rintro (htight | hnone) w
    · refine ⟨fun hw a ha => ⟨fun b hb => ?_, fun b hb => ?_⟩, within_lastStated⟩
      · obtain ⟨c, hc, hbc⟩ := htight.min a ha b hb
        exact hbc.trans (hw.1 c hc)
      · obtain ⟨c, hc, hcb⟩ := htight.max a ha b hb
        exact (hw.2 c hc).trans hcb
    · exact ⟨fun hw => (hnone w hw).elim, within_lastStated⟩

/-! ## 5. The meaning of a conjunction -/

/-- A conjunction that is about one thing: the viewport, or one axis of one container. -/
def IsAboutOne (atoms : List Atom) : Prop :=
  (∀ a ∈ atoms, a.IsViewport) ∨ atoms ≠ [] ∧ ∃ name axis, ∀ a ∈ atoms, a.IsOn name axis

/-- A conjunction about one thing has a wrapper, with exactly the features of the conjunction, in
order. It admits every width that the conjunction admits; it admits only those exactly if no bound
is followed by a weaker one that replaces it, or if it admits none. -/
theorem ofAtoms_keeps_meaning (h : IsAboutOne atoms) : ∃ d, ofAtoms atoms = .ok d ∧
    featuresOf d = atoms.flatMap Atom.featureTexts ∧
    ∀ read, (∀ w, (∀ a ∈ atoms, a.Admits read w) → Admits read d w) ∧
      ((∀ w, Admits read d w ↔ ∀ a ∈ atoms, a.Admits read w) ↔
        LastIsTightest read atoms ∨ ∀ w, ¬Admits read d w) := by
  have hwrapper : ∃ d, ofAtoms atoms = .ok d ∧ featuresOf d = atoms.flatMap Atom.featureTexts ∧
      ∀ read w, Admits read d w ↔
        Within read (lastStated (atoms.map Atom.min)) (lastStated (atoms.map Atom.max)) w := by
    rcases h with hviewport | ⟨hne, name, axis, hon⟩
    · exact exists_ofAtoms_viewport hviewport
    · exact exists_ofAtoms_container hne hon
  obtain ⟨d, hrun, hfeatures, hadmits⟩ := hwrapper
  refine ⟨d, hrun, hfeatures, fun read => ⟨fun w hw => ?_, ?_⟩⟩
  · exact (hadmits read w).2 (within_lastStated hw)
  · simp only [hadmits read]
    exact forall_within_iff read atoms

/-- The number at the start of a text. -/
def leadingNumber (s : String) : ℚ :=
  (s.toList.takeWhile Char.isDigit).foldl (fun n c => 10 * n + (c.toNat - '0'.toNat)) (0 : Nat)

/-- Bounds on both sides, the lower one stated twice and tightened, with a feature between them. -/
theorem ofAtoms_keeps_meaning_tightened :
    let atoms : List Atom := [.width (.text "400px") (.text "inf"),
      .feature (.text "hover") (.text "hover"), .width (.text " 600px") .null,
      .width .null (.text "900px")]
    ∃ d, ofAtoms atoms = .ok d ∧ featuresOf d = ["(hover: hover)"] ∧
      ∀ w, Admits leadingNumber d w ↔ ∀ a ∈ atoms, a.Admits leadingNumber w := by
  intro atoms
  have hviewport : ∀ a ∈ atoms, a.IsViewport := by
    simp [atoms, Atom.IsViewport, Json.isWord_null, Json.isWord_text, Json.isString_text]
  obtain ⟨d, hrun, hfeatures, hmeaning⟩ := ofAtoms_keeps_meaning (.inl hviewport)
  refine ⟨d, hrun, hfeatures.trans (by decide +kernel), ?_⟩
  exact (hmeaning leadingNumber).2.2 (.inl ⟨by decide +kernel, by decide +kernel⟩)

/-- A weaker bound replaces the one before it, and an infinite one takes it away: a width of 500
passes the wrapper and not the conjunction. -/
theorem ofAtoms_loosened :
    let wrapped (atoms : List Atom) : Prop := ∃ d, ofAtoms atoms = .ok d ∧
      Admits leadingNumber d 500 ∧ ¬∀ a ∈ atoms, a.Admits leadingNumber 500
    wrapped [.width (.text "600px") .null, .width (.text "400px") .null] ∧
      wrapped [.width (.text "600px") .null, .width (.text "INF") .null] := by
  refine ⟨⟨some { kind := .media, min := .text "400px" }, ?_⟩, none, ?_⟩ <;> decide +kernel

end Descriptor

end StyleLedger
