import StyleLedger.Proofs.Condition.NormalForm

/-!
What the atoms of an alternative have come to when some of them are taken in.

Atoms are taken in one after another. Two things can go wrong. A test on a container may not go
together with the one before it: then the alternative is spoiled for good, whatever follows
(`MixesContainers.append`). And at the end the alternative may be about a container and about the
viewport. Which tests on containers there have been can be read off the container that has been
gathered (`Covers`), so an atom either is taken in or is the one that spoils it (`Gathers.add`), and
a run over all atoms ends in one of the two ways (`Gathers.ofAtoms_cases`).

* `Json.IsFinite` — a bound that says something.
* `MixesContainers`, `AsksViewport`, `MixesViewport` — what an alternative may be about.
* `Covers`, `Gathers` — what has been gathered, compared with the atoms.
-/

namespace StyleLedger

open Outcome

/-! ## 1. Atoms -/

namespace Atom

/-- An atom holds texts; only a bound or an axis may be absent. -/
def IsTyped : Atom → Prop
  | width min max => min.IsWord ∧ max.IsWord
  | feature name value => name.IsString ∧ value.IsString
  | container name min max axis => name.IsString ∧ min.IsWord ∧ max.IsWord ∧ axis.IsWord
  | containerStyle name condition => name.IsString ∧ condition.IsString
  | supports condition => condition.IsString

/-- The name of the container that a test is about. -/
def containerName? : Atom → Option Json
  | container name .. | containerStyle name _ => some name
  | _ => none

/-- A style query on a container. -/
def IsStyle : Atom → Prop
  | containerStyle .. => True
  | _ => False

/-- A test on a media feature. -/
def IsFeature : Atom → Prop
  | feature .. => True
  | _ => False

/-- The lower bound of a test on the width of the viewport. -/
def widthMin : Atom → Json
  | width min _ => min
  | _ => .null

/-- The upper bound of a test on the width of the viewport. -/
def widthMax : Atom → Json
  | width _ max => max
  | _ => .null

/-- The text of a feature query. -/
def supportsTexts : Atom → List String
  | supports (.text s) => [Text.trimmed s]
  | _ => []

theorem isContainer_iff {a : Atom} : a.isContainer = true ↔ ∃ n, a.containerName? = some n := by
  cases a <;> simp [isContainer, containerName?]

end Atom

/-! ## 2. Bounds -/

/-- A bound that says something: a text that, without the blanks at its ends, is neither empty nor
infinite. -/
def Json.IsFinite (v : Json) : Prop :=
  ∃ s, v = .text s ∧ Text.trimmed s ≠ "" ∧ Text.upper (Text.trimmed s) ≠ "INF"

namespace Descriptor

/-- What a wrapper may have for a bound: nothing, or a text that says something. -/
def IsLimit (b : Json) : Prop :=
  b = .null ∨ ∃ s, b = .text s ∧ s ≠ "" ∧ Text.upper s ≠ "INF"

/-- A bound is brought into normal form, and something is left exactly if it says something. -/
theorem exists_limit {v : Json} (h : v.IsWord) :
    ∃ b, bound v = .ok b ∧ IsLimit b ∧ (b ≠ .null ↔ v.IsFinite) := by
  rcases h with rfl | ⟨s, rfl⟩
  · exact ⟨.null, rfl, .inl rfl, by simp [Json.IsFinite]⟩
  · by_cases hnone : Text.trimmed s = "" ∨ Text.upper (Text.trimmed s) = "INF"
    · have htest : ((Text.trimmed s).isEmpty || Text.upper (Text.trimmed s) == "INF") = true := by
        simpa using hnone
      refine ⟨.null, ?_, .inl rfl, ?_⟩
      · simp [bound, Json.isNull, trimmed, htest, bind, Except.bind, pure, Except.pure]
      · simp only [Json.IsFinite, Json.text.injEq]
        refine iff_of_false (by simp) ?_
        rintro ⟨t, rfl, hempty, hinf⟩
        exact hnone.elim hempty hinf
    · have htest : ((Text.trimmed s).isEmpty || Text.upper (Text.trimmed s) == "INF") = false := by
        simpa using hnone
      obtain ⟨hempty, hinf⟩ := not_or.1 hnone
      refine ⟨.text (Text.trimmed s), ?_, .inr ⟨_, rfl, hempty, hinf⟩, ?_⟩
      · simp [bound, Json.isNull, trimmed, htest, bind, Except.bind, pure, Except.pure]
      · exact iff_of_true (by simp) ⟨s, rfl, hempty, hinf⟩

/-- The bound that has been gathered from some atoms: the last stated one, in normal form. -/
structure IsLast (bounds : List Json) (b : Json) : Prop where
  isLimit : IsLimit b
  ne_null_iff : b ≠ .null ↔ (lastStated bounds).IsFinite

theorem IsLast.nil : IsLast [] .null :=
  ⟨.inl rfl, by simp [lastStated, Json.IsFinite]⟩

/-- An absent bound leaves the one before it. -/
theorem IsLast.concat_null {bounds : List Json} {b : Json} (h : IsLast bounds b) :
    IsLast (bounds ++ [.null]) b := by
  refine ⟨h.isLimit, ?_⟩
  rw [lastStated_concat]
  exact h.ne_null_iff

/-- A further bound replaces the one before it, unless it is absent. -/
theorem IsLast.exists_concat {bounds : List Json} {b v : Json} (h : IsLast bounds b)
    (hv : v.IsWord) :
    ∃ c, (if v.isNull then pure b else bound v) = .ok c ∧ IsLast (bounds ++ [v]) c := by
  by_cases hnull : v.isNull = true
  · obtain rfl := Json.isNull_iff.1 hnull
    exact ⟨b, rfl, h.concat_null⟩
  · obtain ⟨c, hc, hlimit, hfinite⟩ := exists_limit hv
    refine ⟨c, by rw [if_neg hnull, hc], hlimit, ?_⟩
    rw [lastStated_concat, Parts.orPrevious, if_neg hnull]
    exact hfinite

/-! ## 3. What an alternative may not mix -/

/-- Several tests on containers that are not tests on the size of one: one of them is a style query,
or two have different names. -/
def MixesContainers (atoms : List Atom) : Prop :=
  2 ≤ atoms.countP Atom.isContainer ∧
    ((∃ a ∈ atoms, a.IsStyle) ∨
      ∃ a ∈ atoms, ∃ b ∈ atoms, ∃ n ∈ a.containerName?, ∃ m ∈ b.containerName?, n ≠ m)

/-- Some test asks for something of the viewport. A bound does if it is the last one stated on its
side and says something. -/
def AsksViewport (atoms : List Atom) : Prop :=
  (∃ a ∈ atoms, a.IsFeature) ∨ (lastStated (atoms.map Atom.widthMin)).IsFinite ∨
    (lastStated (atoms.map Atom.widthMax)).IsFinite

/-- A test on a container together with one on the viewport. -/
def MixesViewport (atoms : List Atom) : Prop :=
  (∃ a ∈ atoms, a.isContainer = true) ∧ AsksViewport atoms

/-- More atoms make no good of containers that do not go together. -/
theorem MixesContainers.append {atoms : List Atom} (h : MixesContainers atoms) (more : List Atom) :
    MixesContainers (atoms ++ more) := by
  obtain ⟨hcount, hmixed⟩ := h
  refine ⟨?_, ?_⟩
  · rw [List.countP_append]
    omega
  · rcases hmixed with ⟨a, ha, hstyle⟩ | ⟨a, ha, b, hb, hnames⟩
    · exact .inl ⟨a, List.mem_append_left more ha, hstyle⟩
    · exact .inr ⟨a, List.mem_append_left more ha, b, List.mem_append_left more hb, hnames⟩

/-- Which tests on containers there have been, if they have come to a given part. -/
def Covers (atoms : List Atom) : Option ContainerPart → Prop
  | none => ∀ a ∈ atoms, a.isContainer = false
  | some (.style name condition) =>
    atoms.filter Atom.isContainer = [.containerStyle name condition]
  | some (.query name min max _) =>
    (name.IsString ∧ min.IsWord ∧ max.IsWord) ∧ (∃ a ∈ atoms, a.isContainer = true) ∧
      ∀ a ∈ atoms, a.isContainer = true → a.containerName? = some name ∧ ¬a.IsStyle

namespace Covers

variable {atoms : List Atom} {c : Option ContainerPart}

theorem exists_isContainer_iff (h : Covers atoms c) :
    (∃ a ∈ atoms, a.isContainer = true) ↔ c.isSome = true := by
  cases c with
  | none =>
    refine iff_of_false ?_ (by simp)
    rintro ⟨a, ha, hcontainer⟩
    simp [h a ha] at hcontainer
  | some part =>
    refine iff_of_true ?_ rfl
    cases part with
    | style name condition =>
      have hmem : Atom.containerStyle name condition ∈ atoms.filter Atom.isContainer := by
        rw [h]
        exact List.mem_singleton_self _
      exact ⟨_, List.mem_of_mem_filter hmem, rfl⟩
    | query name min max axis => exact h.2.1

/-- Tests on containers that have come to one part go together. -/
theorem not_mixesContainers (h : Covers atoms c) : ¬MixesContainers atoms := by
  rintro ⟨hcount, hmixed⟩
  match c, h with
  | none, h =>
    have hzero : atoms.countP Atom.isContainer = 0 :=
      List.countP_eq_zero.2 fun a ha => by simp [h a ha]
    omega
  | some (.style name condition), h =>
    rw [List.countP_eq_length_filter, h] at hcount
    simp at hcount
  | some (.query name min max axis), ⟨_, _, hquery⟩ =>
    rcases hmixed with ⟨a, ha, hstyle⟩ | ⟨a, ha, b, hb, n, hn, m, hm, hne⟩
    · cases a with
      | containerStyle => exact (hquery _ ha rfl).2 hstyle
      | _ => exact hstyle
    · have hna := (hquery a ha (Atom.isContainer_iff.2 ⟨n, hn⟩)).1
      have hmb := (hquery b hb (Atom.isContainer_iff.2 ⟨m, hm⟩)).1
      rw [Option.mem_def, hna, Option.some.injEq] at hn
      rw [Option.mem_def, hmb, Option.some.injEq] at hm
      exact hne (hn.symm.trans hm)

/-- A test that is not on a container changes nothing. -/
theorem concat {a : Atom} (h : Covers atoms c) (ha : a.isContainer = false) :
    Covers (atoms ++ [a]) c := by
  match c, h with
  | none, h => exact List.forall_mem_append.2 ⟨h, by simpa using ha⟩
  | some (.style name condition), h =>
    show (atoms ++ [a]).filter Atom.isContainer = _
    rw [List.filter_append, h]
    simp [ha]
  | some (.query name min max axis), ⟨htexts, ⟨b, hb, hcontainer⟩, hquery⟩ =>
    refine ⟨htexts, ⟨b, List.mem_append_left [a] hb, hcontainer⟩,
      List.forall_mem_append.2 ⟨hquery, ?_⟩⟩
    simp [ha]

/-- A second test on a container is one too many if it does not go together with the first. -/
theorem mixesContainers_concat {a b : Atom} (hb : b ∈ atoms) (hcontainer : b.isContainer = true)
    (ha : a.isContainer = true)
    (h : b.IsStyle ∨ a.IsStyle ∨ ∃ n ∈ b.containerName?, ∃ m ∈ a.containerName?, n ≠ m) :
    MixesContainers (atoms ++ [a]) := by
  have hpos : 0 < atoms.countP Atom.isContainer := List.countP_pos_iff.2 ⟨b, hb, hcontainer⟩
  refine ⟨?_, ?_⟩
  · rw [List.countP_append, List.countP_singleton, if_pos ha]
    omega
  · have hb := List.mem_append_left [a] hb
    have ha : a ∈ atoms ++ [a] := List.mem_append_right atoms (List.mem_singleton_self a)
    rcases h with hstyle | hstyle | hnames
    · exact .inl ⟨b, hb, hstyle⟩
    · exact .inl ⟨a, ha, hstyle⟩
    · exact .inr ⟨b, hb, a, ha, hnames⟩

/-- A test on the size of a container joins the others, or has spoiled the alternative. -/
theorem mergeContainer_cases (h : Covers atoms c) {name min max axis : Json}
    (ha : (Atom.container name min max axis).IsTyped) :
    (∃ part, Parts.mergeContainer c name min max axis = .ok part ∧
      Covers (atoms ++ [.container name min max axis]) (some part)) ∨
    Parts.mergeContainer c name min max axis = .error .severalContainers ∧
      MixesContainers (atoms ++ [.container name min max axis]) := by
  obtain ⟨hname, hmin, hmax, -⟩ := ha
  match c, h with
  | none, h =>
    refine .inl ⟨_, rfl, ⟨hname, hmin, hmax⟩,
      ⟨_, List.mem_append_right atoms (List.mem_singleton_self _), rfl⟩,
      List.forall_mem_append.2 ⟨fun a ha hcontainer => ?_, ?_⟩⟩
    · simp [h a ha] at hcontainer
    · simp [Atom.containerName?, Atom.IsStyle]
  | some (.style name' condition), h =>
    have hmem : Atom.containerStyle name' condition ∈ atoms.filter Atom.isContainer := by
      rw [h]
      exact List.mem_singleton_self _
    exact .inr ⟨rfl, mixesContainers_concat (List.mem_of_mem_filter hmem) rfl rfl (.inl trivial)⟩
  | some (.query name' min' max' axis'), ⟨⟨hname', hmin', hmax'⟩, ⟨b, hb, hcontainer⟩, hquery⟩ =>
    have halike : name'.alike name = true ↔ name' = name := by
      obtain ⟨s, rfl⟩ := hname
      obtain ⟨t, rfl⟩ := hname'
      simp [Json.alike, Json.key]
    by_cases hsame : name' = name
    · have hstated : ∀ {v w : Json}, v.IsWord → w.IsWord → (Parts.orPrevious v w).IsWord := by
        intro v w hv hw
        unfold Parts.orPrevious
        split
        · exact hw
        · exact hv
      refine .inl ⟨_, by rw [Parts.mergeContainer, if_pos (halike.2 hsame)], ?_⟩
      refine ⟨⟨hname', hstated hmin hmin', hstated hmax hmax'⟩,
        ⟨b, List.mem_append_left _ hb, hcontainer⟩, List.forall_mem_append.2 ⟨hquery, ?_⟩⟩
      simp [Atom.containerName?, Atom.IsStyle, hsame]
    · refine .inr ⟨by rw [Parts.mergeContainer, if_neg (halike.not.2 hsame)], ?_⟩
      exact mixesContainers_concat hb hcontainer rfl
        (.inr (.inr ⟨name', (hquery b hb hcontainer).1, name, rfl, hsame⟩))

/-- A style query stands alone, or has spoiled the alternative. -/
theorem style_cases (h : Covers atoms c) (name condition : Json) :
    c = none ∧ Covers (atoms ++ [.containerStyle name condition]) (some (.style name condition)) ∨
      c ≠ none ∧ MixesContainers (atoms ++ [.containerStyle name condition]) := by
  cases c with
  | none =>
    refine .inl ⟨rfl, ?_⟩
    have hnone : atoms.filter Atom.isContainer = [] :=
      List.filter_eq_nil_iff.2 fun a ha => by simp [h a ha]
    show (atoms ++ [Atom.containerStyle name condition]).filter Atom.isContainer = _
    rw [List.filter_append, hnone]
    rfl
  | some part =>
    obtain ⟨b, hb, hcontainer⟩ := h.exists_isContainer_iff.2 rfl
    exact .inr ⟨by simp, mixesContainers_concat hb hcontainer rfl (.inr (.inl trivial))⟩

end Covers

/-! ## 4. Taking the atoms in -/

/-- What has been gathered from some atoms. -/
structure Gathers (atoms : List Atom) (p : Parts) : Prop where
  min : IsLast (atoms.map Atom.widthMin) p.min
  max : IsLast (atoms.map Atom.widthMax) p.max
  features : p.features ≠ [] ↔ ∃ a ∈ atoms, a.IsFeature
  supports : p.supports = atoms.flatMap Atom.supportsTexts
  covers : Covers atoms p.container

namespace Gathers

variable {atoms : List Atom} {p : Parts}

theorem nil : Gathers [] {} where
  min := .nil
  max := .nil
  features := by simp
  supports := rfl
  covers := by simp [Covers]

/-- An atom is taken in, or it is one test on a container too many. -/
theorem add (h : Gathers atoms p) {a : Atom} (ha : a.IsTyped) :
    (∃ q, p.add a = .ok q ∧ Gathers (atoms ++ [a]) q) ∨
      p.add a = .error .severalContainers ∧ MixesContainers (atoms ++ [a]) := by
  -- what an atom says nothing about stays as it is
  have hmin : a.widthMin = .null → IsLast ((atoms ++ [a]).map Atom.widthMin) p.min := by
    intro hnull
    rw [List.map_append, List.map_singleton, hnull]
    exact h.min.concat_null
  have hmax : a.widthMax = .null → IsLast ((atoms ++ [a]).map Atom.widthMax) p.max := by
    intro hnull
    rw [List.map_append, List.map_singleton, hnull]
    exact h.max.concat_null
  have hfeatures : ¬a.IsFeature → (p.features ≠ [] ↔ ∃ b ∈ atoms ++ [a], b.IsFeature) := by
    intro hother
    rw [h.features]
    simp [or_and_right, exists_or, hother]
  have hsupports : a.supportsTexts = [] →
      p.supports = (atoms ++ [a]).flatMap Atom.supportsTexts := by
    intro hnone
    rw [h.supports]
    simp [hnone]
  cases a with
  | width lower upper =>
    obtain ⟨lo, hlo, hlast⟩ := h.min.exists_concat ha.1
    obtain ⟨hi, hhi, hlast'⟩ := h.max.exists_concat ha.2
    refine .inl ⟨{ p with min := lo, max := hi }, ?_, ?_, ?_, hfeatures (by simp [Atom.IsFeature]),
      hsupports rfl, h.covers.concat rfl⟩
    · have hrun : p.add (.width lower upper) =
          (if lower.isNull then pure p.min else bound lower) >>= fun lo =>
            (if upper.isNull then pure p.max else bound upper) >>= fun hi =>
              pure { p with min := lo, max := hi } := by
        simp only [Parts.add]
        split <;> split <;> rfl
      rw [hrun, hlo, hhi]
      rfl
    · simpa [Atom.widthMin] using hlast
    · simpa [Atom.widthMax] using hlast'
  | feature name value =>
    obtain ⟨⟨n, rfl⟩, v, rfl⟩ := ha
    refine .inl ⟨_, rfl, hmin rfl, hmax rfl, ?_, hsupports rfl, h.covers.concat rfl⟩
    refine iff_of_true (by simp) ⟨_, List.mem_append_right atoms (List.mem_singleton_self _), ?_⟩
    trivial
  | supports condition =>
    obtain ⟨s, rfl⟩ := ha
    refine .inl ⟨_, rfl, hmin rfl, hmax rfl, hfeatures (by simp [Atom.IsFeature]), ?_,
      h.covers.concat rfl⟩
    simp [h.supports, Atom.supportsTexts]
  | container name lower upper axis =>
    rcases h.covers.mergeContainer_cases ha with ⟨part, hpart, hcovers⟩ | ⟨herror, hmixed⟩
    · refine .inl ⟨{ p with container := some part }, ?_, hmin rfl, hmax rfl,
        hfeatures (by simp [Atom.IsFeature]), hsupports rfl, hcovers⟩
      rw [Parts.add, hpart]
      rfl
    · refine .inr ⟨?_, hmixed⟩
      rw [Parts.add, herror]
      rfl
  | containerStyle name condition =>
    rcases h.covers.style_cases name condition with ⟨hnone, hcovers⟩ | ⟨hsome, hmixed⟩
    · refine .inl ⟨{ p with container := some (.style name condition) }, ?_, hmin rfl, hmax rfl,
        hfeatures (by simp [Atom.IsFeature]), hsupports rfl, hcovers⟩
      rw [Parts.add, hnone]
    · refine .inr ⟨?_, hmixed⟩
      obtain ⟨part, hpart⟩ := Option.ne_none_iff_exists'.1 hsome
      rw [Parts.add, hpart]

/-- All atoms are taken in, or there is one test on a container too many. -/
theorem ofAtoms_cases (h : ∀ a ∈ atoms, a.IsTyped) :
    (∃ p, Parts.ofAtoms atoms = .ok p ∧ Gathers atoms p) ∨
      Parts.ofAtoms atoms = .error .severalContainers ∧ MixesContainers atoms := by
  induction atoms using List.reverseRecOn with
  | nil => exact .inl ⟨{}, rfl, .nil⟩
  | append_singleton atoms a ih =>
    obtain ⟨hatoms, ha⟩ := List.forall_mem_append.1 h
    have hrun : Parts.ofAtoms (atoms ++ [a]) = Parts.ofAtoms atoms >>= fun p => p.add a := by
      simp [Parts.ofAtoms, List.foldlM_append]
    rw [hrun]
    rcases ih hatoms with ⟨p, hp, hgathers⟩ | ⟨herror, hmixed⟩
    · rw [hp]
      exact hgathers.add (ha a (List.mem_singleton_self a))
    · rw [herror]
      exact .inr ⟨rfl, hmixed.append [a]⟩

/-- The viewport is asked for something exactly if some atom does so. -/
theorem asksMedia_iff (h : Gathers atoms p) : p.asksMedia = true ↔ AsksViewport atoms := by
  have hsome : ∀ v : Json, (!v.isNull) = true ↔ v ≠ .null := by
    intro v
    rw [Bool.not_eq_true', ← Bool.not_eq_true, Json.isNull_iff]
  have hfilled : (!p.features.isEmpty) = true ↔ p.features ≠ [] := by simp
  rw [Parts.asksMedia, Bool.or_eq_true, Bool.or_eq_true, hsome, hsome, hfilled, h.min.ne_null_iff,
    h.max.ne_null_iff, h.features, AsksViewport]
  exact or_comm

end Gathers

end Descriptor

end StyleLedger
