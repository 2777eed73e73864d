import StyleLedger.Proofs.Descriptor.Gathering

/-!
Which conditions come to wrappers, and what wrappers they come to.

A condition is refused for one of three reasons: it has several alternatives and a test on a
container in one of them, its one alternative has several tests on containers that are not tests on
the size of one, or its one alternative is about a container and the viewport. In every other case
there is one wrapper for each alternative, or none where the alternative asks for nothing, and each
wrapper is well formed for its kind (`ofCondition_refused_or_wellFormed`).

* `IsWellFormed` — the wrappers that a style sheet and a store can rely on.
* `IsRefused` — the reasons, in the order in which they count.
-/

namespace StyleLedger

open Outcome

namespace Descriptor

/-! ## 1. Wrappers -/

/-- No test is on a container, none asks for anything of the viewport, and the feature queries are
without a text. -/
def AsksNothing (atoms : List Atom) : Prop :=
  (∀ a ∈ atoms, a.isContainer = false) ∧ ¬AsksViewport atoms ∧
    " and ".intercalate (atoms.flatMap Atom.supportsTexts) = ""

/-- The one name of all tests on containers. -/
def IsCommonName (atoms : List Atom) (name : Json) : Prop :=
  (∃ a ∈ atoms, a.containerName? = some name) ∧ ∀ a ∈ atoms, ∀ n ∈ a.containerName?, n = name

/-- What a wrapper of its kind holds, if it has come from some atoms. -/
def Suits (atoms : List Atom) (d : Descriptor) : Prop :=
  match d.kind with
  | .media =>
    (d.min ≠ .null ∨ d.max ≠ .null ∨ d.features ≠ []) ∧
      d.name = .null ∧ d.axis = .null ∧ d.condition = .null
  | .container => IsCommonName atoms d.name ∧ d.features = [] ∧ d.condition = .null
  | .containerStyle =>
    IsCommonName atoms d.name ∧ d.features = [] ∧ d.condition.IsString ∧
      d.min = .null ∧ d.max = .null ∧ d.axis = .null
  | .supports => ∃ s, s ≠ "" ∧ d = { kind := .supports, condition := .text s }
  | .other _ => False

/-- The line that opens the feature query around a wrapper of another kind. -/
def supportsHeaders (d : Descriptor) : List String :=
  match d.supports with
  | .text s => ["@supports " ++ s ++ " \x7b"]
  | _ => []

/-- The feature query around a wrapper: none, or one with a text. -/
def IsQuery (v : Json) : Prop :=
  v = .null ∨ ∃ s, v = .text s ∧ s ≠ ""

/-- A wrapper that is well formed for its kind. -/
structure IsWellFormed (atoms : List Atom) (d : Descriptor) : Prop where
  suits : Suits atoms d
  min : IsLimit d.min
  max : IsLimit d.max
  supports : IsQuery d.supports
  /-- It can be written, and is: the wrapper of its kind, inside the feature query if there is
  one. -/
  writable : d.isWritable = true
  headers : ∃ own, d.ownWrapper = some own ∧
    headers (some d) = supportsHeaders d ++ [own ++ " \x7b"]

theorem IsLimit.isTrue_iff {b : Json} (h : IsLimit b) : b.isTrue = true ↔ b ≠ .null := by
  rcases h with rfl | ⟨s, rfl, hs, -⟩
  · simp [Json.isTrue]
  · simp [Json.isTrue, hs]

/-- A bound of a wrapper becomes a test on a size. -/
theorem sizeTests_ne_nil {d : Descriptor} (hmin : IsLimit d.min) (hmax : IsLimit d.max)
    (h : d.min ≠ .null ∨ d.max ≠ .null) (size : String) : d.sizeTests size ≠ [] := by
  simp only [sizeTests]
  rcases h with h | h
  · simp [hmin.isTrue_iff.2 h]
  · simp [hmax.isTrue_iff.2 h]

theorem headers_of_ownWrapper {d : Descriptor} {own : String} (hown : d.ownWrapper = some own)
    (hsupports : IsQuery d.supports) :
    headers (some d) = supportsHeaders d ++ [own ++ " \x7b"] := by
  rcases hsupports with hnull | ⟨s, htext, hs⟩
  · simp [headers, wrappersOf, wrappers, supportsHeaders, hown, hnull, Json.isTrue]
  · simp [headers, wrappersOf, wrappers, supportsHeaders, hown, htext, hs, Json.isTrue]

namespace Gathers

variable {atoms : List Atom} {p : Parts}

/-- The feature query of an alternative is left out if it has no text. -/
theorem supportsText_cases (h : Gathers atoms p) :
    p.supportsText = .null ∧ " and ".intercalate (atoms.flatMap Atom.supportsTexts) = "" ∨
      ∃ s, p.supportsText = .text s ∧ s ≠ "" ∧
        " and ".intercalate (atoms.flatMap Atom.supportsTexts) = s := by
  rw [Parts.supportsText, h.supports]
  by_cases hempty : " and ".intercalate (atoms.flatMap Atom.supportsTexts) = ""
  · exact .inl ⟨by simp [hempty, Json.textOrNull], hempty⟩
  · exact .inr ⟨_, by simp [Text.nonEmpty?, hempty, Json.textOrNull], hempty, rfl⟩

theorem isQuery_supportsText (h : Gathers atoms p) : IsQuery p.supportsText :=
  h.supportsText_cases.imp And.left fun ⟨s, hs, hne, _⟩ => ⟨s, hs, hne⟩

/-- An alternative on a container does not ask for nothing. -/
theorem not_asksNothing (h : Gathers atoms p) {c : ContainerPart} (hc : p.container = some c) :
    ¬AsksNothing atoms := by
  rintro ⟨hnone, -⟩
  obtain ⟨a, ha, hcontainer⟩ := h.covers.exists_isContainer_iff.2 (by rw [hc]; rfl)
  simp [hnone a ha] at hcontainer

/-- A style query has a well-formed wrapper. -/
theorem isWellFormed_style (h : Gathers atoms p) (htyped : ∀ a ∈ atoms, a.IsTyped)
    {name condition : Json} (hc : p.container = some (.style name condition)) :
    IsWellFormed atoms
      { kind := .containerStyle, name, condition, supports := p.supportsText } := by
  have hcovers : atoms.filter Atom.isContainer = [.containerStyle name condition] := by
    have hcovers := h.covers
    rw [hc] at hcovers
    exact hcovers
  have hmem : Atom.containerStyle name condition ∈ atoms := by
    refine List.mem_of_mem_filter (p := Atom.isContainer) ?_
    rw [hcovers]
    exact List.mem_singleton_self _
  obtain ⟨t, rfl⟩ := (htyped _ hmem).2
  have hname : IsCommonName atoms name := by
    refine ⟨⟨_, hmem, rfl⟩, fun a ha n hn => ?_⟩
    have hfilter : a ∈ atoms.filter Atom.isContainer :=
      List.mem_filter.2 ⟨ha, Atom.isContainer_iff.2 ⟨n, hn⟩⟩
    rw [hcovers, List.mem_singleton] at hfilter
    rw [hfilter] at hn
    exact (Option.some.inj hn).symm
  exact
    { suits := ⟨hname, rfl, ⟨t, rfl⟩, rfl, rfl, rfl⟩
      min := .inl rfl
      max := .inl rfl
      supports := h.isQuery_supportsText
      writable := by simp [isWritable, Json.isText]
      headers := ⟨_, rfl, headers_of_ownWrapper rfl h.isQuery_supportsText⟩ }

/-- Tests on the size of a container have a well-formed wrapper. -/
theorem isWellFormed_query (h : Gathers atoms p) {name min max axis lo hi : Json}
    (hc : p.container = some (.query name min max axis)) (hlo : IsLimit lo) (hhi : IsLimit hi) :
    IsWellFormed atoms
      { kind := .container, name, min := lo, max := hi, axis, supports := p.supportsText } := by
  obtain ⟨-, ⟨b, hb, hcontainer⟩, hquery⟩ : Covers atoms (some (.query name min max axis)) := by
    rw [← hc]
    exact h.covers
  have hname : IsCommonName atoms name := by
    refine ⟨⟨b, hb, (hquery b hb hcontainer).1⟩, fun a ha n hn => ?_⟩
    have hcommon := (hquery a ha (Atom.isContainer_iff.2 ⟨n, hn⟩)).1
    exact Option.some.inj (hn.symm.trans hcommon)
  exact
    { suits := ⟨hname, rfl, rfl⟩
      min := hlo
      max := hhi
      supports := h.isQuery_supportsText
      writable := rfl
      headers := ⟨_, rfl, headers_of_ownWrapper rfl h.isQuery_supportsText⟩ }

/-- Tests on the viewport have a well-formed wrapper. -/
theorem isWellFormed_media (h : Gathers atoms p) (hasks : p.asksMedia = true) :
    IsWellFormed atoms
      { kind := .media, min := p.min, max := p.max, features := p.features,
        supports := p.supportsText } := by
  have hfilled : p.min ≠ .null ∨ p.max ≠ .null ∨ p.features ≠ [] := by
    rcases h.asksMedia_iff.1 hasks with hfeature | hmin | hmax
    · exact .inr (.inr (h.features.2 hfeature))
    · exact .inl (h.min.ne_null_iff.2 hmin)
    · exact .inr (.inl (h.max.ne_null_iff.2 hmax))
  have hown : ∃ own, ownWrapper
      { kind := .media, min := p.min, max := p.max, features := p.features,
        supports := p.supportsText } = some own := by
    have htests : sizeTests
        { kind := .media, min := p.min, max := p.max, features := p.features,
          supports := p.supportsText } "width" ++ p.features ≠ [] := by
      intro hnil
      obtain ⟨hsizes, hnone⟩ := List.append_eq_nil_iff.1 hnil
      have hbound : p.min ≠ .null ∨ p.max ≠ .null := by
        rcases hfilled with hmin | hmax | hfeature
        · exact .inl hmin
        · exact .inr hmax
        · exact absurd hnone hfeature
      exact sizeTests_ne_nil h.min.isLimit h.max.isLimit hbound "width" hsizes
    obtain ⟨test, tests, heq⟩ := List.exists_cons_of_ne_nil htests
    exact ⟨_, by rw [ownWrapper]; simp only [heq]; rfl⟩
  obtain ⟨own, hown⟩ := hown
  exact
    { suits := ⟨hfilled, rfl, rfl, rfl⟩
      min := h.min.isLimit
      max := h.max.isLimit
      supports := h.isQuery_supportsText
      writable := rfl
      headers := ⟨own, hown, headers_of_ownWrapper hown h.isQuery_supportsText⟩ }

/-- What has been gathered comes to a well-formed wrapper, or to none if nothing is asked for, or
else a container stands beside the viewport. -/
theorem descriptor_cases (h : Gathers atoms p) (htyped : ∀ a ∈ atoms, a.IsTyped) :
    (p.descriptor = .error .mediaWithContainer ∧ MixesViewport atoms) ∨
      ∃ d, p.descriptor = .ok d ∧ ¬MixesViewport atoms ∧ (d = none ↔ AsksNothing atoms) ∧
        ∀ x ∈ d, IsWellFormed atoms x := by
  have hwrapper : ∀ {d : Descriptor}, IsWellFormed atoms d →
      ∀ x ∈ some d, IsWellFormed atoms x := by
    intro d hd x hx
    obtain rfl := Option.some.inj hx
    exact hd
  cases hc : p.container with
  | some c =>
    have hcontainer := h.covers.exists_isContainer_iff.2 (by rw [hc]; rfl)
    have hsome : ∀ x : Descriptor, some x = none ↔ AsksNothing atoms := fun x =>
      iff_of_false (by simp) (h.not_asksNothing hc)
    by_cases hasks : p.asksMedia = true
    · refine .inl ⟨?_, hcontainer, h.asksMedia_iff.1 hasks⟩
      rw [Parts.descriptor, hc]
      exact if_pos hasks
    · have hnot : ¬MixesViewport atoms := fun hmixes => hasks (h.asksMedia_iff.2 hmixes.2)
      cases c with
      | style name condition =>
        refine .inr ⟨_, ?_, hnot, hsome _,
          hwrapper (h.isWellFormed_style htyped hc)⟩
        rw [Parts.descriptor, hc]
        exact if_neg hasks
      | query name min max axis =>
        obtain ⟨⟨-, hmin, hmax⟩, -⟩ : Covers atoms (some (.query name min max axis)) := by
          rw [← hc]
          exact h.covers
        obtain ⟨lo, hlo, hlimit, -⟩ := exists_limit hmin
        obtain ⟨hi, hhi, hlimit', -⟩ := exists_limit hmax
        refine .inr ⟨_, ?_, hnot, hsome _,
          hwrapper (h.isWellFormed_query hc hlimit hlimit')⟩
        rw [Parts.descriptor, hc]
        refine (if_neg hasks).trans ?_
        simp only [hlo, hhi]
        rfl
  | none =>
    have hnone : ∀ a ∈ atoms, a.isContainer = false := by
      have hcovers := h.covers
      rw [hc] at hcovers
      exact hcovers
    have hnot : ¬MixesViewport atoms := by
      rintro ⟨⟨a, ha, hcontainer⟩, -⟩
      simp [hnone a ha] at hcontainer
    refine .inr ?_
    by_cases hasks : p.asksMedia = true
    · refine ⟨_, ?_, hnot, iff_of_false (by simp) ?_,
        hwrapper (h.isWellFormed_media hasks)⟩
      · rw [Parts.descriptor, hc]
        exact if_pos hasks
      · exact fun hnothing => hnothing.2.1 (h.asksMedia_iff.1 hasks)
    · have hquiet : ¬AsksViewport atoms := fun hviewport => hasks (h.asksMedia_iff.2 hviewport)
      rcases h.supportsText_cases with ⟨hnull, hempty⟩ | ⟨s, htext, hs, hjoined⟩
      · refine ⟨none, ?_, hnot, iff_of_true rfl ⟨hnone, hquiet, hempty⟩, by simp⟩
        rw [Parts.descriptor, hc]
        exact (if_neg hasks).trans (if_pos (by rw [hnull]; rfl))
      · refine ⟨some { kind := .supports, condition := .text s }, ?_, hnot,
          iff_of_false (by simp) fun hnothing => hs (hjoined.symm.trans hnothing.2.2),
          hwrapper ?_⟩
        · rw [Parts.descriptor, hc]
          refine (if_neg hasks).trans ?_
          rw [htext]
          rfl
        · exact
            { suits := ⟨s, hs, rfl⟩
              min := .inl rfl
              max := .inl rfl
              supports := .inl rfl
              writable := rfl
              headers := ⟨_, rfl, headers_of_ownWrapper rfl (.inl rfl)⟩ }

end Gathers

/-- An alternative is refused for one of two reasons, and has a well-formed wrapper, or none, in
every other case. -/
theorem ofAtoms_cases {atoms : List Atom} (h : ∀ a ∈ atoms, a.IsTyped) :
    (ofAtoms atoms = .error .severalContainers ∧ MixesContainers atoms) ∨
      (ofAtoms atoms = .error .mediaWithContainer ∧ ¬MixesContainers atoms ∧
        MixesViewport atoms) ∨
      ∃ d, ofAtoms atoms = .ok d ∧ ¬MixesContainers atoms ∧ ¬MixesViewport atoms ∧
        (d = none ↔ AsksNothing atoms) ∧ ∀ x ∈ d, IsWellFormed atoms x := by
  rcases Gathers.ofAtoms_cases h with ⟨p, hp, hgathers⟩ | ⟨herror, hmixed⟩
  · have hrun : ofAtoms atoms = p.descriptor := by
      rw [ofAtoms, hp]
      rfl
    have hapart := hgathers.covers.not_mixesContainers
    rw [hrun]
    rcases hgathers.descriptor_cases h with ⟨herror, hmixed⟩ | ⟨d, hd, hnot, hrest⟩
    · exact .inr (.inl ⟨herror, hapart, hmixed⟩)
    · exact .inr (.inr ⟨d, hd, hapart, hnot, hrest⟩)
  · refine .inl ⟨?_, hmixed⟩
    rw [ofAtoms, herror]
    rfl

/-! ## 2. Conditions -/

/-- Why a condition is refused. Alternatives on containers come first, then the tests on containers
of a single alternative, then its tests on the viewport. -/
def IsRefused (c : Condition) : CompositionError → Prop
  | .containerAlternatives =>
    2 ≤ c.alternatives.length ∧ ∃ conj ∈ c.alternatives, ∃ a ∈ conj, a.isContainer = true
  | .severalContainers => ∃ conj, c.alternatives = [conj] ∧ MixesContainers conj
  | .mediaWithContainer =>
    ∃ conj, c.alternatives = [conj] ∧ ¬MixesContainers conj ∧ MixesViewport conj
  | .notText => False

theorem MixesContainers.exists_isContainer {atoms : List Atom} (h : MixesContainers atoms) :
    ∃ a ∈ atoms, a.isContainer = true := by
  obtain ⟨hcount, -⟩ := h
  exact List.countP_pos_iff.1 (by omega)

variable {c : Condition}

/-- A condition that there is a reason against is refused for that reason. -/
theorem ofCondition_of_isRefused (h : ∀ conj ∈ c.alternatives, ∀ a ∈ conj, a.IsTyped)
    {e : CompositionError} (he : IsRefused c e) : ofCondition (some c) = .error e := by
  have hsingle : ∀ conj, c.alternatives = [conj] → ofAtoms conj = .error e →
      ofCondition (some c) = .error e := by
    intro conj halone herror
    simp [ofCondition, halone, herror, bind, Except.bind]
  cases e with
  | containerAlternatives =>
    obtain ⟨hlength, hcontainer⟩ := he
    refine if_pos ?_
    rw [Bool.and_eq_true, decide_eq_true_eq]
    exact ⟨hlength, by simpa using hcontainer⟩
  | severalContainers =>
    obtain ⟨conj, halone, hmixes⟩ := he
    refine hsingle conj halone ?_
    rcases ofAtoms_cases (h conj (by simp [halone])) with
      ⟨herror, -⟩ | ⟨-, hnot, -⟩ | ⟨_, -, hnot, -⟩
    · exact herror
    · exact absurd hmixes hnot
    · exact absurd hmixes hnot
  | mediaWithContainer =>
    obtain ⟨conj, halone, hapart, hmixes⟩ := he
    refine hsingle conj halone ?_
    rcases ofAtoms_cases (h conj (by simp [halone])) with
      ⟨-, hmixed⟩ | ⟨herror, -⟩ | ⟨_, -, -, hnot, -⟩
    · exact absurd hmixed hapart
    · exact herror
    · exact absurd hmixes hnot
  | notText => exact he.elim

/-- A condition that there is no reason against has a well-formed wrapper, or none, for each
alternative. -/
theorem exists_ofCondition (h : ∀ conj ∈ c.alternatives, ∀ a ∈ conj, a.IsTyped)
    (hnot : ∀ e, ¬IsRefused c e) :
    ∃ ds, ofCondition (some c) = .ok ds ∧ List.Forall₂ (fun conj d =>
      (d = none ↔ AsksNothing conj) ∧ ∀ x ∈ d, IsWellFormed conj x) c.alternatives ds := by
  have hspread : 1 < c.alternatives.length →
      ∀ conj ∈ c.alternatives, ∀ a ∈ conj, a.isContainer = false := by
    intro hlength conj hconj a ha
    rw [← Bool.not_eq_true]
    intro hcontainer
    exact hnot .containerAlternatives ⟨hlength, conj, hconj, a, ha, hcontainer⟩
  -- an alternative on a container is the only one
  have halone : ∀ conj ∈ c.alternatives, (∃ a ∈ conj, a.isContainer = true) →
      c.alternatives = [conj] := by
    rintro conj hconj ⟨a, ha, hcontainer⟩
    match halternatives : c.alternatives with
    | [] => simp [halternatives] at hconj
    | [only] => rw [halternatives, List.mem_singleton] at hconj; rw [hconj]
    | first :: second :: more =>
      have hfalse := hspread (by simp [halternatives]) conj hconj a ha
      simp [hfalse] at hcontainer
  have hgood : ∀ conj ∈ c.alternatives, ∃ d, ofAtoms conj = .ok d ∧
      (d = none ↔ AsksNothing conj) ∧ ∀ x ∈ d, IsWellFormed conj x := by
    intro conj hconj
    rcases ofAtoms_cases (h conj hconj) with
      ⟨-, hmixed⟩ | ⟨-, hapart, hmixed⟩ | ⟨d, hd, -, -, hwell⟩
    · exact (hnot .severalContainers
        ⟨conj, halone conj hconj hmixed.exists_isContainer, hmixed⟩).elim
    · exact (hnot .mediaWithContainer ⟨conj, halone conj hconj hmixed.1, hapart, hmixed⟩).elim
    · exact ⟨d, hd, hwell⟩
  obtain ⟨ds, hds⟩ := exists_mapM_iff.2 fun conj hconj =>
    (hgood conj hconj).imp fun _ hd => hd.1
  have hboth := mapM_eq_ok_iff.1 hds
  refine ⟨ds, ofCondition_eq_ok_iff.2 ⟨hspread, hboth⟩, ?_⟩
  refine (List.forall₂_and_left _ _).2 ⟨hgood, hboth⟩ |>.imp fun conj d hpair => ?_
  obtain ⟨⟨d', hd', hwell⟩, hd⟩ := hpair
  obtain rfl : d' = d := Except.ok.inj (hd'.symm.trans hd)
  exact hwell

/-- A condition is refused exactly for the reasons that there are against it: it has several
alternatives and a test on a container in one of them, or its one alternative has tests on
containers that do not go together, or one beside a test on the viewport. In every other case each
alternative has a wrapper that is well formed for its kind, or none if it asks for nothing. -/
theorem ofCondition_refused_or_wellFormed (h : ∀ a ∈ c.atoms, a.IsTyped) :
    ((∃ e, ofCondition (some c) = .error e) ↔
      (2 ≤ c.alternatives.length ∧ ∃ conj ∈ c.alternatives, ∃ a ∈ conj, a.isContainer = true) ∨
        ∃ conj, c.alternatives = [conj] ∧ (MixesContainers conj ∨ MixesViewport conj)) ∧
    (∀ e, ofCondition (some c) = .error e ↔ IsRefused c e) ∧
    ∀ ds, ofCondition (some c) = .ok ds → List.Forall₂ (fun conj d =>
      (d = none ↔ AsksNothing conj) ∧ ∀ x ∈ d, IsWellFormed conj x) c.alternatives ds := by
  have htyped : ∀ conj ∈ c.alternatives, ∀ a ∈ conj, a.IsTyped := fun conj hconj a ha =>
    h a ((Condition.sublist_atoms conj hconj).subset ha)
  have hexact : ∀ e, ofCondition (some c) = .error e ↔ IsRefused c e := by
    intro e
    refine ⟨fun herror => ?_, ofCondition_of_isRefused htyped⟩
    by_cases hnot : ∀ e, ¬IsRefused c e
    · obtain ⟨ds, hds, -⟩ := exists_ofCondition htyped hnot
      simp [hds] at herror
    · obtain ⟨e', he'⟩ := not_forall_not.1 hnot
      have herror' := ofCondition_of_isRefused htyped he'
      obtain rfl : e' = e := Except.error.inj (herror'.symm.trans herror)
      exact he'
  refine ⟨?_, hexact, fun ds hds => ?_⟩
  · simp only [hexact]
    constructor
    · rintro ⟨e, he⟩
      cases e with
      | containerAlternatives => exact .inl he
      | severalContainers => exact .inr (he.imp fun conj hconj => ⟨hconj.1, .inl hconj.2⟩)
      | mediaWithContainer => exact .inr (he.imp fun conj hconj => ⟨hconj.1, .inr hconj.2.2⟩)
      | notText => exact he.elim
    · rintro (hspread | ⟨conj, halone, hmixed⟩)
      · exact ⟨.containerAlternatives, hspread⟩
      · by_cases hcontainers : MixesContainers conj
        · exact ⟨.severalContainers, conj, halone, hcontainers⟩
        · exact ⟨.mediaWithContainer, conj, halone, hcontainers, hmixed.resolve_left hcontainers⟩
  · have hnot : ∀ e, ¬IsRefused c e := by
      intro e he
      have herror := ofCondition_of_isRefused htyped he
      simp [hds] at herror
    obtain ⟨ds', hds', hwell⟩ := exists_ofCondition htyped hnot
    obtain rfl : ds' = ds := Except.ok.inj (hds'.symm.trans hds)
    exact hwell

/-- Two bounds on one container within a feature query, and a bound on the viewport that an infinite
one takes away; and the same with a bound on the viewport that stays. -/
theorem ofCondition_refused_or_wellFormed_card :
    let limited (bound : String) : Condition :=
      .all [.atom (.container (.text "card") (.text "400px") .null .null),
        .any [.atom (.supports (.text "(display: grid)"))], .atom (.width (.text "600px") .null),
        .atom (.container (.text "card") .null (.text " inf ") (.text "inline")),
        .atom (.width (.text bound) .null)]
    let card : Descriptor :=
      { kind := .container, name := .text "card", min := .text "400px", axis := .text "inline",
        supports := .text "(display: grid)" }
    (ofCondition (some (limited "INF")) = .ok [some card] ∧
      (∃ atoms, IsWellFormed atoms card) ∧ headers (some card) =
        ["@supports (display: grid) \x7b", "@container card (min-inline-size: 400px) \x7b"]) ∧
    ∃ e, ofCondition (some (limited "500px")) = .error e := by
  intro limited card
  have htyped : ∀ bound, ∀ a ∈ (limited bound).atoms, a.IsTyped := by
    intro bound
    simp [limited, Condition.atoms, Condition.atomsOf, Atom.IsTyped, Json.isString_text,
      Json.isWord_text, Json.isWord_null]
  have hrun : ofCondition (some (limited "INF")) = .ok [some card] := by decide +kernel
  refine ⟨⟨hrun, ?_, by decide +kernel⟩, ?_⟩
  · have hwell := (ofCondition_refused_or_wellFormed (htyped "INF")).2.2 _ hrun
    cases hwell with
    | cons hcard _ => exact ⟨_, hcard.2 card rfl⟩
  · refine (ofCondition_refused_or_wellFormed (htyped "500px")).1.2 (.inr ⟨_, rfl, .inr ?_⟩)
    refine ⟨⟨_, List.mem_cons_self, rfl⟩, .inr (.inl ⟨"500px", rfl, ?_, ?_⟩)⟩ <;> decide +kernel

end Descriptor

end StyleLedger
