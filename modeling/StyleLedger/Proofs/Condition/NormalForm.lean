import StyleLedger.Proofs.Descriptor.Bounds
import Mathlib.Data.List.Lex
import Mathlib.Data.Prod.Lex

/-!
The alternatives of a condition are its disjunctive normal form.

What a condition means is said on the tree (`Holds`), and so is which alternatives it ought to have:
a *way* to meet a condition says for every disjunction on the path which part is met, and `Picks`
says which atoms that takes. Ways are ordered from left to right, those of a conjunction like the
words of a dictionary. The expansion lists the atoms of every way, once each and in that order
(`enumerates_alternatives`), so nothing is lost, added or moved; that it means the same is a
separate induction over the tree and its lists of parts (`holds_iff`).

* `Condition.Holds` — the meaning of a condition, given which atoms are true.
* `Condition.Way`, `Way.Before`, `Picks` — the ways to meet a condition, and their order.
* `alternatives_normalForm` — the expansion, and the descriptors that come of it.
-/

namespace StyleLedger

open Outcome

namespace Condition

/-! ## 1. Meaning -/

mutual

/-- Whether a condition holds when some atoms do. -/
def Holds (v : Atom → Prop) : Condition → Prop
  | atom a => v a
  | all parts => HoldAll v parts
  | any parts => HoldSome v parts

/-- Every part holds. -/
def HoldAll (v : Atom → Prop) : List Condition → Prop
  | [] => True
  | p :: ps => Holds v p ∧ HoldAll v ps

/-- Some part holds. -/
def HoldSome (v : Atom → Prop) : List Condition → Prop
  | [] => False
  | p :: ps => Holds v p ∨ HoldSome v ps

end

mutual

/-- The atoms of a condition, from left to right. -/
def atoms : Condition → List Atom
  | atom a => [a]
  | all parts | any parts => atomsOf parts

/-- The atoms of some conditions. -/
def atomsOf : List Condition → List Atom
  | [] => []
  | p :: ps => atoms p ++ atomsOf ps

end

/-- Some alternative has only true atoms. -/
def HoldsIn (v : Atom → Prop) (alternatives : List (List Atom)) : Prop :=
  ∃ conj ∈ alternatives, ∀ a ∈ conj, v a

section Meaning

variable (v : Atom → Prop)

theorem holdsIn_append (xs ys : List (List Atom)) :
    HoldsIn v (xs ++ ys) ↔ HoldsIn v xs ∨ HoldsIn v ys := by
  simp [HoldsIn, or_and_right, exists_or]

/-- One alternative of each of two lists, combined in all ways. -/
theorem holdsIn_product (xs ys : List (List Atom)) :
    HoldsIn v (xs.flatMap fun c => ys.map (c ++ ·)) ↔ HoldsIn v xs ∧ HoldsIn v ys := by
  constructor
  · rintro ⟨conj, hconj, hv⟩
    obtain ⟨first, hfirst, more, hmore, rfl⟩ :
        ∃ first ∈ xs, ∃ more ∈ ys, first ++ more = conj := by
      simpa [List.mem_flatMap] using hconj
    obtain ⟨hvfirst, hvmore⟩ := List.forall_mem_append.1 hv
    exact ⟨⟨first, hfirst, hvfirst⟩, more, hmore, hvmore⟩
  · rintro ⟨⟨first, hfirst, hvfirst⟩, more, hmore, hvmore⟩
    refine ⟨first ++ more, ?_, List.forall_mem_append.2 ⟨hvfirst, hvmore⟩⟩
    exact List.mem_flatMap.2 ⟨first, hfirst, List.mem_map_of_mem hmore⟩

mutual

/-- A condition holds exactly when all atoms of one of its alternatives do. -/
theorem holds_iff : ∀ c : Condition, c.Holds v ↔ HoldsIn v c.alternatives
  | .atom a => by simp [Holds, alternatives, HoldsIn]
  | .all parts => by simpa only [Holds, alternatives] using holdAll_iff parts
  | .any parts => by simpa only [Holds, alternatives] using holdSome_iff parts

theorem holdAll_iff : ∀ ps : List Condition, HoldAll v ps ↔ HoldsIn v (conjunctions ps)
  | [] => by simp [HoldAll, conjunctions, HoldsIn]
  | p :: ps => by
    rw [HoldAll, conjunctions, holdsIn_product, holds_iff p, holdAll_iff ps]

theorem holdSome_iff : ∀ ps : List Condition, HoldSome v ps ↔ HoldsIn v (disjunctions ps)
  | [] => by simp [HoldSome, disjunctions, HoldsIn]
  | p :: ps => by
    rw [HoldSome, disjunctions, holdsIn_append, holds_iff p, holdSome_iff ps]

end

end Meaning

/-! ## 2. Where the atoms come from -/

mutual

/-- An alternative is a part of the atoms of the condition, in their order. -/
theorem sublist_atoms : ∀ {c : Condition}, ∀ conj ∈ c.alternatives, conj.Sublist c.atoms
  | .atom a, conj, h => by
    rw [alternatives, List.mem_singleton] at h
    rw [h, atoms]
  | .all parts, conj, h => by
    rw [alternatives] at h
    exact sublist_atomsOf_of_mem_conjunctions conj h
  | .any parts, conj, h => by
    rw [alternatives] at h
    exact sublist_atomsOf_of_mem_disjunctions conj h

theorem sublist_atomsOf_of_mem_conjunctions : ∀ {ps : List Condition},
    ∀ conj ∈ conjunctions ps, conj.Sublist (atomsOf ps)
  | [], conj, h => by
    rw [conjunctions, List.mem_singleton] at h
    rw [h, atomsOf]
  | p :: ps, conj, h => by
    simp only [conjunctions, List.mem_flatMap, List.mem_map] at h
    obtain ⟨first, hfirst, more, hmore, rfl⟩ := h
    rw [atomsOf]
    exact (sublist_atoms first hfirst).append (sublist_atomsOf_of_mem_conjunctions more hmore)

theorem sublist_atomsOf_of_mem_disjunctions : ∀ {ps : List Condition},
    ∀ conj ∈ disjunctions ps, conj.Sublist (atomsOf ps)
  | [], conj, h => by simp [disjunctions] at h
  | p :: ps, conj, h => by
    rw [disjunctions, List.mem_append] at h
    rw [atomsOf]
    rcases h with h | h
    · exact (sublist_atoms conj h).trans (List.sublist_append_left _ _)
    · exact (sublist_atomsOf_of_mem_disjunctions conj h).trans (List.sublist_append_right _ _)

end

/-! ## 3. Ways -/

/-- A way to meet a condition: of a disjunction, the place of the part that is met and how it is; of
a conjunction, how each part is met. -/
inductive Way
  | atom
  | any (place : Nat) (way : Way)
  | all (ways : List Way)

/-- One way comes before another: by the place of the part where they choose differently, the first
such choice from the left. -/
inductive Way.Before : Way → Way → Prop
  | place {i j : Nat} {w w' : Way} : i < j → Before (.any i w) (.any j w')
  | within {i : Nat} {w w' : Way} : Before w w' → Before (.any i w) (.any i w')
  | all {ws ws' : List Way} : List.Lex Before ws ws' → Before (.all ws) (.all ws')

mutual

/-- No way comes before itself. -/
theorem Way.not_before_self : ∀ w : Way, ¬ w.Before w
  | .atom, h => nomatch h
  | .any i w, h => by
    cases h with
    | place hlt => exact Nat.lt_irrefl i hlt
    | within hw => exact not_before_self w hw
  | .all ws, h => by
    cases h with
    | all hws => exact not_lex_self ws hws

theorem Way.not_lex_self : ∀ ws : List Way, ¬ List.Lex Way.Before ws ws
  | [], h => nomatch h
  | w :: ws, h => by
    cases h with
    | rel hw => exact not_before_self w hw
    | cons hws => exact not_lex_self ws hws

end

mutual

/-- The atoms that a way to meet a condition takes. -/
inductive Picks : Condition → Way → List Atom → Prop
  | atom (a : Atom) : Picks (.atom a) .atom [a]
  | any {ps : List Condition} {i : Nat} {p : Condition} {w : Way} {conj : List Atom} :
    ps[i]? = some p → Picks p w conj → Picks (.any ps) (.any i w) conj
  | all {ps : List Condition} {ws : List Way} {conj : List Atom} :
    PicksEach ps ws conj → Picks (.all ps) (.all ws) conj

/-- The atoms that a way for each of some conditions takes. -/
inductive PicksEach : List Condition → List Way → List Atom → Prop
  | nil : PicksEach [] [] []
  | cons {p : Condition} {ps : List Condition} {w : Way} {ws : List Way}
    {conj more : List Atom} :
    Picks p w conj → PicksEach ps ws more → PicksEach (p :: ps) (w :: ws) (conj ++ more)

end

/-- The choices that a relation allows are listed in order, each with the atoms it takes. -/
structure Enumerates {α : Type} (before : α → α → Prop) (R : α → List Atom → Prop)
    (picks : List (α × List Atom)) : Prop where
  mem_iff : ∀ x conj, (x, conj) ∈ picks ↔ R x conj
  ordered : picks.Pairwise fun x y => before x.1 y.1

namespace Enumerates

variable {α β : Type} {before : α → α → Prop} {before' : β → β → Prop}
  {R : α → List Atom → Prop} {R' : β → List Atom → Prop}

/-- Choices that are made up of others, in the same order. -/
theorem map {picks : List (α × List Atom)} (h : Enumerates before R picks) (f : α → β)
    (hbefore : ∀ x y, before x y → before' (f x) (f y))
    (hR : ∀ y conj, R' y conj ↔ ∃ x, R x conj ∧ f x = y) :
    Enumerates before' R' (picks.map fun x => (f x.1, x.2)) := by
  refine ⟨fun y conj => ?_, ?_⟩
  · rw [hR, List.mem_map]
    constructor
    · rintro ⟨⟨x, conj'⟩, hx, heq⟩
      obtain ⟨rfl, rfl⟩ := Prod.mk.inj heq
      exact ⟨x, (h.mem_iff x conj').1 hx, rfl⟩
    · rintro ⟨x, hx, rfl⟩
      exact ⟨(x, conj), (h.mem_iff x conj).2 hx, rfl⟩
  · exact List.pairwise_map.2 (h.ordered.imp fun hxy => hbefore _ _ hxy)

end Enumerates

/-- The atoms that a way to meet the part at a place takes. -/
def PicksPart (ps : List Condition) (choice : Nat × Way) (conj : List Atom) : Prop :=
  ∃ p, ps[choice.1]? = some p ∧ Picks p choice.2 conj

theorem picksEach_cons_iff {p : Condition} {ps : List Condition} {ws : List Way}
    {conj : List Atom} : PicksEach (p :: ps) ws conj ↔
      ∃ w first ws' more, Picks p w first ∧ PicksEach ps ws' more ∧ w :: ws' = ws ∧
        first ++ more = conj := by
  constructor
  · intro h
    cases h with
    | cons hp hps => exact ⟨_, _, _, _, hp, hps, rfl, rfl⟩
  · rintro ⟨w, first, ws', more, hp, hps, rfl, rfl⟩
    exact .cons hp hps

/-- The ways of a conjunction: those of the first part, each with all ways of the others. -/
theorem Enumerates.cons {p : Condition} {ps : List Condition} {first : List (Way × List Atom)}
    {more : List (List Way × List Atom)} (hp : Enumerates Way.Before (Picks p) first)
    (hps : Enumerates (List.Lex Way.Before) (PicksEach ps) more) :
    Enumerates (List.Lex Way.Before) (PicksEach (p :: ps))
      (first.flatMap fun x => more.map fun y => (x.1 :: y.1, x.2 ++ y.2)) := by
  refine ⟨fun ws conj => ?_, List.pairwise_flatMap.2 ⟨fun x _ => ?_, ?_⟩⟩
  · rw [picksEach_cons_iff]
    simp only [List.mem_flatMap, List.mem_map, Prod.exists, Prod.mk.injEq]
    constructor
    · rintro ⟨w, c, hw, ws', d, hws, rfl, rfl⟩
      exact ⟨w, c, ws', d, (hp.mem_iff w c).1 hw, (hps.mem_iff ws' d).1 hws, rfl, rfl⟩
    · rintro ⟨w, c, ws', d, hw, hws, rfl, rfl⟩
      exact ⟨w, c, (hp.mem_iff w c).2 hw, ws', d, (hps.mem_iff ws' d).2 hws, rfl, rfl⟩
  · -- one way for the first part: the others decide
    exact List.pairwise_map.2 (hps.ordered.imp fun hlex => .cons hlex)
  · refine hp.ordered.imp fun hbefore a ha b hb => ?_
    obtain ⟨y, -, rfl⟩ := List.mem_map.1 ha
    obtain ⟨z, -, rfl⟩ := List.mem_map.1 hb
    exact .rel hbefore

/-- The ways of a disjunction: those of the first part, then those of the others, one place on. -/
theorem Enumerates.part {p : Condition} {ps : List Condition} {first : List (Way × List Atom)}
    {more : List ((Nat × Way) × List Atom)} (hp : Enumerates Way.Before (Picks p) first)
    (hps : Enumerates (Prod.Lex (· < ·) Way.Before) (PicksPart ps) more) :
    Enumerates (Prod.Lex (· < ·) Way.Before) (PicksPart (p :: ps))
      (first.map (fun x => ((0, x.1), x.2)) ++
        more.map fun y => ((y.1.1 + 1, y.1.2), y.2)) := by
  refine ⟨?_, List.pairwise_append.2 ⟨?_, ?_, ?_⟩⟩
  · rintro ⟨i, w⟩ conj
    simp only [List.mem_append, List.mem_map, Prod.exists, Prod.mk.injEq, PicksPart]
    cases i with
    | zero =>
      simp [hp.mem_iff]
    | succ i =>
      simp [hps.mem_iff, PicksPart]
  · exact List.pairwise_map.2 (hp.ordered.imp fun hbefore => .right 0 hbefore)
  · refine List.pairwise_map.2 (hps.ordered.imp fun hlex => ?_)
    rcases Prod.lex_def.1 hlex with hlt | ⟨heq, hbefore⟩
    · exact .left _ _ (Nat.succ_lt_succ hlt)
    · exact Prod.lex_def.2 (.inr ⟨congrArg (· + 1) heq, hbefore⟩)
  · intro a ha b hb
    obtain ⟨x, -, rfl⟩ := List.mem_map.1 ha
    obtain ⟨y, -, rfl⟩ := List.mem_map.1 hb
    exact .left _ _ (Nat.succ_pos _)

mutual

/-- The expansion lists the atoms of every way to meet a condition, in order. -/
theorem enumerates_alternatives : ∀ c : Condition, ∃ picks,
    Enumerates Way.Before (Picks c) picks ∧ c.alternatives = picks.map (·.2)
  | .atom a => by
    refine ⟨[(.atom, [a])], ⟨fun w conj => ?_, List.pairwise_singleton _ _⟩, rfl⟩
    constructor
    · intro h
      obtain ⟨rfl, rfl⟩ := Prod.mk.inj (List.mem_singleton.1 h)
      exact .atom a
    · intro h
      cases h
      exact List.mem_singleton_self _
  | .all ps => by
    obtain ⟨picks, hpicks, heq⟩ := enumerates_conjunctions ps
    refine ⟨_, hpicks.map Way.all (fun _ _ => .all) fun w conj => ⟨fun h => ?_, ?_⟩, ?_⟩
    · cases h with
      | all hws => exact ⟨_, hws, rfl⟩
    · rintro ⟨ws, hws, rfl⟩
      exact .all hws
    · rw [alternatives, heq, List.map_map]
      rfl
  | .any ps => by
    obtain ⟨picks, hpicks, heq⟩ := enumerates_disjunctions ps
    refine ⟨_, hpicks.map (fun x => Way.any x.1 x.2) (fun x y hlex => ?_)
      fun w conj => ⟨fun h => ?_, ?_⟩, ?_⟩
    · cases hlex with
      | left _ _ hlt => exact .place hlt
      | right _ hbefore => exact .within hbefore
    · cases h with
      | any hplace hp => exact ⟨(_, _), ⟨_, hplace, hp⟩, rfl⟩
    · rintro ⟨⟨i, w⟩, ⟨p, hplace, hp⟩, rfl⟩
      exact .any hplace hp
    · rw [alternatives, heq, List.map_map]
      rfl

theorem enumerates_conjunctions : ∀ ps : List Condition, ∃ picks,
    Enumerates (List.Lex Way.Before) (PicksEach ps) picks ∧ conjunctions ps = picks.map (·.2)
  | [] => by
    refine ⟨[([], [])], ⟨fun ws conj => ?_, List.pairwise_singleton _ _⟩, rfl⟩
    constructor
    · intro h
      obtain ⟨rfl, rfl⟩ := Prod.mk.inj (List.mem_singleton.1 h)
      exact .nil
    · intro h
      cases h
      exact List.mem_singleton_self _
  | p :: ps => by
    obtain ⟨first, hfirst, heqfirst⟩ := enumerates_alternatives p
    obtain ⟨more, hmore, heqmore⟩ := enumerates_conjunctions ps
    refine ⟨_, hfirst.cons hmore, ?_⟩
    rw [conjunctions, heqfirst, heqmore]
    simp [List.flatMap_map, List.map_flatMap, Function.comp_def]

theorem enumerates_disjunctions : ∀ ps : List Condition, ∃ picks,
    Enumerates (Prod.Lex (· < ·) Way.Before) (PicksPart ps) picks ∧
      disjunctions ps = picks.map (·.2)
  | [] => ⟨[], ⟨by simp [PicksPart], .nil⟩, by rw [disjunctions, List.map_nil]⟩
  | p :: ps => by
    obtain ⟨first, hfirst, heqfirst⟩ := enumerates_alternatives p
    obtain ⟨more, hmore, heqmore⟩ := enumerates_disjunctions ps
    refine ⟨_, hfirst.part hmore, ?_⟩
    rw [disjunctions, heqfirst, heqmore]
    simp [Function.comp_def]

end

end Condition

/-! ## 4. Descriptors -/

namespace Descriptor

/-- A test on the viewport or a feature query is taken in. -/
theorem Parts.exists_add {p : Parts} (hp : p.container = none) {a : Atom}
    (ha : a.IsViewport ∨ ∃ s, a = .supports (.text s)) :
    ∃ q, p.add a = .ok q ∧ q.container = none := by
  rcases ha with ha | ⟨s, rfl⟩
  · cases a with
    | width lower upper =>
      obtain ⟨lo, hlo, -⟩ := exists_bound ha.1
      obtain ⟨hi, hhi, -⟩ := exists_bound ha.2
      simp only [Parts.add, hlo, hhi]
      split <;> split <;> exact ⟨_, rfl, hp⟩
    | feature name value =>
      obtain ⟨⟨n, rfl⟩, v, rfl⟩ := ha
      exact ⟨_, rfl, hp⟩
    | _ => exact ha.elim
  · exact ⟨_, rfl, hp⟩

/-- Tests on the viewport and feature queries have a wrapper together, or none. -/
theorem exists_ofAtoms {atoms : List Atom}
    (h : ∀ a ∈ atoms, a.IsViewport ∨ ∃ s, a = .supports (.text s)) :
    ∃ d, ofAtoms atoms = .ok d := by
  obtain ⟨p, hp, hnone⟩ : ∃ p, Parts.ofAtoms atoms = .ok p ∧ p.container = none := by
    induction atoms using List.reverseRecOn with
    | nil => exact ⟨{}, rfl, rfl⟩
    | append_singleton atoms a ih =>
      obtain ⟨hatoms, ha⟩ := List.forall_mem_append.1 h
      obtain ⟨p, hp, hnone⟩ := ih hatoms
      obtain ⟨q, hq, hnone⟩ := Parts.exists_add hnone (ha a List.mem_cons_self)
      exact ⟨q, foldlM_concat hp hq, hnone⟩
  have hrun : ofAtoms atoms = p.descriptor := by rw [ofAtoms, hp]; rfl
  rw [hrun, Parts.descriptor, hnone]
  dsimp only
  split
  · exact ⟨_, rfl⟩
  · split
    · exact ⟨_, rfl⟩
    · exact ⟨_, rfl⟩

/-- What a condition addresses: nothing if it has alternatives on containers, and else one wrapper
for each alternative, in order. -/
theorem ofCondition_eq_ok_iff {c : Condition} {ds : List (Option Descriptor)} :
    ofCondition (some c) = .ok ds ↔
      (1 < c.alternatives.length → ∀ conj ∈ c.alternatives, ∀ a ∈ conj, a.isContainer = false) ∧
      List.Forall₂ (fun conj d => ofAtoms conj = .ok d) c.alternatives ds := by
  have hrefused :
      (1 < c.alternatives.length && c.alternatives.any (·.any Atom.isContainer)) = true ↔
      ¬(1 < c.alternatives.length →
        ∀ conj ∈ c.alternatives, ∀ a ∈ conj, a.isContainer = false) := by
    simp
  simp only [ofCondition]
  split
  · next h => simp [hrefused.1 h]
  · next h =>
    rw [mapM_eq_ok_iff]
    exact (and_iff_right (not_not.1 fun hnot => h (hrefused.2 hnot))).symm

end Descriptor

namespace Condition

/-- A condition means what its alternatives mean, of which some has only true atoms. The
alternatives are those of its ways, each way's atoms once, in the order of the ways; no atom is
taken that the condition does not have. What they come to is one descriptor for each, in the same
order; that of a condition on the viewport always exists. -/
theorem alternatives_normalForm (c : Condition) :
    (∀ v : Atom → Prop, c.Holds v ↔ ∃ conj ∈ c.alternatives, ∀ a ∈ conj, v a) ∧
    (∀ conj ∈ c.alternatives, conj.Sublist c.atoms) ∧
    (∃ picks, Enumerates Way.Before (Picks c) picks ∧ c.alternatives = picks.map (·.2)) ∧
    (∀ ds, Descriptor.ofCondition (some c) = .ok ds ↔
      (1 < c.alternatives.length → ∀ conj ∈ c.alternatives, ∀ a ∈ conj, a.isContainer = false) ∧
      List.Forall₂ (fun conj d => Descriptor.ofAtoms conj = .ok d) c.alternatives ds) ∧
    ((∀ a ∈ c.atoms, a.IsViewport ∨ ∃ s, a = .supports (.text s)) →
      ∃ ds, Descriptor.ofCondition (some c) = .ok ds) := by
  refine ⟨fun v => holds_iff v c, sublist_atoms, enumerates_alternatives c,
    fun ds => Descriptor.ofCondition_eq_ok_iff, fun h => ?_⟩
  have hatoms : ∀ conj ∈ c.alternatives, ∀ a ∈ conj,
      a.IsViewport ∨ ∃ s, a = .supports (.text s) :=
    fun conj hconj a ha => h a ((sublist_atoms conj hconj).subset ha)
  obtain ⟨ds, hds⟩ := exists_mapM_iff.2 fun conj hconj =>
    Descriptor.exists_ofAtoms (hatoms conj hconj)
  refine ⟨ds, Descriptor.ofCondition_eq_ok_iff.2
    ⟨fun _ conj hconj a ha => ?_, mapM_eq_ok_iff.1 hds⟩⟩
  rcases hatoms conj hconj a ha with hviewport | ⟨s, rfl⟩
  · cases a with
    | width _ _ => rfl
    | feature _ _ => rfl
    | _ => exact hviewport.elim
  · rfl

end Condition

end StyleLedger
