import StyleLedger.Cascade.State
import StyleLedger.Proofs.Selector.Alternatives
import Mathlib.Logic.Relation

/-!
How references are expanded.

A name is expanded once along a chain of references: where it is met again behind itself it is
written as a class, like a name without a definition. `visit` is this rule as it stands, with the
chain so far as an argument, and it ends because each expansion leaves fewer names that the chain
has not seen (`unseen_lt`). `Selector.resolve` takes names out of its table instead and counts
(`expandWithin_eq_substitute` says that this is the same).

A visit also keeps a record of the chains along which it has expanded names. They are exactly the
chains of references that pass no name twice (`mem_chainsFrom_iff`): nothing else is cut off, so a
name is expanded as often as it is referred to from different places. Where no chain comes back to
its start, the chain so far makes no difference at all (`Expands.eq`), and a definition is resolved
by replacing every reference by what it refers to, for good (`IsInlining`).

* `references` — the names that a definition refers to.
* `visit`, `textFrom`, `chainsFrom` — expanding along a chain.
* `IsAcyclic`, `IsInlining` — tables without circles, and what their names stand for.
* `Cascade.get?_definitions` — what the table of a cascade answers.
* `resolve_expands_and_inlines` — all of this for `resolve`.
-/

namespace StyleLedger

open Keyed (key)

namespace Selector

/-! ## 1. The references of a definition -/

mutual

/-- The names that a definition refers to, from left to right. -/
def references : Selector → List Json
  | reference name => [name]
  | and parts | or parts => referencesOf parts
  | child p c => references p ++ references c
  | descendant a d => references a ++ references d
  | join _ l r => references l ++ references r
  | _ => []

/-- The names that some definitions refer to. -/
def referencesOf : List Selector → List Json
  | [] => []
  | s :: ss => references s ++ referencesOf ss

end

mutual

/-- What stands for a name makes a difference only where the name is referred to. -/
theorem substitute_congr {f g : Json → Selector} : ∀ {s : Selector},
    (∀ n ∈ s.references, f n = g n) → s.substitute f = s.substitute g
  | element _, _ | cls _, _ | id _, _ | pseudo _, _ | pseudoElement _, _ | attr .., _ => rfl
  | .reference name, h => h name (List.mem_singleton_self name)
  | and _, h => congrArg and (substituteParts_congr h)
  | or _, h => congrArg or (substituteParts_congr h)
  | child .., h =>
    congrArg₂ child (substitute_congr fun n hn => h n (List.mem_append_left _ hn))
      (substitute_congr fun n hn => h n (List.mem_append_right _ hn))
  | descendant .., h =>
    congrArg₂ descendant (substitute_congr fun n hn => h n (List.mem_append_left _ hn))
      (substitute_congr fun n hn => h n (List.mem_append_right _ hn))
  | join kind .., h =>
    congrArg₂ (join kind) (substitute_congr fun n hn => h n (List.mem_append_left _ hn))
      (substitute_congr fun n hn => h n (List.mem_append_right _ hn))

theorem substituteParts_congr {f g : Json → Selector} : ∀ {ss : List Selector},
    (∀ n ∈ referencesOf ss, f n = g n) → substituteParts f ss = substituteParts g ss
  | [], _ => rfl
  | _ :: _, h =>
    congrArg₂ List.cons (substitute_congr fun n hn => h n (List.mem_append_left _ hn))
      (substituteParts_congr fun n hn => h n (List.mem_append_right _ hn))

end

mutual

theorem references_substitute (f : Json → Selector) : ∀ s : Selector,
    (s.substitute f).references = s.references.flatMap fun n => (f n).references
  | element _ | cls _ | id _ | pseudo _ | pseudoElement _ | attr .. => rfl
  | .reference name => by simp [substitute, references]
  | and parts | or parts => by
    simp only [substitute, references, referencesOf_substituteParts f parts]
  | child l r | descendant l r | join _ l r => by
    simp only [substitute, references, references_substitute f l, references_substitute f r,
      List.flatMap_append]

theorem referencesOf_substituteParts (f : Json → Selector) : ∀ ss : List Selector,
    referencesOf (substituteParts f ss) = (referencesOf ss).flatMap fun n => (f n).references
  | [] => rfl
  | s :: ss => by
    simp only [substituteParts, referencesOf, references_substitute f s,
      referencesOf_substituteParts f ss, List.flatMap_append]

end

/-! ## 2. Expanding along a chain -/

/-- Whether a name is on a chain. -/
def isSeen (seen : List Json) (name : Json) : Bool :=
  seen.any (·.alike name)

theorem isSeen_iff {seen : List Json} {name : Json} :
    isSeen seen name = true ↔ ∃ m ∈ seen, key m = key name := by
  simp only [isSeen, List.any_eq_true, Json.alike, decide_eq_true_eq]
  rfl

/-- How many definitions a chain has not passed. -/
def unseen (definitions : Table Json Selector) (seen : List Json) : Nat :=
  (definitions.entries.filter fun e => !isSeen seen e.1).length

/-- Every expansion leaves less to expand. -/
theorem unseen_lt {definitions : Table Json Selector} {seen : List Json} {name : Json}
    {target : Selector} (hseen : isSeen seen name = false)
    (htarget : definitions.get? name = some target) :
    unseen definitions (name :: seen) < unseen definitions seen := by
  obtain ⟨e, he, hkey⟩ := Table.isSome_get?_iff.1 (by rw [htarget]; rfl)
  have hold : isSeen seen e.1 = false := by
    rw [← Bool.not_eq_true, isSeen_iff, hkey, ← isSeen_iff, hseen]
    simp
  have hnew : isSeen (name :: seen) e.1 = true :=
    isSeen_iff.2 ⟨name, List.mem_cons_self, hkey.symm⟩
  -- what the longer chain has not passed, the shorter one has not passed either
  have hfilter : (definitions.entries.filter fun e => !isSeen (name :: seen) e.1) =
      (definitions.entries.filter fun e => !isSeen seen e.1).filter
        fun e => !isSeen (name :: seen) e.1 := by
    rw [List.filter_filter]
    refine List.filter_congr fun d _ => ?_
    simp only [isSeen, List.any_cons, Bool.not_or]
    cases name.alike d.1 <;> simp
  rw [unseen, unseen, hfilter]
  exact List.length_filter_lt_length_iff_exists.2
    ⟨e, List.mem_filter.2 ⟨he, by simp [hold]⟩, by simp [hnew]⟩

/-- What comes of a name. -/
structure Visit where
  /-- What the name stands for. -/
  tree : Selector
  /-- The chains of names that have been expanded for it. -/
  chains : List (List Json)

/-- Expands a name that is met at the end of a chain. One that is on the chain already is a class,
and so is one without a definition. -/
def visit (definitions : Table Json Selector) (seen : List Json) (name : Json) : Visit :=
  if hseen : isSeen seen name = true then ⟨cls name, []⟩
  else
    match htarget : definitions.get? name with
    | none => ⟨cls name, []⟩
    | some target =>
      have := unseen_lt (Bool.eq_false_iff.2 hseen) htarget
      { tree := target.substitute fun n => (visit definitions (name :: seen) n).tree
        chains := [name] :: (target.references.flatMap fun n =>
          (visit definitions (name :: seen) n).chains).map (name :: ·) }
termination_by unseen definitions seen

/-- The text of a definition that is met at the end of a chain. -/
def textFrom (definitions : Table Json Selector) (seen : List Json) (s : Selector) : String :=
  (s.substitute fun n => (visit definitions seen n).tree).render asClass

/-- The chains of names that are expanded for a definition. -/
def chainsFrom (definitions : Table Json Selector) (seen : List Json) (s : Selector) :
    List (List Json) :=
  s.references.flatMap fun n => (visit definitions seen n).chains

section Visit

variable {definitions : Table Json Selector} {seen : List Json} {name : Json}

theorem visit_of_isSeen (h : isSeen seen name = true) :
    visit definitions seen name = ⟨cls name, []⟩ := by
  rw [visit, dif_pos h]

theorem visit_of_none (h : definitions.get? name = none) :
    visit definitions seen name = ⟨cls name, []⟩ := by
  rw [visit]
  split
  · rfl
  · split
    · rfl
    · next target htarget => simp [h] at htarget

theorem visit_of_some {target : Selector} (hseen : isSeen seen name = false)
    (h : definitions.get? name = some target) : visit definitions seen name =
      { tree := target.substitute fun n => (visit definitions (name :: seen) n).tree
        chains := [name] :: (chainsFrom definitions (name :: seen) target).map (name :: ·) } := by
  rw [visit, dif_neg (by simp [hseen])]
  split
  · next hnone => simp [h] at hnone
  · next target' htarget =>
    obtain rfl : target = target' := Option.some.inj (h.symm.trans htarget)
    rfl

end Visit

/-- The text of a definition is that of its references, each expanded where it stands. -/
theorem textFrom_eq (definitions : Table Json Selector) (seen : List Json) (s : Selector) :
    textFrom definitions seen s = s.render fun name =>
      if isSeen seen name then asClass name
      else
        match definitions.get? name with
        | none => asClass name
        | some target => textFrom definitions (name :: seen) target := by
  rw [textFrom, render_substitute]
  congr 1
  funext name
  cases hseen : isSeen seen name with
  | true =>
    rw [visit_of_isSeen hseen]
    rfl
  | false =>
    cases htarget : definitions.get? name with
    | none =>
      rw [visit_of_none htarget]
      rfl
    | some target =>
      rw [visit_of_some hseen htarget]
      rfl

/-- A table without some names answers for the others only. -/
theorem get?_erase (rest : Table Json Selector) (name n : Json) :
    (rest.erase name).get? n = if key name = key n then none else rest.get? n := by
  have hsame : ∀ k l : Json, key k = key l →
      decide (key k ≠ key name) = decide (key l ≠ key name) := by
    intro k l hkl
    rw [hkl]
  have hfilter := Table.get?_filter hsame rest n
  rw [Table.filter] at hfilter
  rw [Table.erase, hfilter]
  by_cases h : key name = key n
  · simp [h]
  · simp [h, Ne.symm h]

theorem size_erase_lt {rest : Table Json Selector} {name : Json} {target : Selector}
    (h : rest.get? name = some target) : (rest.erase name).size < rest.size := by
  obtain ⟨e, he, hkey⟩ := Table.isSome_get?_iff.1 (by rw [h]; rfl)
  exact List.length_filter_lt_length_iff_exists.2 ⟨e, he, by simp [hkey]⟩

/-- Taking names out of a table and counting is the same as keeping the chain. -/
theorem expandWithin_eq_substitute {definitions : Table Json Selector} (depth : Nat)
    {rest : Table Json Selector} {seen : List Json} (hdepth : rest.size ≤ depth)
    (hrest : ∀ n, rest.get? n = if isSeen seen n = true then none else definitions.get? n)
    (s : Selector) :
    expandWithin depth rest s = s.substitute fun n => (visit definitions seen n).tree := by
  -- what the smaller table does not answer for, a visit does not expand
  have hclass : ∀ {rest : Table Json Selector} {seen : List Json} {n : Json},
      (rest.get? n = if isSeen seen n = true then none else definitions.get? n) →
      rest.get? n = none → visit definitions seen n = ⟨cls n, []⟩ := by
    intro rest seen n hn hnone
    cases hseen : isSeen seen n with
    | true => exact visit_of_isSeen hseen
    | false => exact visit_of_none (by simpa [hseen, hnone] using hn.symm)
  induction depth generalizing rest seen s with
  | zero =>
    obtain rfl : rest = .empty := by
      obtain ⟨entries⟩ := rest
      exact congrArg Table.mk (List.eq_nil_of_length_eq_zero (Nat.le_zero.1 hdepth))
    refine substitute_congr fun n _ => ?_
    rw [hclass (hrest n) rfl]
  | succ depth ih =>
    refine substitute_congr fun n _ => ?_
    cases htarget : rest.get? n with
    | none => rw [hclass (hrest n) htarget]
    | some target =>
      have hn := hrest n
      rw [htarget] at hn
      cases hseen : isSeen seen n with
      | true => simp [hseen] at hn
      | false =>
        have hdefined : definitions.get? n = some target := by simpa [hseen] using hn.symm
        rw [visit_of_some hseen hdefined]
        have hsmaller := size_erase_lt htarget
        refine ih (by omega) (fun m => ?_) target
        rw [get?_erase, hrest m]
        have hcons : isSeen (n :: seen) m = (decide (key n = key m) || isSeen seen m) := rfl
        rw [hcons]
        by_cases hkey : key n = key m <;> simp [hkey]

/-- A definition is resolved along the chain that has not passed any name. -/
theorem resolve_eq_textFrom (definitions : Table Json Selector) (s : Selector) :
    resolve definitions s = textFrom definitions [] s := by
  have hempty : ∀ n, definitions.get? n =
      if isSeen [] n = true then none else definitions.get? n := fun _ => rfl
  rw [resolve_eq_render_expand, expand, textFrom,
    expandWithin_eq_substitute definitions.size (Nat.le_refl _) hempty]

/-! ## 3. Chains -/

/-- A chain of references: each name is referred to where the one before it is defined, and has a
definition itself. -/
def IsChain (definitions : Table Json Selector) : Selector → List Json → Prop
  | _, [] => True
  | s, name :: rest =>
    name ∈ s.references ∧ ∃ target, definitions.get? name = some target ∧
      IsChain definitions target rest

/-- Names are expanded along the chains of references that pass no name twice, and along all of
them. -/
theorem mem_chainsFrom_iff {definitions : Table Json Selector} {chain : List Json} :
    ∀ {seen : List Json} {s : Selector}, chain ∈ chainsFrom definitions seen s ↔
      chain ≠ [] ∧ IsChain definitions s chain ∧ (chain.map key).Nodup ∧
        ∀ n ∈ chain, isSeen seen n = false := by
  have hvisit : ∀ {seen : List Json} {n : Json} {chain : List Json},
      chain ∈ (visit definitions seen n).chains ↔ ∃ target rest, chain = n :: rest ∧
        isSeen seen n = false ∧ definitions.get? n = some target ∧
          (rest = [] ∨ rest ∈ chainsFrom definitions (n :: seen) target) := by
    intro seen n chain
    cases hseen : isSeen seen n with
    | true => simp [visit_of_isSeen hseen]
    | false =>
      cases htarget : definitions.get? n with
      | none => simp [visit_of_none htarget]
      | some target =>
        rw [visit_of_some hseen htarget]
        simp only [List.mem_cons, List.mem_map]
        constructor
        · rintro (rfl | ⟨rest, hrest, rfl⟩)
          · exact ⟨target, [], rfl, trivial, rfl, .inl rfl⟩
          · exact ⟨target, rest, rfl, trivial, rfl, .inr hrest⟩
        · rintro ⟨_, rest, rfl, -, htarget', hrest⟩
          obtain rfl := Option.some.inj htarget'
          exact hrest.imp (fun hnil => by rw [hnil]) fun hmem => ⟨rest, hmem, rfl⟩
  induction chain with
  | nil =>
    intro seen s
    refine iff_of_false (fun hmem => ?_) (by simp)
    obtain ⟨n, -, hn⟩ := List.mem_flatMap.1 hmem
    obtain ⟨target, rest, hcons, -⟩ := hvisit.1 hn
    simp at hcons
  | cons name rest ih =>
    intro seen s
    have hsplit : (∀ n ∈ rest, isSeen (name :: seen) n = false) ↔
        key name ∉ rest.map key ∧ ∀ n ∈ rest, isSeen seen n = false := by
      have hcons : ∀ n, isSeen (name :: seen) n = (decide (key name = key n) || isSeen seen n) :=
        fun _ => rfl
      simp only [hcons, Bool.or_eq_false_iff, decide_eq_false_iff_not, List.mem_map, not_exists,
        not_and]
      exact ⟨fun h => ⟨fun n hn heq => (h n hn).1 heq.symm, fun n hn => (h n hn).2⟩,
        fun h n hn => ⟨fun heq => h.1 n hn heq.symm, h.2 n hn⟩⟩
    have hrest : ∀ target, (rest = [] ∨ rest ∈ chainsFrom definitions (name :: seen) target) ↔
        IsChain definitions target rest ∧ (rest.map key).Nodup ∧
          ∀ n ∈ rest, isSeen (name :: seen) n = false := by
      intro target
      rw [ih]
      by_cases hnil : rest = []
      · simp [hnil, IsChain]
      · simp [hnil]
    rw [chainsFrom, List.mem_flatMap]
    simp only [hvisit, List.cons.injEq]
    constructor
    · rintro ⟨n, hn, target, rest', ⟨rfl, rfl⟩, hseen, htarget, hmem⟩
      obtain ⟨hchain, hnodup, hunseen⟩ := (hrest target).1 hmem
      obtain ⟨hfresh, hold⟩ := hsplit.1 hunseen
      exact ⟨by simp, ⟨hn, target, htarget, hchain⟩, List.nodup_cons.2 ⟨hfresh, hnodup⟩,
        List.forall_mem_cons.2 ⟨hseen, hold⟩⟩
    · rintro ⟨-, ⟨hn, target, htarget, hchain⟩, hnodup, hunseen⟩
      obtain ⟨hfresh, hnodup⟩ := List.nodup_cons.1 hnodup
      obtain ⟨hseen, hold⟩ := List.forall_mem_cons.1 hunseen
      exact ⟨name, hn, target, rest, ⟨rfl, rfl⟩, hseen, htarget,
        (hrest target).2 ⟨hchain, hnodup, hsplit.2 ⟨hfresh, hold⟩⟩⟩

/-! ## 4. Tables without circles -/

/-- The definition of one name refers to another. -/
def Refers (definitions : Table Json Selector) (n m : Json) : Prop :=
  ∃ target, definitions.get? n = some target ∧ ∃ r ∈ target.references, key r = key m

/-- No chain of references comes back to its start. -/
def IsAcyclic (definitions : Table Json Selector) : Prop :=
  ∀ n, ¬Relation.TransGen (Refers definitions) n n

/-- What each name stands for, for good: a name without a definition is a class, any other its
definition with every reference replaced by what that stands for. -/
def IsInlining (definitions : Table Json Selector) (inlined : Json → Selector) : Prop :=
  ∀ name, inlined name =
    match definitions.get? name with
    | none => cls name
    | some target => target.substitute inlined

section Acyclic

variable {definitions : Table Json Selector}

/-- A name comes to another one, possibly at once. -/
def Reaches (definitions : Table Json Selector) (n m : Json) : Prop :=
  key n = key m ∨ Relation.TransGen (Refers definitions) n m

/-- What a definition refers to can be reached from its name. -/
theorem Reaches.of_references {name n m : Json} {target : Selector}
    (htarget : definitions.get? name = some target) (hn : n ∈ target.references)
    (h : Reaches definitions n m) : Relation.TransGen (Refers definitions) name m := by
  rcases h with hkey | hreach
  · exact .single ⟨target, htarget, n, hn, hkey⟩
  · exact .head ⟨target, htarget, n, hn, rfl⟩ hreach

/-- A way to expand a name that is met at the end of a chain and is not on it. -/
def Expands (definitions : Table Json Selector) (f : List Json → Json → Selector) : Prop :=
  ∀ seen name, isSeen seen name = false → f seen name =
    match definitions.get? name with
    | none => cls name
    | some target => target.substitute (f (name :: seen))

theorem expands_visit (definitions : Table Json Selector) :
    Expands definitions fun seen n => (visit definitions seen n).tree := by
  intro seen name hseen
  cases htarget : definitions.get? name with
  | none =>
    show (visit definitions seen name).tree = cls name
    rw [visit_of_none htarget]
  | some target =>
    show (visit definitions seen name).tree = target.substitute _
    rw [visit_of_some hseen htarget]

theorem IsInlining.expands {inlined : Json → Selector} (h : IsInlining definitions inlined) :
    Expands definitions fun _ => inlined :=
  fun _ name _ => h name

/-- A chain that is never come back to makes no difference: without circles, all ways to expand a
name give the same, whatever the chains. -/
theorem Expands.eq (hacyclic : IsAcyclic definitions) {f g : List Json → Json → Selector}
    (hf : Expands definitions f) (hg : Expands definitions g) :
    ∀ (seen seen' : List Json) (name : Json), (∀ m ∈ seen, ¬Reaches definitions name m) →
      (∀ m ∈ seen', ¬Reaches definitions name m) → f seen name = g seen' name := by
  intro seen
  induction hcount : unseen definitions seen using Nat.strong_induction_on generalizing seen with
  | _ count ih =>
    intro seen' name hseen hseen'
    have hfresh : ∀ {seen : List Json}, (∀ m ∈ seen, ¬Reaches definitions name m) →
        isSeen seen name = false := by
      intro seen hnot
      rw [← Bool.not_eq_true, isSeen_iff]
      rintro ⟨m, hm, hkey⟩
      exact hnot m hm (.inl hkey.symm)
    rw [hf seen name (hfresh hseen), hg seen' name (hfresh hseen')]
    cases htarget : definitions.get? name with
    | none => rfl
    | some target =>
      -- what is referred to comes back neither to the name nor to the chain before it
      have hlonger : ∀ {seen : List Json}, (∀ m ∈ seen, ¬Reaches definitions name m) →
          ∀ n ∈ target.references, ∀ m ∈ name :: seen, ¬Reaches definitions n m := by
        intro seen hnot n hn
        refine List.forall_mem_cons.2 ⟨fun hreach => ?_, fun m hm hreach => ?_⟩
        · exact hacyclic name (hreach.of_references htarget hn)
        · exact hnot m hm (.inr (hreach.of_references htarget hn))
      refine substitute_congr fun n hn => ?_
      exact ih _ (hcount ▸ unseen_lt (hfresh hseen) htarget) _ rfl _ n (hlonger hseen n hn)
        (hlonger hseen' n hn)

/-- In a table without circles, what a name is expanded to is what it stands for. -/
theorem isInlining_visit (hacyclic : IsAcyclic definitions) :
    IsInlining definitions fun n => (visit definitions [] n).tree := by
  have hexpands := expands_visit definitions
  intro name
  refine (hexpands [] name rfl).trans ?_
  cases htarget : definitions.get? name with
  | none => rfl
  | some target =>
    refine substitute_congr fun n hn => hexpands.eq hacyclic hexpands _ _ n ?_ (by simp)
    rw [List.forall_mem_singleton]
    exact fun hreach => hacyclic name (hreach.of_references htarget hn)

/-- There is only one way to say what the names of a table without circles stand for. -/
theorem IsInlining.eq (hacyclic : IsAcyclic definitions) {f g : Json → Selector}
    (hf : IsInlining definitions f) (hg : IsInlining definitions g) : f = g := by
  funext name
  exact hf.expands.eq hacyclic hg.expands [] [] name (by simp) (by simp)

end Acyclic

/-- Where every definition refers to lower names only, there are no circles. -/
theorem isAcyclic_of_rank {definitions : Table Json Selector} (rank : Json → Nat)
    (h : ∀ e ∈ definitions.entries, ∀ r ∈ e.2.references, rank (key r) < rank (key e.1)) :
    IsAcyclic definitions := by
  have hstep : ∀ {n m : Json}, Refers definitions n m → rank (key m) < rank (key n) := by
    rintro n m ⟨target, htarget, r, hr, hkey⟩
    obtain ⟨l, hl, hmem⟩ := Table.lookup_mem htarget
    rw [← hkey, ← hl]
    exact h (l, target) hmem r hr
  intro n hcircle
  have hlower : ∀ {n m : Json}, Relation.TransGen (Refers definitions) n m →
      rank (key m) < rank (key n) := by
    intro n m hchain
    induction hchain with
    | single hrefers => exact hstep hrefers
    | tail _ hrefers ih => exact (hstep hrefers).trans ih
  exact Nat.lt_irrefl _ (hlower hcircle)

/-- Nothing that a name is expanded to refers to anything. -/
theorem references_visit (definitions : Table Json Selector) (seen : List Json) (name : Json) :
    (visit definitions seen name).tree.references = [] := by
  induction hcount : unseen definitions seen using Nat.strong_induction_on
    generalizing seen name with
  | _ count ih =>
    cases hseen : isSeen seen name with
    | true =>
      rw [visit_of_isSeen hseen]
      rfl
    | false =>
      cases htarget : definitions.get? name with
      | none =>
        rw [visit_of_none htarget]
        rfl
      | some target =>
        rw [visit_of_some hseen htarget]
        show (target.substitute _).references = []
        rw [references_substitute]
        exact List.flatMap_eq_nil_iff.2 fun n _ =>
          ih _ (hcount ▸ unseen_lt hseen htarget) (name :: seen) n rfl

/-! ## 5. What a table is asked -/

/-- Only what a table answers makes a difference, not how it is made. -/
theorem visit_congr {definitions definitions' : Table Json Selector}
    (h : ∀ n, definitions.get? n = definitions'.get? n) (seen : List Json) (name : Json) :
    visit definitions seen name = visit definitions' seen name := by
  induction hcount : unseen definitions seen using Nat.strong_induction_on
    generalizing seen name with
  | _ count ih =>
    cases hseen : isSeen seen name with
    | true => rw [visit_of_isSeen hseen, visit_of_isSeen hseen]
    | false =>
      cases htarget : definitions.get? name with
      | none => rw [visit_of_none htarget, visit_of_none (h name ▸ htarget)]
      | some target =>
        have hsame : visit definitions (name :: seen) = visit definitions' (name :: seen) :=
          funext fun n => ih _ (hcount ▸ unseen_lt hseen htarget) (name :: seen) n rfl
        rw [visit_of_some hseen htarget, visit_of_some hseen (h name ▸ htarget), chainsFrom,
          chainsFrom, hsame]

theorem resolve_congr {definitions definitions' : Table Json Selector}
    (h : ∀ n, definitions.get? n = definitions'.get? n) (s : Selector) :
    resolve definitions s = resolve definitions' s := by
  rw [resolve_eq_textFrom, resolve_eq_textFrom, textFrom, textFrom]
  simp only [visit_congr h]

/-- What a definition stands for reads like its text, also where it is no text. -/
theorem shown_resolveCellWithin (depth : Nat) (definitions : Table Json Selector) (s : Selector) :
    (resolveCellWithin depth definitions s).shown = resolveWithin depth definitions s := by
  induction depth generalizing definitions s with
  | zero => cases s <;> rfl
  | succ depth ih =>
    cases s with
    | reference name =>
      simp only [resolveCellWithin, resolveWithin, render]
      cases definitions.get? name with
      | none => rfl
      | some target => exact ih (definitions.erase name) target
    | _ => rfl

end Selector

namespace Cascade

/-- A name is looked up among the selectors; one that was only mentioned is not defined. -/
theorem get?_definitions {s : Cascade} (h : s.selectors.IsDistinct) (name : Json) :
    s.definitions.get? name = (s.selectors.get? name).bind (·.definition) := by
  obtain ⟨entries, hentries⟩ : ∃ entries, s.selectors.entries = entries := ⟨_, rfl⟩
  rw [Table.IsDistinct, hentries] at h
  simp only [definitions, Table.get?, hentries]
  clear hentries
  induction entries with
  | nil => rfl
  | cons e es ih =>
    obtain ⟨hfirst, hrest⟩ := List.pairwise_cons.1 h
    have ih := ih hrest
    by_cases hkey : key e.1 = key name
    · -- no later entry answers for the name
      have hlater : Table.lookup name es = none :=
        Table.lookup_eq_none fun d hd heq => hfirst d hd (hkey.trans heq.symm)
      rw [hlater] at ih
      cases hdefinition : e.2.definition with
      | none => simpa [hdefinition, Table.lookup, hkey] using ih
      | some d => simp [hdefinition, Table.lookup, hkey]
    · cases hdefinition : e.2.definition with
      | none => simpa [hdefinition, Table.lookup, hkey] using ih
      | some d => simpa [hdefinition, Table.lookup, hkey] using ih

/-- An entry without a definition, for a name that has none, defines nothing. -/
theorem definitions_put_of_none (s : Cascade) {name : Json} {entry : SelectorEntry}
    (hentry : entry.definition = none)
    (hname : (s.selectors.get? name).bind (·.definition) = none) :
    ({ s with selectors := s.selectors.put name entry } : Cascade).definitions = s.definitions := by
  simp only [definitions, Table.put, Table.mk.injEq]
  simp only [Table.get?] at hname
  generalize s.selectors.entries = entries at hname
  induction entries with
  | nil => simp [Table.write, hentry]
  | cons e es ih =>
    rw [Table.lookup] at hname
    by_cases hkey : key e.1 = key name
    · have hold : e.2.definition = none := by
        rw [if_pos hkey] at hname
        exact hname
      simp [Table.write, hkey, hentry, hold]
    · rw [if_neg hkey] at hname
      have ih := ih hname
      cases hdefinition : e.2.definition with
      | none => simpa [Table.write, hkey, hdefinition] using ih
      | some d => simpa [Table.write, hkey, hdefinition] using ih

/-- So do any number of them. -/
theorem definitions_foldl_put_of_none (s : Cascade) {added : List (Json × SelectorEntry)}
    (h : ∀ e ∈ added,
      e.2.definition = none ∧ (s.selectors.get? e.1).bind (·.definition) = none) :
    ({ s with selectors := added.foldl (fun t e => t.put e.1 e.2) s.selectors } :
      Cascade).definitions = s.definitions := by
  induction added generalizing s with
  | nil => rfl
  | cons e added ih =>
    obtain ⟨⟨hentry, hname⟩, hadded⟩ := List.forall_mem_cons.1 h
    have hmore : ∀ d ∈ added, d.2.definition = none ∧
        ((s.selectors.put e.1 e.2).get? d.1).bind (·.definition) = none := by
      intro d hd
      obtain ⟨hdentry, hdname⟩ := hadded d hd
      refine ⟨hdentry, ?_⟩
      rw [Table.get?_put]
      split
      · simpa using hentry
      · exact hdname
    exact (ih { s with selectors := s.selectors.put e.1 e.2 } hmore).trans
      (s.definitions_put_of_none hentry hname)

end Cascade

namespace Selector

/-! ## 6. Resolving -/

/-- Resolving a definition expands each of its references where it stands, behind the chain of names
that has led there. A name that is on its own chain is written as a class, and so is one without a
definition; the chains along which names are expanded are those that pass no name twice. In a table
without circles there is exactly one way to say what every name stands for, and resolving a
definition is writing it with that in the place of its references. All that counts is what the table
answers, so any number of further entries without a definition changes nothing. -/
theorem resolve_expands_and_inlines (definitions : Table Json Selector) :
    ((∀ s, resolve definitions s = textFrom definitions [] s ∧
        (resolveCell definitions s).shown = resolve definitions s) ∧
      ∀ seen s, textFrom definitions seen s = s.render fun name =>
        if isSeen seen name then asClass name
        else
          match definitions.get? name with
          | none => asClass name
          | some target => textFrom definitions (name :: seen) target) ∧
    (∀ s chain, chain ∈ chainsFrom definitions [] s ↔
      chain ≠ [] ∧ IsChain definitions s chain ∧ (chain.map key).Nodup) ∧
    (IsAcyclic definitions → ∃ inlined, IsInlining definitions inlined ∧
      (∀ other, IsInlining definitions other → other = inlined) ∧
      ∀ s, (s.substitute inlined).references = [] ∧
        resolve definitions s = resolve .empty (s.substitute inlined)) ∧
    (∀ definitions', (∀ n, definitions.get? n = definitions'.get? n) →
      ∀ s, resolve definitions s = resolve definitions' s) ∧
    ∀ (c : Cascade) (added : List (Json × SelectorEntry)),
      (∀ e ∈ added,
        e.2.definition = none ∧ (c.selectors.get? e.1).bind (·.definition) = none) →
      ∀ s, resolve ({ c with selectors := added.foldl (fun t e => t.put e.1 e.2) c.selectors } :
          Cascade).definitions s = resolve c.definitions s := by
  refine ⟨⟨fun s => ⟨resolve_eq_textFrom definitions s,
    shown_resolveCellWithin definitions.size definitions s⟩, textFrom_eq definitions⟩,
    fun s chain => ?_, fun hacyclic => ?_, fun definitions' h => resolve_congr h,
    fun c added h s => ?_⟩
  · have hempty : ∀ n ∈ chain, isSeen [] n = false := fun _ _ => rfl
    rw [mem_chainsFrom_iff]
    exact and_congr_right fun _ => and_congr_right fun _ => and_iff_left hempty
  · have hinlining := isInlining_visit hacyclic
    refine ⟨_, hinlining, fun other hother => hother.eq hacyclic hinlining, fun s => ⟨?_, ?_⟩⟩
    · rw [references_substitute]
      exact List.flatMap_eq_nil_iff.2 fun n _ => references_visit definitions [] n
    · exact resolve_eq_textFrom definitions s
  · rw [c.definitions_foldl_put_of_none h]

/-- A name that is referred to from two places, one of them behind a third, stands in both. -/
theorem resolve_expands_and_inlines_shared :
    let definitions : Table Json Selector := .ofList
      [(.text "menu", child (reference (.text "bar")) (reference (.text "item"))),
        (.text "bar", and [reference (.text "item"), pseudo (.text "hover")]),
        (.text "item", or [cls (.text "i"), reference (.text "gone")])]
    IsAcyclic definitions ∧
      ∃ inlined, IsInlining definitions inlined ∧
        resolve .empty ((reference (.text "menu")).substitute inlined) =
          ".i, .gone:hover > .i, .gone" := by
  intro definitions
  have hacyclic : IsAcyclic definitions := by
    refine isAcyclic_of_rank [Json.text "gone", .text "item", .text "bar", .text "menu"].idxOf ?_
    decide +kernel
  obtain ⟨inlined, hinlining, -, hresolve⟩ :=
    (resolve_expands_and_inlines definitions).2.2.1 hacyclic
  refine ⟨hacyclic, inlined, hinlining, ?_⟩
  rw [← (hresolve (reference (.text "menu"))).2]
  decide +kernel

/-- Names that refer to one another in a circle, and to themselves. -/
example :
    let definitions : Table Json Selector := .ofList
      [(.text "a", child (reference (.text "b")) (reference (.text "a"))),
        (.text "b", descendant (reference (.text "a")) (reference (.text "b")))]
    resolve definitions (reference (.text "a")) = ".a .b > .a" := by
  decide +kernel

end Selector

end StyleLedger
