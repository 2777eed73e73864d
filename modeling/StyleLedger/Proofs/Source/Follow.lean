import StyleLedger.Source.Grammar

/-!
What may follow what in a source text.

For every part of the grammar there is a list of the terminals that may come right after it
(`Goal.follow`). That the lists are complete is a check of each part by itself (`Goal.isSound`), and
a stack whose symbols are followed by nothing else (`Stack.isProper`) stays so with every token. No
part of the grammar can be opened in two ways by one terminal, or be left out before a terminal that
opens it, so there is only one stack, but for the first words of a statement, when several
statements begin alike (`isReached_shift`).

Three things about the machine are read off the lists: a value, a group or a media query is looked
for where nothing else may stand (`eq_of_mem_accepts`), a value is followed by words and marks
only (`mem_valueFollow`), and a semicolon leads back to the beginning
(`shift_semicolon`).
-/

namespace StyleLedger.Source

/-! ## 1. The lists -/

namespace Goal

/-- Every part of the grammar. -/
def all : List Goal :=
  [program, closing, definition, joinKind, arguments, argument, moreArguments, declarations,
   moreDeclarations, block, blockRest, scope, scopeLimit, condition, moreConditions,
   conditionClause, filterCondition, widthTest, containerTest, propertyFilter, action,
   propertyName, moreNames, mediaClause, frame, moreFrames, pageName]

theorem mem_all (g : Goal) : g ∈ all := by
  cases g <;> decide

/-- The terminals that open a goal. -/
def heads (g : Goal) : List Terminal :=
  g.productions.map (·.head)

/-- The terminals that may come right after a goal. -/
def follow : Goal → List Terminal
  | program => []
  | closing => heads program
  | definition | arguments | moreArguments => [.mark ';', .word .onWord, .mark ',', .mark ')']
  | argument | frame => [.mark ',', .mark ')']
  | joinKind => [.function, .word .join, .ident]
  | declarations | moreDeclarations => [.mark ';', .word .whereWord, .mark ')']
  | block | blockRest => [.mark ';', .word .whereWord, .mark ',', .mark ')']
  | scope | scopeLimit => [.mark '(', .word .whereWord, .word .add, .word .setWord]
  | condition | moreConditions => [.mark ')', .mark ';', .word .add] ++ heads program
  | conditionClause => [.mark ';', .word .add, .word .setWord]
  | filterCondition => .mark ';' :: heads program
  | widthTest | containerTest =>
    [.word .and, .word .or, .mark ')', .mark ';', .word .add] ++ heads program
  | propertyFilter | mediaClause => [.mark ';']
  | action => [.ident]
  | propertyName => [.mark ';', .mark ',']
  | moreNames | moreFrames => [.mark ')']
  | pageName => [.mark '(', .mark ';']

end Goal

/-- The terminals that may come right after a value. -/
def valueFollow : List Terminal :=
  [.mark ';', .mark ',', .mark ')', .word .whereWord, .word .and, .word .or, .word .add] ++
    Goal.heads .program

namespace Symbol

/-- Whether a terminal may come right after a symbol. Of the terminals only values are looked at. -/
def admits : Symbol → Terminal → Bool
  | terminal .value, t => valueFollow.contains t
  | terminal _, _ => true
  | goal g, t => g.follow.contains t

/-- What must come after a symbol that ends a statement, or the text. -/
def rest? : Symbol → Option Stack
  | terminal (.mark ';') | goal .closing => some [.goal .program]
  | goal .program => some []
  | _ => none

end Symbol

/-! ## 2. Stacks -/

namespace Stack

/-- Every symbol of a stack is followed by what may follow it. -/
def isProper : Stack → Bool
  | [] => true
  | s :: rest =>
    (firsts rest).all s.admits && s.rest?.all (· == rest) && isProper rest

theorem isProper_cons {s : Symbol} {rest : Stack} : isProper (s :: rest) = true ↔
    (∀ t ∈ firsts rest, s.admits t = true) ∧ (∀ r ∈ s.rest?, r = rest) ∧
      isProper rest = true := by
  simp only [isProper, Bool.and_eq_true, List.all_eq_true, Option.all_eq_true, beq_iff_eq,
    Option.mem_def, and_assoc]

theorem firsts_append (s rest : Stack) :
    firsts (s ++ rest) = firsts s ++ if finished s then firsts rest else [] := by
  induction s with
  | nil => simp [firsts, finished]
  | cons a s ih =>
    cases a with
    | terminal t => simp [firsts, finished]
    | goal g => cases hg : g.optional <;> simp [firsts, finished, hg, ih]

theorem mem_firsts_of_mem_step {t : Terminal} {s s' : Stack} (h : s' ∈ step t s) :
    t ∈ firsts s := by
  induction s with
  | nil => simp [step] at h
  | cons a s ih =>
    cases a with
    | terminal u =>
      simp only [step] at h
      split at h
      · next hu => simp [firsts, hu]
      · simp at h
    | goal g =>
      simp only [step, List.mem_append, List.mem_map, List.mem_filter] at h
      simp only [firsts, List.mem_append, List.mem_map]
      rcases h with ⟨p, ⟨hp, ht⟩, -⟩ | h
      · exact .inl ⟨p, hp, of_decide_eq_true ht⟩
      · refine .inr ?_
        split at h
        · next hg => simpa [hg] using ih h
        · simp at h

end Stack

/-! ## 3. Productions -/

namespace Production

/-- The symbols of a production fit each other, and what may follow the production fits them. None
of them ends a statement. -/
def fits (follow : List Terminal) : List Symbol → Bool
  | [] => true
  | s :: rest =>
    (Stack.firsts rest).all s.admits && (!Stack.finished rest || follow.all s.admits) &&
      s.rest?.isNone && fits follow rest

theorem isProper_append {follow : List Terminal} {rest : Stack} (hrest : rest.isProper = true)
    (hfollow : ∀ t ∈ Stack.firsts rest, t ∈ follow) :
    ∀ {tail : List Symbol}, fits follow tail = true → Stack.isProper (tail ++ rest) = true
  | [], _ => hrest
  | s :: tail, h => by
    simp only [fits, Bool.and_eq_true, List.all_eq_true, Bool.or_eq_true, Bool.not_eq_true',
      Option.isNone_iff_eq_none] at h
    obtain ⟨⟨⟨hfirsts, hlast⟩, hends⟩, htail⟩ := h
    refine Stack.isProper_cons.2
      ⟨fun t ht => ?_, by simp [hends], isProper_append hrest hfollow htail⟩
    replace ht : t ∈ Stack.firsts (tail ++ rest) := ht
    rw [Stack.firsts_append, List.mem_append] at ht
    rcases ht with ht | ht
    · exact hfirsts t ht
    · split at ht
      · next hfinished =>
        exact (hlast.resolve_left (by simp [hfinished])) t (hfollow t ht)
      · simp at ht

end Production

/-- The terminals that are looked for where nothing else may stand. -/
def alone : List Terminal :=
  [.value, .group, .media]

namespace Goal

/-- The check of a goal. Its productions fit what may follow it; it is opened by a terminal in one
way at most, and is not left out before such a terminal. It is neither opened nor followed by a
terminal that stands alone. Of the goals only the closing of a statement may be a semicolon. -/
def IsSound (g : Goal) : Prop :=
  (g ≠ program → (∀ p ∈ g.productions, Production.fits g.follow p.tail = true) ∧ g.heads.Nodup ∧
    (g.optional = true → ∀ t ∈ g.heads, t ∉ g.follow)) ∧
  (∀ t ∈ alone, t ∉ g.heads ∧ t ∉ g.follow) ∧
  ∀ p ∈ g.productions, p.head = .mark ';' → g = .closing ∧ p.tail = []

instance (g : Goal) : Decidable g.IsSound :=
  inferInstanceAs (Decidable (_ ∧ _ ∧ _))

theorem isSound (g : Goal) : g.IsSound := by
  have hall : ∀ g ∈ all, IsSound g := by
    decide +kernel
  exact hall g (mem_all g)

/-- A terminal opens a goal by one production at most. -/
theorem filter_productions {g : Goal} (h : g.heads.Nodup) (t : Terminal) :
    g.productions.filter (·.head = t) = [] ∨
      ∃ p ∈ g.productions, p.head = t ∧ g.productions.filter (·.head = t) = [p] := by
  have hsub := (List.filter_sublist (p := (·.head = t)) (l := g.productions)).map (·.head)
  have hheads : ∀ q ∈ g.productions.filter (·.head = t), q ∈ g.productions ∧ q.head = t := by
    simp
  cases hfilter : g.productions.filter (·.head = t) with
  | nil => exact .inl rfl
  | cons p ps =>
    rw [hfilter] at hsub hheads
    have hp := hheads p List.mem_cons_self
    cases ps with
    | nil => exact .inr ⟨p, hp.1, hp.2, rfl⟩
    | cons q qs =>
      have hq := hheads q (List.mem_cons_of_mem p List.mem_cons_self)
      have htwice := h.sublist hsub
      simp [hp.2, hq.2] at htwice

end Goal

/-! ## 4. Machines -/

namespace Stack

/-- One stack leads to one stack, unless it may be done with its statement and turns to the next. -/
theorem step_cases (t : Terminal) : ∀ {s : Stack}, s.isProper = true →
    step t s = [] ∨ (∃ s', step t s = [s'] ∧ s'.isProper = true) ∨
      step t s = step t [.goal .program]
  | [], _ => .inl rfl
  | .terminal u :: rest, h => by
    by_cases hu : u = t
    · exact .inr (.inl ⟨rest, by simp [step, hu], (isProper_cons.1 h).2.2⟩)
    · exact .inl (by simp [step, hu])
  | .goal g :: rest, h => by
    obtain ⟨hfirsts, hends, hrest⟩ := isProper_cons.1 h
    by_cases hg : g = .program
    · subst hg
      obtain rfl : [] = rest := hends _ rfl
      exact .inr (.inr rfl)
    obtain ⟨hfits, hnodup, hleft⟩ := g.isSound.1 hg
    have hfollow : ∀ u ∈ firsts rest, u ∈ g.follow := fun u hu => by
      simpa [Symbol.admits] using hfirsts u hu
    rcases Goal.filter_productions hnodup t with hnone | ⟨p, hp, rfl, hone⟩
    · by_cases hoptional : g.optional = true
      · simpa [step, hnone, hoptional] using step_cases t hrest
      · exact .inl (by simp [step, hnone, hoptional])
    · have hskip : (if g.optional then step p.head rest else []) = [] := by
        split
        · next hoptional =>
          refine List.eq_nil_iff_forall_not_mem.2 fun s' hs' => ?_
          exact hleft hoptional _ (List.mem_map_of_mem hp) (hfollow _ (mem_firsts_of_mem_step hs'))
        · rfl
      refine .inr (.inl ⟨p.tail ++ rest, ?_, Production.isProper_append hrest hfollow
        (hfits p hp)⟩)
      rw [step, hone, hskip]
      rfl

end Stack

/-- The machines after the first words of statements that begin alike. -/
def openings : List (List Stack) :=
  [[.create], [.drop], [.delete], [.delete, .fromWord], [.insert], [.insert, .into], [.update],
    [.setWord], [.importWord]].map fun words =>
      words.foldl (fun machine k => shift (.word k) machine) start

/-- A machine that a text can lead to: it has one stack at most, or it has read the first words of a
statement. -/
def isReached : List Stack → Bool
  | [] => true
  | [s] => s.isProper
  | machine => openings.contains machine

theorem isReached_start : isReached start = true :=
  rfl

theorem isReached_openings : ∀ machine ∈ start :: openings, ∀ t ∈ accepts machine,
    isReached (shift t machine) = true := by
  decide +kernel

/-- No semicolon, no selector function and no terminal that stands alone comes within the first words
of a statement, and after those words the statement is not over. -/
theorem openings_spec :
    (∀ machine ∈ start :: openings, ∀ t ∈ .mark ';' :: .function :: alone, t ∉ accepts machine) ∧
      ∀ machine ∈ openings, ∃ s ∈ machine, s ≠ [.goal .program] := by
  decide +kernel

theorem not_mem_accepts {machine : List Stack} (h : machine ∈ start :: openings) {t : Terminal}
    (ht : t ∈ .mark ';' :: .function :: alone) : t ∉ accepts machine :=
  openings_spec.1 machine h t ht

/-- Nothing comes of a terminal that is not accepted. -/
theorem shift_eq_nil {t : Terminal} {machine : List Stack} (h : t ∉ accepts machine) :
    shift t machine = [] := by
  refine List.flatMap_eq_nil_iff.2 fun s hs => List.eq_nil_iff_forall_not_mem.2 fun s' hs' => h ?_
  exact List.mem_flatMap.2 ⟨s, hs, Stack.mem_firsts_of_mem_step hs'⟩

theorem isReached_cases {machine : List Stack} (h : isReached machine = true) :
    machine = [] ∨ (∃ s, machine = [s] ∧ s.isProper = true) ∨ machine ∈ openings := by
  match machine with
  | [] => exact .inl rfl
  | [s] => exact .inr (.inl ⟨s, rfl, h⟩)
  | s :: s' :: machine => exact .inr (.inr (by simpa [isReached] using h))

/-- What a token leads to from a machine that can be reached can be reached. -/
theorem isReached_shift {machine : List Stack} (h : isReached machine = true) (t : Terminal) :
    isReached (shift t machine) = true := by
  by_cases ht : t ∈ accepts machine
  · rcases isReached_cases h with rfl | ⟨s, rfl, hs⟩ | hmachine
    · rfl
    · rw [shift, List.flatMap_singleton]
      rcases Stack.step_cases t hs with hstep | ⟨s', hstep, hs'⟩ | hstep
      · rw [hstep]
        rfl
      · rw [hstep]
        exact hs'
      · have hstart : shift t start = Stack.step t [.goal .program] := List.flatMap_singleton ..
        rw [hstep, ← hstart]
        by_cases hhead : t ∈ accepts start
        · exact isReached_openings start List.mem_cons_self t hhead
        · rw [shift_eq_nil hhead]
          rfl
    · exact isReached_openings machine (List.mem_cons_of_mem _ hmachine) t ht
  · rw [shift_eq_nil ht]
    rfl

/-! ## 5. What is read off the lists -/

namespace Stack

theorem eq_cons_of_mem_firsts {t : Terminal} (ht : t ∈ alone) {s : Stack} (hs : s.isProper = true)
    (h : t ∈ firsts s) : ∃ rest, s = .terminal t :: rest := by
  match s with
  | .terminal u :: rest =>
    obtain rfl : t = u := by simpa [firsts] using h
    exact ⟨rest, rfl⟩
  | .goal g :: rest =>
    obtain ⟨hheads, hfollow⟩ := g.isSound.2.1 t ht
    simp only [firsts, List.mem_append] at h
    rcases h with h | h
    · exact absurd h hheads
    · split at h
      · have hadmits := (isProper_cons.1 hs).1 t h
        exact absurd (by simpa [Symbol.admits] using hadmits) hfollow
      · simp at h

/-- A semicolon ends a statement. -/
theorem eq_of_mem_step_semicolon : ∀ {s : Stack}, s.isProper = true → ∀ s' ∈ step (.mark ';') s,
    s' = [.goal .program]
  | .terminal u :: rest, hs, s', h => by
    simp only [step] at h
    split at h
    · next hu =>
      subst hu
      rw [List.mem_singleton.1 h]
      exact ((isProper_cons.1 hs).2.1 _ rfl).symm
    · simp at h
  | .goal g :: rest, hs, s', h => by
    obtain ⟨-, hends, hrest⟩ := isProper_cons.1 hs
    simp only [step, List.mem_append, List.mem_map, List.mem_filter, decide_eq_true_eq] at h
    rcases h with ⟨p, ⟨hp, hhead⟩, rfl⟩ | h
    · obtain ⟨rfl, htail⟩ := g.isSound.2.2 p hp hhead
      rw [htail]
      exact (hends _ rfl).symm
    · split at h
      · exact eq_of_mem_step_semicolon hrest s' h
      · simp at h

end Stack

section Machine

variable {machine : List Stack} (h : isReached machine = true)

include h

/-- Where a value, a group or a media query may stand, nothing else may. -/
theorem eq_of_mem_accepts {t : Terminal} (ht : t ∈ alone) (hmem : t ∈ accepts machine) :
    ∃ rest, machine = [.terminal t :: rest] ∧ Stack.isProper (.terminal t :: rest) = true := by
  rcases isReached_cases h with rfl | ⟨s, rfl, hs⟩ | hmachine
  · simp [accepts] at hmem
  · obtain ⟨rest, rfl⟩ := Stack.eq_cons_of_mem_firsts ht hs (by simpa [accepts] using hmem)
    exact ⟨rest, rfl, hs⟩
  · exact absurd hmem (not_mem_accepts (List.mem_cons_of_mem _ hmachine) (by simp [ht]))

theorem mem_valueFollow : ∀ t ∈ accepts (shift .value machine), t ∈ valueFollow := by
  intro t ht
  by_cases hvalue : .value ∈ accepts machine
  · obtain ⟨rest, rfl, hs⟩ := eq_of_mem_accepts h (by simp [alone]) hvalue
    have hrest : t ∈ Stack.firsts rest := by
      simpa [accepts, shift, Stack.step] using ht
    simpa [Symbol.admits] using (Stack.isProper_cons.1 hs).1 t hrest
  · rw [shift_eq_nil hvalue] at ht
    simp [accepts] at ht

/-- After a semicolon the machine is back at the beginning of a statement, if it can go on. -/
theorem shift_semicolon : shift (.mark ';') machine = [] ∨ shift (.mark ';') machine = start := by
  have hall : ∀ s ∈ shift (.mark ';') machine, s = [.goal .program] := by
    intro s hs
    rcases isReached_cases h with rfl | ⟨s', rfl, hs'⟩ | hmachine
    · simp [shift] at hs
    · rw [shift, List.flatMap_singleton] at hs
      exact Stack.eq_of_mem_step_semicolon hs' s hs
    · rw [shift_eq_nil (not_mem_accepts (List.mem_cons_of_mem _ hmachine) (by simp))] at hs
      simp at hs
  rcases isReached_cases (isReached_shift h (.mark ';')) with hnone | ⟨s, hone, -⟩ | hopening
  · exact .inl hnone
  · right
    rw [hone] at hall ⊢
    rw [hall s List.mem_cons_self]
    rfl
  · obtain ⟨s, hs, hne⟩ := openings_spec.2 _ hopening
    exact absurd (hall s hs) hne

end Machine

end StyleLedger.Source
