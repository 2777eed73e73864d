import StyleLedger.Proofs.Selector.Lists
import StyleLedger.Proofs.Source.Cuts
import StyleLedger.Proofs.Source.Caseless

/-!
Positions in the `:nth-*()` pseudo-classes.

A position is written in one of a few ways (`IsPosition`). What is accepted in its place is a little
more (`IsLoose`): the term in `n` and the offset are both optional, and so is the sign of the offset.
Both together are what is found when the optional parts are dropped one after the other
(`dropStepTerm?_eq_some_iff`, `isOffset_iff`).

A selector may follow after the word `of`. The text is split at the first `of` between blanks, and
since no position holds that word, there is only one place to split at (`splitOf_eq`).

* `problem?_position_iff` — which arguments are accepted.
-/

namespace StyleLedger.Pseudo

open Text

/-! ## 1. Positions -/

/-- A sign, or nothing. -/
def IsSign (cs : List Char) : Prop :=
  cs = [] ∨ cs = ['+'] ∨ cs = ['-']

/-- One or more digits. -/
def IsDigits (cs : List Char) : Prop :=
  cs ≠ [] ∧ ∀ c ∈ cs, isDecimal c = true

/-- Blanks, if any. -/
def AreBlank (cs : List Char) : Prop :=
  ∀ c ∈ cs, isBlank c = true

/-- A term in `n`: an optional sign, digits if any, and the letter. -/
def IsStepTerm (cs : List Char) : Prop :=
  ∃ sign digits n, IsSign sign ∧ (∀ c ∈ digits, isDecimal c = true) ∧ (n = 'n' ∨ n = 'N') ∧
    cs = sign ++ digits ++ [n]

/-- A position: `odd`, `even`, an integer, or a term in `n` with an optional signed offset. -/
inductive IsPosition : List Char → Prop
  | word {cs : List Char} (h : cs.map asciiLower ∈ ["odd".toList, "even".toList]) : IsPosition cs
  | integer {sign digits : List Char} (hsign : IsSign sign) (hdigits : IsDigits digits) :
      IsPosition (sign ++ digits)
  | step {t : List Char} (ht : IsStepTerm t) : IsPosition t
  | offset {t g g' digits : List Char} {sign : Char} (ht : IsStepTerm t) (hg : AreBlank g)
      (hsign : sign = '+' ∨ sign = '-') (hg' : AreBlank g') (hdigits : IsDigits digits) :
      IsPosition (t ++ (g ++ sign :: (g' ++ digits)))

/-- What is taken for a position and is none: nothing at all, an integer with blanks after its sign,
and a term in `n` with an offset without a sign. -/
inductive IsLoose : List Char → Prop
  | empty : IsLoose []
  | apart {g digits : List Char} {sign : Char} (hsign : sign = '+' ∨ sign = '-') (hg : AreBlank g)
      (hne : g ≠ []) (hdigits : IsDigits digits) : IsLoose (sign :: (g ++ digits))
  | unsigned {t g digits : List Char} (ht : IsStepTerm t) (hg : AreBlank g)
      (hdigits : IsDigits digits) : IsLoose (t ++ (g ++ digits))

/-- What is accepted as a position. -/
def IsPattern (cs : List Char) : Prop :=
  IsPosition cs ∨ IsLoose cs

/-! ## 2. Signs, digits and blanks -/

section Classes

variable {cs xs ys : List Char} {c : Char}

/-- What all characters of a text are is found by looking at them one by one. -/
theorem forall_of_all {P : Char → Prop} [DecidablePred P] (h : (cs.all fun c => decide (P c)) = true) :
    ∀ c ∈ cs, P c :=
  fun c hc => of_decide_eq_true (List.all_eq_true.1 h c hc)

theorem isDecimal_spec (h : isDecimal c = true) :
    isBlank c = false ∧ c ∉ ['+', '-', 'n', 'N'] := by
  have hblanks : ∀ c ∈ Source.blankCodes.map Char.ofNat, isDecimal c = false :=
    forall_of_all (by decide)
  have hsigns : ∀ c ∈ ['+', '-', 'n', 'N'], isDecimal c = false := forall_of_all (by decide)
  constructor
  · by_contra hblank
    simpa [h] using hblanks c (Source.mem_blankCodes (by simpa using hblank))
  · intro hmem
    simpa [h] using hsigns c hmem

/-- No digit, blank or sign and no `n` is a letter of `of`. -/
theorem asciiLower_ne (h : isDecimal c = true ∨ isBlank c = true ∨ c ∈ ['+', '-', 'n', 'N']) :
    asciiLower c ≠ 'f' := by
  intro hf
  rcases h with h | h | h
  · rw [← Source.isDecimal_asciiLower, hf] at h
    exact absurd h (by decide)
  · rw [← Source.isBlank_asciiLower, hf] at h
    exact absurd h (by decide)
  · have hnone : ∀ d ∈ ['+', '-', 'n', 'N'], asciiLower d ≠ 'f' := forall_of_all (by decide)
    exact hnone c h hf

theorem isSign_singleton (h : c = '+' ∨ c = '-') : IsSign [c] := by
  rcases h with rfl | rfl
  · exact .inr (.inl rfl)
  · exact .inr (.inr rfl)

theorem areBlank_nil : AreBlank [] :=
  fun _ hc => absurd hc List.not_mem_nil

theorem trimStart_append (hblank : AreBlank xs) (hhead : ∀ c ∈ ys.head?, isBlank c = false) :
    trimStart (xs ++ ys) = ys := by
  rw [trimStart, List.dropWhile_append_of_pos hblank]
  cases ys with
  | nil => rfl
  | cons d ds => exact List.dropWhile_cons_of_neg (by simpa using hhead d rfl)

theorem trimStart_digits (hg : AreBlank xs) (hdigits : IsDigits ys) : trimStart (xs ++ ys) = ys :=
  trimStart_append hg fun _ hc => (isDecimal_spec (hdigits.2 _ (List.mem_of_mem_head? hc))).1

/-- A text is its blanks and what comes after them. -/
theorem exists_blanks (cs : List Char) :
    ∃ g, AreBlank g ∧ cs = g ++ trimStart cs ∧ (cs.head?.any isBlank = true → g ≠ []) := by
  refine ⟨cs.takeWhile isBlank, fun _ hc => List.mem_takeWhile_imp hc,
    (List.takeWhile_append_dropWhile ..).symm, fun hhead => ?_⟩
  cases cs with
  | nil => simp at hhead
  | cons c cs => simp [List.takeWhile_cons_of_pos (show isBlank c = true by simpa using hhead)]

/-- A text is its sign, if it has one, and what comes after it. -/
theorem exists_sign (cs : List Char) : ∃ sign, IsSign sign ∧ cs = sign ++ dropSign cs := by
  cases cs with
  | nil => exact ⟨[], .inl rfl, rfl⟩
  | cons c cs =>
    by_cases hc : c = '+' ∨ c = '-'
    · exact ⟨[c], isSign_singleton hc, by rw [dropSign, if_pos (by simpa using hc)]; rfl⟩
    · exact ⟨[], .inl rfl, by rw [dropSign, if_neg (by simpa using hc)]; rfl⟩

theorem dropSign_append {sign : List Char} (hsign : IsSign sign)
    (hhead : ∀ c ∈ cs.head?, ¬(c = '+' ∨ c = '-')) : dropSign (sign ++ cs) = cs := by
  rcases hsign with rfl | rfl | rfl
  · cases cs with
    | nil => rfl
    | cons c cs => rw [List.nil_append, dropSign, if_neg (by simpa using hhead c rfl)]
  · rfl
  · rfl

end Classes

/-! ## 3. Dropping one part after the other -/

section Dropping

variable {cs rest : List Char}

theorem dropStepTerm?_eq_some_iff :
    dropStepTerm? cs = some rest ↔ ∃ t, IsStepTerm t ∧ cs = t ++ rest := by
  constructor
  · intro h
    obtain ⟨sign, hsign, hcs⟩ := exists_sign cs
    have hdigits : dropSign cs = (dropSign cs).takeWhile isDecimal ++
        (dropSign cs).dropWhile isDecimal := (List.takeWhile_append_dropWhile ..).symm
    unfold dropStepTerm? at h
    split at h
    · next c left hleft =>
      split at h
      · next hn =>
        obtain rfl := Option.some.inj h
        refine ⟨_, ⟨sign, (dropSign cs).takeWhile isDecimal, c, hsign,
          fun _ hd => List.mem_takeWhile_imp hd, by simpa using hn, rfl⟩, ?_⟩
        conv_lhs => rw [hcs, hdigits, hleft]
        simp
      · simp at h
    · simp at h
  · rintro ⟨t, ⟨sign, digits, n, hsign, hdigits, hn, rfl⟩, rfl⟩
    have hnot : isDecimal n = false := by
      rcases hn with rfl | rfl
      all_goals decide
    have htext : sign ++ digits ++ [n] ++ rest = sign ++ (digits ++ n :: rest) := by simp
    have hhead : ∀ c ∈ (digits ++ n :: rest).head?, ¬(c = '+' ∨ c = '-') := by
      intro c hc hsigns
      cases digits with
      | nil =>
        obtain rfl : n = c := by simpa using hc
        rcases hn with rfl | rfl
        all_goals simp at hsigns
      | cons d digits =>
        obtain rfl : d = c := by simpa using hc
        have hout := (isDecimal_spec (hdigits d List.mem_cons_self)).2
        rcases hsigns with rfl | rfl
        all_goals simp at hout
    rw [htext, dropStepTerm?, dropSign_append hsign hhead, List.dropWhile_append_of_pos hdigits,
      List.dropWhile_cons_of_neg (by simp [hnot])]
    simp [hn]

/-- Digits begin with no sign. -/
theorem dropSign_digits {sign digits : List Char} (hsign : IsSign sign) (hdigits : IsDigits digits) :
    dropSign (sign ++ digits) = digits := by
  refine dropSign_append hsign fun c hc hsigns => ?_
  have hout := (isDecimal_spec (hdigits.2 c (List.mem_of_mem_head? hc))).2
  rcases hsigns with rfl | rfl
  all_goals simp at hout

theorem trimStart_offset {g sign g' digits : List Char} (hg : AreBlank g) (hsign : IsSign sign)
    (hg' : AreBlank g') (hdigits : IsDigits digits) :
    trimStart (dropSign (trimStart (g ++ (sign ++ (g' ++ digits))))) = digits := by
  rcases hsign with rfl | hsign
  · have hboth : AreBlank (g ++ g') := List.forall_mem_append.2 ⟨hg, hg'⟩
    have hdrop : dropSign digits = digits := dropSign_digits (.inl rfl) hdigits
    rw [List.nil_append, ← List.append_assoc, trimStart_digits hboth hdigits, hdrop]
    exact trimStart_digits areBlank_nil hdigits
  · have hhead : ∀ c ∈ (sign ++ (g' ++ digits)).head?, isBlank c = false := by
      rcases hsign with rfl | rfl
      all_goals
        intro c hc
        obtain rfl := Option.some.inj hc
        decide
    have hdrop : dropSign (sign ++ (g' ++ digits)) = g' ++ digits := by
      rcases hsign with rfl | rfl
      all_goals rfl
    rw [trimStart_append hg hhead, hdrop, trimStart_digits hg' hdigits]

theorem isOffset_iff : isOffset cs = true ↔ AreBlank cs ∨
    ∃ g sign g' digits, AreBlank g ∧ IsSign sign ∧ AreBlank g' ∧ IsDigits digits ∧
      cs = g ++ (sign ++ (g' ++ digits)) := by
  have hblank : (trimStart cs).isEmpty = true ↔ AreBlank cs := by
    rw [List.isEmpty_iff, trimStart, List.dropWhile_eq_nil_iff]
    rfl
  rw [isOffset, Bool.or_eq_true, hblank, Bool.and_eq_true]
  refine or_congr Iff.rfl ?_
  constructor
  · rintro ⟨hne, hall⟩
    obtain ⟨g, hg, hcs, -⟩ := exists_blanks cs
    obtain ⟨sign, hsign, hoffset⟩ := exists_sign (trimStart cs)
    obtain ⟨g', hg', hleft, -⟩ := exists_blanks (dropSign (trimStart cs))
    refine ⟨g, sign, g', _, hg, hsign, hg', ⟨by simpa using hne, List.all_eq_true.1 hall⟩, ?_⟩
    exact hcs.trans (congrArg (g ++ ·) (hoffset.trans (congrArg (sign ++ ·) hleft)))
  · rintro ⟨g, sign, g', digits, hg, hsign, hg', hdigits, rfl⟩
    rw [trimStart_offset hg hsign hg' hdigits]
    exact ⟨by simpa using hdigits.1, List.all_eq_true.2 hdigits.2⟩

end Dropping

/-! ## 4. Patterns -/

/-- The ends of a text are no blanks. -/
def IsTrim (cs : List Char) : Prop :=
  (∀ c ∈ cs.head?, isBlank c = false) ∧ ∀ c ∈ cs.getLast?, isBlank c = false

section Patterns

variable {cs xs ys : List Char}

theorem IsTrim.trim_eq (h : IsTrim cs) : trim cs = cs := by
  have hstart : trimStart cs = cs := trimStart_append areBlank_nil h.1
  rw [trim, hstart]
  refine List.rdropWhile_eq_self_iff.2 fun hne hblank => ?_
  rw [h.2 _ (List.getLast?_eq_some_getLast hne)] at hblank
  exact absurd hblank (by decide)

theorem isTrim_of_forall (h : ∀ c ∈ cs, isBlank c = false) : IsTrim cs :=
  ⟨fun c hc => h c (List.mem_of_mem_head? hc), fun c hc => h c (List.mem_of_mem_getLast? hc)⟩

theorem isTrim_append {between : List Char} (hxs : xs ≠ []) (hys : ys ≠ [])
    (hfirst : ∀ c ∈ xs, isBlank c = false) (hlast : ∀ c ∈ ys, isBlank c = false) :
    IsTrim (xs ++ (between ++ ys)) := by
  constructor
  · intro c hc
    rw [List.head?_append_of_ne_nil _ hxs] at hc
    exact hfirst c (List.mem_of_mem_head? hc)
  · intro c hc
    rw [← List.append_assoc, List.getLast?_append_of_ne_nil _ hys] at hc
    exact hlast c (List.mem_of_mem_getLast? hc)

theorem isTrim_trim (cs : List Char) : IsTrim (trim cs) := by
  constructor
  · intro c hc
    rw [head?_trim, Option.mem_def] at hc
    have hnot := List.head?_dropWhile_not isBlank cs
    rw [trimStart] at hc
    rw [hc] at hnot
    exact hnot
  · intro c hc
    have hne : trim cs ≠ [] := by
      rintro hnil
      simp [hnil] at hc
    rw [List.getLast?_eq_some_getLast hne, Option.mem_some_iff] at hc
    rw [← hc]
    exact Bool.not_eq_true _ ▸ List.rdropWhile_last_not isBlank (trimStart cs) hne

/-- Nothing but blanks is left of a text only when it is empty. -/
theorem IsTrim.eq_nil_of_append (h : IsTrim (xs ++ ys)) (hys : AreBlank ys) : ys = [] := by
  by_contra hne
  have hlast := h.2 (ys.getLast hne) (by
    rw [List.getLast?_append_of_ne_nil _ hne, List.getLast?_eq_some_getLast hne]
    rfl)
  rw [hys _ (List.getLast_mem hne)] at hlast
  exact absurd hlast (by decide)

theorem IsTrim.eq_nil_of_append_left (h : IsTrim (xs ++ ys)) (hxs : AreBlank xs) : xs = [] := by
  cases xs with
  | nil => rfl
  | cons c xs =>
    have hfirst := h.1 c rfl
    rw [hxs c List.mem_cons_self] at hfirst
    exact absurd hfirst (by decide)

theorem IsSign.not_mem {sign : List Char} (h : IsSign sign) :
    ∀ c ∈ sign, isBlank c = false ∧ c ≠ 'n' ∧ c ≠ 'N' ∧ asciiLower c ≠ 'f' := by
  rcases h with rfl | rfl | rfl
  all_goals exact forall_of_all (by decide)

theorem IsStepTerm.spec {t : List Char} (h : IsStepTerm t) :
    t ≠ [] ∧ ∀ c ∈ t, isBlank c = false ∧ asciiLower c ≠ 'f' := by
  obtain ⟨sign, digits, n, hsign, hdigits, hn, rfl⟩ := h
  refine ⟨by simp, fun c hc => ?_⟩
  simp only [List.mem_append, List.mem_singleton] at hc
  rcases hc with (hc | hc) | rfl
  · obtain ⟨hblank, -, -, hf⟩ := hsign.not_mem c hc
    exact ⟨hblank, hf⟩
  · exact ⟨(isDecimal_spec (hdigits c hc)).1, asciiLower_ne (.inl (hdigits c hc))⟩
  · rcases hn with rfl | rfl
    all_goals decide

/-- An offset counts as a pattern where there is no letter for a term. -/
theorem isStepPattern_of_offset (hnone : ∀ c ∈ cs, c ≠ 'n' ∧ c ≠ 'N') (h : isOffset cs = true) :
    isStepPattern cs = true := by
  cases hdrop : dropStepTerm? cs with
  | none => rwa [isStepPattern, hdrop]
  | some rest =>
    obtain ⟨t, ⟨sign, digits, n, -, -, hn, rfl⟩, rfl⟩ := dropStepTerm?_eq_some_iff.1 hdrop
    have hnot := hnone n (by simp)
    exact (hn.elim hnot.1 hnot.2).elim

theorem isStepPattern_append {t rest : List Char} (ht : IsStepTerm t) :
    isStepPattern (t ++ rest) = isOffset rest := by
  rw [isStepPattern, dropStepTerm?_eq_some_iff.2 ⟨t, ht, rfl⟩]

theorem isPosition_of_isInteger (h : isInteger cs = true) : IsPosition cs := by
  unfold isInteger at h
  split at h
  · next ds =>
    obtain ⟨hne, hall⟩ := Bool.and_eq_true_iff.1 h
    show IsPosition (['-'] ++ ds)
    exact .integer (.inr (.inr rfl)) ⟨by simpa using hne, List.all_eq_true.1 hall⟩
  · obtain ⟨hne, hall⟩ := Bool.and_eq_true_iff.1 h
    show IsPosition ([] ++ cs)
    exact .integer (.inl rfl) ⟨by simpa using hne, List.all_eq_true.1 hall⟩

/-- An offset behind a term, or alone. -/
theorem isPattern_of_isStepPattern (h : IsTrim cs) (hstep : isStepPattern cs = true) :
    IsPattern cs := by
  unfold isStepPattern at hstep
  split at hstep
  · next rest hdrop =>
    obtain ⟨t, ht, rfl⟩ := dropStepTerm?_eq_some_iff.1 hdrop
    rcases isOffset_iff.1 hstep with hblank | ⟨g, sign, g', digits, hg, hsign, hg', hdigits, rfl⟩
    · rw [h.eq_nil_of_append hblank, List.append_nil]
      exact .inl (.step ht)
    · have hsigned : ∀ c, c = '+' ∨ c = '-' → IsPattern (t ++ (g ++ c :: (g' ++ digits))) :=
        fun _ hc => .inl (.offset ht hg hc hg' hdigits)
      rcases hsign with rfl | rfl | rfl
      · have hboth : AreBlank (g ++ g') := List.forall_mem_append.2 ⟨hg, hg'⟩
        rw [List.nil_append, ← List.append_assoc g]
        exact .inr (.unsigned ht hboth hdigits)
      · exact hsigned '+' (.inl rfl)
      · exact hsigned '-' (.inr rfl)
  · rcases isOffset_iff.1 hstep with hblank | ⟨g, sign, g', digits, hg, hsign, hg', hdigits, rfl⟩
    · have htrim : IsTrim ([] ++ cs) := h
      rw [htrim.eq_nil_of_append hblank]
      exact .inr .empty
    · obtain rfl := h.eq_nil_of_append_left hg
      have hspread : ∀ c, c = '+' ∨ c = '-' → IsPattern (c :: (g' ++ digits)) := by
        intro c hc
        by_cases hg'nil : g' = []
        · rw [hg'nil]
          exact .inl (.integer (isSign_singleton hc) hdigits)
        · exact .inr (.apart hc hg' hg'nil hdigits)
      rcases hsign with rfl | rfl | rfl
      · have htrim : IsTrim (g' ++ digits) := h
        obtain rfl := htrim.eq_nil_of_append_left hg'
        exact .inl (.integer (.inl rfl) hdigits)
      · exact hspread '+' (.inl rfl)
      · exact hspread '-' (.inr rfl)

theorem IsPosition.isAccepted (h : IsPosition cs) :
    cs.map asciiLower ∈ ["odd".toList, "even".toList] ∨ isStepPattern cs = true := by
  cases h with
  | word h => exact .inl h
  | @integer sign digits hsign hdigits =>
    refine .inr (isStepPattern_of_offset (fun c hc => ?_) (isOffset_iff.2 (.inr
      ⟨[], sign, [], digits, areBlank_nil, hsign, areBlank_nil, hdigits, rfl⟩)))
    have hout : c ∉ ['n', 'N'] := by
      rcases List.mem_append.1 hc with hc | hc
      · obtain ⟨-, hsmall, hcapital, -⟩ := hsign.not_mem c hc
        simp [hsmall, hcapital]
      · exact fun hmem => (isDecimal_spec (hdigits.2 c hc)).2 (by simp at hmem ⊢; tauto)
    simpa using hout
  | step ht =>
    have hnil : isStepPattern (cs ++ []) = isOffset [] := isStepPattern_append ht
    rw [List.append_nil] at hnil
    exact .inr (hnil.trans rfl)
  | @offset t g g' digits sign ht hg hsign hg' hdigits =>
    refine .inr ((isStepPattern_append ht).trans (isOffset_iff.2 (.inr ?_)))
    exact ⟨g, [sign], g', digits, hg, isSign_singleton hsign, hg', hdigits, rfl⟩

theorem IsLoose.isAccepted (h : IsLoose cs) : isStepPattern cs = true := by
  cases h with
  | empty => rfl
  | @apart g digits sign hsign hg _ hdigits =>
    refine isStepPattern_of_offset (fun c hc => ?_) (isOffset_iff.2 (.inr
      ⟨[], [sign], g, digits, areBlank_nil, isSign_singleton hsign, hg, hdigits, rfl⟩))
    have hout : c ∉ ['n', 'N'] := by
      rcases List.mem_cons.1 hc with rfl | hc
      · rcases hsign with rfl | rfl
        all_goals decide
      rcases List.mem_append.1 hc with hc | hc
      · rintro hmem
        have hblank := hg c hc
        simp only [List.mem_cons, List.not_mem_nil, or_false] at hmem
        rcases hmem with rfl | rfl
        all_goals exact absurd hblank (by decide)
      · exact fun hmem => (isDecimal_spec (hdigits.2 c hc)).2 (by simp at hmem ⊢; tauto)
    simpa using hout
  | @unsigned t g digits ht hg hdigits =>
    refine (isStepPattern_append ht).trans (isOffset_iff.2 (.inr ?_))
    exact ⟨g, [], [], digits, hg, .inl rfl, areBlank_nil, hdigits, rfl⟩

/-- What is accepted as a position in a text without blanks around it. -/
theorem isPattern_iff (h : IsTrim cs) :
    (cs.map asciiLower ∈ ["odd".toList, "even".toList] ∨ isInteger cs = true ∨
      isStepPattern cs = true) ↔ IsPattern cs := by
  constructor
  · rintro (hword | hinteger | hstep)
    · exact .inl (.word hword)
    · exact .inl (isPosition_of_isInteger hinteger)
    · exact isPattern_of_isStepPattern h hstep
  · rintro (hposition | hloose)
    · exact hposition.isAccepted.imp_right .inr
    · exact .inr (.inr hloose.isAccepted)

/-- What tells a position from what is taken for one. -/
theorem IsPosition.spec (h : IsPosition cs) : cs.map asciiLower ∈ ["odd".toList, "even".toList] ∨
    (∃ sign digits, IsSign sign ∧ IsDigits digits ∧ cs = sign ++ digits) ∨
      ∃ rest, dropStepTerm? cs = some rest ∧ (rest = [] ∨ '+' ∈ rest ∨ '-' ∈ rest) := by
  cases h with
  | word h => exact .inl h
  | integer hsign hdigits => exact .inr (.inl ⟨_, _, hsign, hdigits, rfl⟩)
  | step ht =>
    exact .inr (.inr ⟨[], dropStepTerm?_eq_some_iff.2 ⟨_, ht, (List.append_nil _).symm⟩, .inl rfl⟩)
  | @offset t g g' digits sign ht hg hsign hg' hdigits =>
    refine .inr (.inr ⟨_, dropStepTerm?_eq_some_iff.2 ⟨t, ht, rfl⟩, .inr ?_⟩)
    rcases hsign with rfl | rfl
    · exact .inl (by simp)
    · exact .inr (by simp)

/-- The letter of a term is no blank, no digit and no sign. -/
theorem IsStepTerm.exists_letter {t : List Char} (h : IsStepTerm t) : ∃ n ∈ t,
    isBlank n = false ∧ isDecimal n = false ∧ n ≠ '+' ∧ n ≠ '-' := by
  obtain ⟨sign, digits, n, -, -, hn, rfl⟩ := h
  refine ⟨n, by simp, ?_⟩
  rcases hn with rfl | rfl
  all_goals decide

theorem IsStepTerm.not_integer {t rest sign digits : List Char} (ht : IsStepTerm t)
    (hsign : IsSign sign) (hdigits : IsDigits digits) : t ++ rest ≠ sign ++ digits := by
  intro heq
  obtain ⟨n, hn, -, hdecimal, hplus, hminus⟩ := ht.exists_letter
  rcases List.mem_append.1 (heq ▸ List.mem_append_left rest hn) with hmem | hmem
  · rcases hsign with rfl | rfl | rfl
    · simp at hmem
    · exact hplus (by simpa using hmem)
    · exact hminus (by simpa using hmem)
  · simp [hdigits.2 n hmem] at hdecimal

theorem mem_word (h : cs.map asciiLower ∈ ["odd".toList, "even".toList]) :
    ∀ c ∈ cs, isDecimal c = false ∧ isBlank c = false ∧ asciiLower c ≠ 'f' := by
  intro c hc
  have hletters : asciiLower c ∈ "oddeven".toList := by
    have hmem : asciiLower c ∈ cs.map asciiLower := List.mem_map_of_mem hc
    simp only [List.mem_cons, List.not_mem_nil, or_false] at h
    rcases h with h | h
    all_goals
      rw [h] at hmem
      revert hmem
      generalize asciiLower c = d
      simp
      tauto
  have hnone : ∀ d ∈ "oddeven".toList, isDecimal d = false ∧ isBlank d = false ∧ d ≠ 'f' :=
    forall_of_all (by decide)
  rw [← Source.isDecimal_asciiLower, ← Source.isBlank_asciiLower]
  exact hnone _ hletters

/-- What is taken for a position, and is none by the rules, is none. -/
theorem IsLoose.not_isPosition (h : IsLoose cs) : ¬IsPosition cs := by
  intro hposition
  cases h with
  | empty =>
    rcases hposition.spec with hword | ⟨sign, digits, -, hdigits, heq⟩ | ⟨rest, hrest, -⟩
    · exact absurd hword (by decide)
    · exact hdigits.1 (List.append_eq_nil_iff.1 heq.symm).2
    · simp [dropStepTerm?, dropSign] at hrest
  | @apart g digits sign hsign hg hne hdigits =>
    rcases hposition.spec with hword | ⟨sign', digits', hsign', hdigits', heq⟩ | ⟨rest, hrest, -⟩
    · rcases hsign with rfl | rfl
      all_goals simp [asciiLower] at hword
    · obtain ⟨b, hb⟩ := List.exists_mem_of_ne_nil g hne
      have hmem : b ∈ sign' ++ digits' := heq ▸ (by simp [hb])
      have hblank := hg b hb
      rcases List.mem_append.1 hmem with hmem | hmem
      · simp [(hsign'.not_mem b hmem).1] at hblank
      · simp [(isDecimal_spec (hdigits'.2 b hmem)).1] at hblank
    · obtain ⟨t, ht, heq⟩ := dropStepTerm?_eq_some_iff.1 hrest
      obtain ⟨n, hn, hblank, hdecimal, hplus, hminus⟩ := ht.exists_letter
      have hmem : n ∈ sign :: (g ++ digits) := heq ▸ List.mem_append_left rest hn
      rcases List.mem_cons.1 hmem with rfl | hmem
      · exact hsign.elim hplus hminus
      rcases List.mem_append.1 hmem with hmem | hmem
      · simp [hg n hmem] at hblank
      · simp [hdigits.2 n hmem] at hdecimal
  | @unsigned t g digits ht hg hdigits =>
    rcases hposition.spec with hword | ⟨sign, digits', hsign, hdigits', heq⟩ | ⟨rest, hrest, hmark⟩
    · obtain ⟨d, hd⟩ := List.exists_mem_of_ne_nil digits hdigits.1
      have hnot := (mem_word hword d (by simp [hd])).1
      simp [hdigits.2 d hd] at hnot
    · exact ht.not_integer hsign hdigits' heq
    · rw [dropStepTerm?_eq_some_iff.2 ⟨t, ht, rfl⟩] at hrest
      obtain rfl := Option.some.inj hrest
      have hunsigned : ∀ c ∈ g ++ digits, c ≠ '+' ∧ c ≠ '-' := by
        intro c hc
        rcases List.mem_append.1 hc with hc | hc
        · have hblank := hg c hc
          constructor
          all_goals
            rintro rfl
            exact absurd hblank (by decide)
        · have hout := (isDecimal_spec (hdigits.2 c hc)).2
          simp only [List.mem_cons, not_or] at hout
          exact ⟨hout.1, hout.2.1⟩
      rcases hmark with hnil | hplus | hminus
      · exact hdigits.1 (List.append_eq_nil_iff.1 hnil).2
      · exact (hunsigned _ hplus).1 rfl
      · exact (hunsigned _ hminus).2 rfl

/-- No pattern holds the second letter of `of`. -/
theorem IsPattern.not_mem (h : IsPattern cs) : ∀ c ∈ cs, asciiLower c ≠ 'f' := by
  have hblanks : ∀ {g}, AreBlank g → ∀ c ∈ g, asciiLower c ≠ 'f' :=
    fun hg c hc => asciiLower_ne (.inr (.inl (hg c hc)))
  have hdecimals : ∀ {digits}, IsDigits digits → ∀ c ∈ digits, asciiLower c ≠ 'f' :=
    fun hdigits c hc => asciiLower_ne (.inl (hdigits.2 c hc))
  have hsigned : ∀ {c}, c = '+' ∨ c = '-' → asciiLower c ≠ 'f' := by
    rintro c (rfl | rfl)
    all_goals decide
  have hterms : ∀ {t}, IsStepTerm t → ∀ c ∈ t, asciiLower c ≠ 'f' :=
    fun ht c hc => (ht.spec.2 c hc).2
  rcases h with hposition | hloose
  · cases hposition with
    | word h => exact fun c hc => (mem_word h c hc).2.2
    | integer hsign hdigits =>
      exact List.forall_mem_append.2
        ⟨fun c hc => (hsign.not_mem c hc).2.2.2, hdecimals hdigits⟩
    | step ht => exact hterms ht
    | offset ht hg hsign hg' hdigits =>
      simp only [List.forall_mem_append, List.forall_mem_cons]
      exact ⟨hterms ht, hblanks hg, hsigned hsign, hblanks hg', hdecimals hdigits⟩
  · cases hloose with
    | empty => simp
    | apart hsign hg _ hdigits =>
      simp only [List.forall_mem_append, List.forall_mem_cons]
      exact ⟨hsigned hsign, hblanks hg, hdecimals hdigits⟩
    | unsigned ht hg hdigits =>
      simp only [List.forall_mem_append]
      exact ⟨hterms ht, hblanks hg, hdecimals hdigits⟩

theorem IsPattern.isTrim (h : IsPattern cs) : IsTrim cs := by
  have hdecimals : ∀ {digits}, IsDigits digits → ∀ c ∈ digits, isBlank c = false :=
    fun hdigits c hc => (isDecimal_spec (hdigits.2 c hc)).1
  have hterms : ∀ {t}, IsStepTerm t → ∀ c ∈ t, isBlank c = false :=
    fun ht c hc => (ht.spec.2 c hc).1
  rcases h with hposition | hloose
  · cases hposition with
    | word h => exact isTrim_of_forall fun c hc => (mem_word h c hc).2.1
    | integer hsign hdigits =>
      exact isTrim_of_forall (List.forall_mem_append.2
        ⟨fun c hc => (hsign.not_mem c hc).1, hdecimals hdigits⟩)
    | step ht => exact isTrim_of_forall (hterms ht)
    | @offset t g g' digits sign ht hg hsign hg' hdigits =>
      have htext : t ++ (g ++ sign :: (g' ++ digits)) = t ++ ((g ++ sign :: g') ++ digits) := by simp
      rw [htext]
      exact isTrim_append ht.spec.1 hdigits.1 (hterms ht) (hdecimals hdigits)
  · cases hloose with
    | empty => exact isTrim_of_forall (by simp)
    | @apart g digits sign hsign hg _ hdigits =>
      show IsTrim ([sign] ++ (g ++ digits))
      refine isTrim_append (by simp) hdigits.1 ?_ (hdecimals hdigits)
      exact fun c hc => ((isSign_singleton hsign).not_mem c hc).1
    | unsigned ht hg hdigits =>
      exact isTrim_append ht.spec.1 hdigits.1 (hterms ht) (hdecimals hdigits)

end Patterns

/-! ## 5. Selectors behind a position -/

/-- A text is made of two texts with the word `of` between them, set apart by blanks. -/
def IsOf (cs position selector : List Char) : Prop :=
  ∃ g word g', cs = position ++ (g ++ (word ++ (g' ++ selector))) ∧ AreBlank g ∧ g ≠ [] ∧
    word.map asciiLower = "of".toList ∧ AreBlank g' ∧ g' ≠ []

section Of

variable {cs front position selector : List Char}

/-- A text with `of` in it holds the second letter of that word. -/
theorem IsOf.exists_mem (h : IsOf cs position selector) : ∃ c ∈ cs, asciiLower c = 'f' := by
  obtain ⟨g, word, g', rfl, -, -, hword, -, -⟩ := h
  have hmem : 'f' ∈ word.map asciiLower := hword ▸ by decide
  obtain ⟨c, hc, hlower⟩ := List.mem_map.1 hmem
  exact ⟨c, by simp [hc], hlower⟩

theorem IsOf.cons (h : IsOf cs position selector) (c : Char) :
    IsOf (c :: cs) (c :: position) selector := by
  obtain ⟨g, word, g', rfl, h⟩ := h
  exact ⟨g, word, g', rfl, h⟩

/-- The blanks in front of a selector belong to what is between. -/
theorem IsOf.trimStart (h : IsOf cs position selector) :
    IsOf cs position (trimStart selector) := by
  obtain ⟨g, word, g', rfl, hg, hgne, hword, hg', hg'ne⟩ := h
  obtain ⟨g'', hg'', hselector, -⟩ := exists_blanks selector
  refine ⟨g, word, g' ++ g'', ?_, hg, hgne, hword, List.forall_mem_append.2 ⟨hg', hg''⟩,
    List.append_ne_nil_of_left_ne_nil hg'ne g''⟩
  conv_lhs => rw [hselector]
  simp only [List.append_assoc]

/-- The blanks behind a position belong to what is between. -/
theorem IsOf.trimmed (h : IsOf cs position selector) (hcs : IsTrim cs) (hne : position ≠ []) :
    IsOf cs (trim position) selector ∧ trim position ≠ [] ∧ trim position ⊆ position := by
  obtain ⟨g, word, g', rfl, hg, hgne, hof⟩ := h
  obtain ⟨front, back, hposition, hfront, hback⟩ := exists_trim position
  have hhead : ∀ c ∈ position.head?, isBlank c = false :=
    fun c hc => hcs.1 c (List.mem_head?_append_of_mem_head? hc)
  have hleft : trim position ≠ [] := by
    intro hnil
    obtain ⟨c, ds, rfl⟩ := List.exists_cons_of_ne_nil hne
    simpa [hhead c rfl] using trim_eq_nil_iff.1 hnil c List.mem_cons_self
  have hnone : front = [] := by
    cases front with
    | nil => rfl
    | cons c front =>
      have hc : isBlank c = false := hhead c (by rw [hposition]; rfl)
      simpa [hc] using hfront c List.mem_cons_self
  rw [hnone, List.nil_append] at hposition
  refine ⟨⟨back ++ g, word, g', ?_, List.forall_mem_append.2 ⟨hback, hg⟩,
    List.append_ne_nil_of_right_ne_nil back hgne, hof⟩, hleft, ?_⟩
  · conv_lhs => rw [hposition]
    simp only [List.append_assoc]
  · conv_rhs => rw [hposition]
    exact List.subset_append_left _ _

/-- What a text is split into. -/
theorem splitOf_spec (h : splitOf front cs = some (position, selector)) : ∃ passed,
    position = front.reverse ++ passed ∧ IsOf cs passed selector ∧ position ≠ [] ∧ selector ≠ [] ∧
      '\n' ∉ passed ++ selector := by
  induction cs generalizing front with
  | nil => simp [splitOf] at h
  | cons c cs ih =>
    rw [splitOf] at h
    split at h
    · next hhere =>
      obtain ⟨rfl, rfl⟩ := Prod.mk.inj (Option.some.inj h)
      simp only [Bool.and_eq_true, Bool.not_eq_eq_eq_not, Bool.not_true, beq_iff_eq,
        List.isEmpty_eq_false_iff, List.contains_eq_mem, decide_eq_false_iff_not] at hhere
      obtain ⟨⟨⟨⟨⟨hblank, hfront⟩, hword⟩, hbehind⟩, hselector⟩, hlines⟩ := hhere
      obtain ⟨g, hg, hcs, hgne⟩ := exists_blanks (c :: cs)
      obtain ⟨g', hg', hleft, hg'ne⟩ := exists_blanks ((trimStart (c :: cs)).drop 2)
      refine ⟨[], by simp, ⟨g, (trimStart (c :: cs)).take 2, g', ?_, hg, hgne hblank, hword, hg',
        hg'ne hbehind⟩, by simpa using hfront, hselector, hlines⟩
      refine hcs.trans (congrArg (g ++ ·) ?_)
      exact (List.take_append_drop 2 _).symm.trans (congrArg (_ ++ ·) hleft)
    · split at h
      · simp at h
      · next hline =>
        obtain ⟨passed, rfl, hof, hne, hselector, hlines⟩ := ih h
        refine ⟨c :: passed, by simp, hof.cons c, hne, hselector, ?_⟩
        rw [List.cons_append, List.mem_cons, not_or]
        exact ⟨fun heq => hline heq.symm, hlines⟩

/-- Behind blanks that are no longer than a text, its second letter is one of the text or the blank
that comes after. -/
theorem take_trimStart_ne {b : Char} (hb : isBlank b = true)
    (hlast : ∀ c ∈ cs.getLast?, isBlank c = false) (hne : cs ≠ [])
    (hnone : ∀ c ∈ cs, asciiLower c ≠ 'f') (back : List Char) :
    ((trimStart (cs ++ b :: back)).take 2).map asciiLower ≠ ['o', 'f'] := by
  have hleft : trimStart cs ≠ [] := by
    intro hnil
    have hblank := List.dropWhile_eq_nil_iff.1 hnil _ (List.getLast_mem hne)
    rw [hlast _ (List.getLast?_eq_some_getLast hne)] at hblank
    exact absurd hblank (by decide)
  have hstart : trimStart (cs ++ b :: back) = trimStart cs ++ b :: back := by
    rw [trimStart, List.dropWhile_append]
    exact if_neg (mt List.isEmpty_iff.1 hleft)
  intro heq
  rw [hstart] at heq
  obtain ⟨c, ds, hds⟩ := List.exists_cons_of_ne_nil hleft
  cases ds with
  | nil =>
    have hf : asciiLower b = 'f' := by simp_all
    exact asciiLower_ne (.inr (.inl hb)) hf
  | cons d ds =>
    have hf : asciiLower d = 'f' := by simp_all
    have hmem : d ∈ trimStart cs := by simp [hds]
    exact hnone d ((List.dropWhile_sublist isBlank).mem hmem) hf

/-- Where a text is split: what is in front has no `of` and does not end with a blank. -/
theorem splitOf_eq (hof : IsOf cs position selector)
    (hnone : ∀ c ∈ position, asciiLower c ≠ 'f') (hfirst : front ≠ [] ∨ position ≠ [])
    (hlast : ∀ c ∈ position.getLast?, isBlank c = false) (hselector : selector ≠ [])
    (hhead : ∀ c ∈ selector.head?, isBlank c = false) (hlines : '\n' ∉ position ++ selector) :
    splitOf front cs = some (front.reverse ++ position, selector) := by
  obtain ⟨g, word, g', rfl, hg, hgne, hword, hg', hg'ne⟩ := hof
  obtain ⟨b, gs, rfl⟩ := List.exists_cons_of_ne_nil hgne
  have hb : isBlank b = true := hg b List.mem_cons_self
  induction position generalizing front with
  | nil =>
    obtain ⟨o, f, rfl, ho, hf⟩ : ∃ o f, word = [o, f] ∧ asciiLower o = 'o' ∧ asciiLower f = 'f' := by
      obtain ⟨o, fs, rfl, ho, hword⟩ := List.map_eq_cons_iff.1 hword
      obtain ⟨f, es, rfl, hf, hword⟩ := List.map_eq_cons_iff.1 hword
      obtain rfl := List.map_eq_nil_iff.1 hword
      exact ⟨o, f, rfl, ho, hf⟩
    have hhere : ∀ c ∈ (o :: f :: (g' ++ selector)).head?, isBlank c = false := by
      intro c hc
      obtain rfl := Option.some.inj hc
      rw [← Source.isBlank_asciiLower, ho]
      decide
    have hstart : (b :: (gs ++ ([o, f] ++ (g' ++ selector)))).dropWhile isBlank =
        o :: f :: (g' ++ selector) :=
      (trimStart_append hg hhere :)
    have hrest : (g' ++ selector).dropWhile isBlank = selector := trimStart_append hg' hhead
    obtain ⟨d, ds, rfl⟩ := List.exists_cons_of_ne_nil hg'ne
    have hd : isBlank d = true := hg' d List.mem_cons_self
    have hfront : front ≠ [] := hfirst.resolve_right (absurd rfl)
    rw [List.nil_append, List.cons_append, splitOf, hstart, if_pos ?_]
    · simpa using hrest
    · simp only [List.drop_succ_cons, List.drop_zero, hrest]
      simpa [hb, ho, hf, hd, hselector, hfront] using hlines
  | cons c ps ih =>
    have hword := take_trimStart_ne hb hlast (List.cons_ne_nil c ps) hnone
      (gs ++ (word ++ (g' ++ selector)))
    have hline : c ≠ '\n' := by
      rintro rfl
      simp at hlines
    rw [List.cons_append, splitOf, if_neg ?_, if_neg hline, ih]
    · simp
    · exact fun d hd => hnone d (List.mem_cons_of_mem c hd)
    · exact .inl (List.cons_ne_nil c front)
    · exact fun d hd => hlast d (List.mem_getLast?_cons hd)
    · exact fun hmem => hlines (List.mem_cons_of_mem c hmem)
    · intro hhere
      simp only [Bool.and_eq_true, beq_iff_eq] at hhere
      obtain ⟨⟨⟨⟨-, hof⟩, -⟩, -⟩, -⟩ := hhere
      exact hword hof

end Of

/-! ## 6. Positions as arguments -/

section Arguments

variable {name : String} {arguments position selector : List Char}

theorem problem?_position (hname : name ∈ positionNames) (arguments : String) :
    problem? (call name arguments) = positionProblem? name arguments.toList := by
  obtain ⟨hcall, hlower⟩ := functional?_call (List.mem_append_right listNames hname) arguments
  have hall : ∀ name ∈ positionNames, name ∉ listNames ∧ name ≠ "has" := by decide
  obtain ⟨hlist, hhas⟩ := hall name hname
  simp only [problem?, hcall, hlower]
  exact (if_neg hlist).trans ((if_neg hhas).trans (if_pos hname))

theorem positionProblem?_of_none (hsplit : splitOf [] (trim arguments) = none) :
    positionProblem? name arguments = none ↔ IsPattern (trim arguments) := by
  rw [← isPattern_iff (isTrim_trim arguments)]
  simp only [positionProblem?, hsplit, Option.bind_none, Option.none_or, List.mem_cons]
  grind

theorem selectorFault?_trim (cs : List Char) : selectorFault? (trim cs) = selectorFault? cs := by
  simp only [selectorFault?, trim_trim]

theorem positionProblem?_of_some (hsplit : splitOf [] (trim arguments) = some (position, selector)) :
    positionProblem? name arguments = none ↔
      IsPattern (trim position) ∧ selectorFault? selector = none := by
  rw [← isPattern_iff (isTrim_trim position), ← selectorFault?_trim selector]
  simp only [positionProblem?, hsplit, Option.bind_some, Option.or_eq_none_iff,
    Option.map_eq_none_iff, List.mem_cons]
  grind

/-- What is wrong with the arguments of a pseudo-class that takes a position. -/
theorem positionProblem?_eq_none_iff (name : String) (arguments : List Char) :
    positionProblem? name arguments = none ↔
    IsPattern (trim arguments) ∨ ∃ position selector, IsOf (trim arguments) position selector ∧
      IsPattern position ∧ position ≠ [] ∧ selectorFault? selector = none ∧
        '\n' ∉ position ++ selector := by
  have hnof : IsPattern (trim arguments) → ∀ p s, ¬IsOf (trim arguments) p s := by
    intro hpattern p s hof
    obtain ⟨c, hc, hf⟩ := hof.exists_mem
    exact hpattern.not_mem c hc hf
  constructor
  · intro haccepted
    cases hsplit : splitOf [] (trim arguments) with
    | none => exact .inl ((positionProblem?_of_none hsplit).1 haccepted)
    | some split =>
      obtain ⟨p, s⟩ := split
      obtain ⟨hpattern, hselector⟩ := (positionProblem?_of_some hsplit).1 haccepted
      obtain ⟨_, rfl, hof, hne, -, hlines⟩ := splitOf_spec hsplit
      obtain ⟨hof, hne, hsub⟩ := hof.trimmed (isTrim_trim arguments) hne
      refine .inr ⟨_, s, hof, hpattern, hne, hselector, fun hmem => hlines ?_⟩
      rw [List.mem_append] at hmem ⊢
      exact hmem.imp_left fun hmem => hsub hmem
  · rintro (hpattern | ⟨p, s, hof, hpattern, hp, hselector, hlines⟩)
    · cases hsplit : splitOf [] (trim arguments) with
      | none => exact (positionProblem?_of_none hsplit).2 hpattern
      | some split =>
        obtain ⟨passed, -, hof, -⟩ := splitOf_spec hsplit
        exact (hnof hpattern _ _ hof).elim
    · have hs : trimStart s ≠ [] := by
        intro hnil
        have htrim : trim s = [] := by rw [trim, hnil]; rfl
        simp [selectorFault?, htrim] at hselector
      have hhead : ∀ c ∈ (trimStart s).head?, isBlank c = false :=
        fun c hc => (isTrim_trim s).1 c (head?_trim s ▸ hc)
      have hfault : selectorFault? (trimStart s) = none := by
        rw [← hselector, ← selectorFault?_trim, ← selectorFault?_trim s, trim,
          show trimStart (trimStart s) = trimStart s from List.dropWhile_idempotent isBlank s]
        rfl
      have hline : '\n' ∉ p ++ trimStart s := by
        refine fun hmem => hlines ?_
        rw [List.mem_append] at hmem ⊢
        exact hmem.imp_right fun hmem => (List.dropWhile_sublist isBlank).mem hmem
      have hsplit : splitOf [] (trim arguments) = some ([].reverse ++ p, trimStart s) :=
        splitOf_eq hof.trimStart hpattern.not_mem (.inr hp) hpattern.isTrim.2 hs hhead hline
      refine (positionProblem?_of_some hsplit).2 ⟨?_, hfault⟩
      rw [List.reverse_nil, List.nil_append, hpattern.isTrim.trim_eq]
      exact hpattern

end Arguments

/-- Which arguments are accepted for a position, blanks around them aside.

* They must be a position or what is taken for one, or such a text, not empty, and a selector with
  which nothing is obviously wrong with `of` between them, and no line may end in either.
* So where nothing could be taken for a position that is none, and no line ends, the arguments must
  be a position, with or without a selector behind `of`. -/
theorem problem?_position_iff {name : String} (hname : name ∈ positionNames) (arguments : String) :
    (problem? (call name arguments) = none ↔ IsPattern (trim arguments.toList) ∨
      ∃ position selector, IsOf (trim arguments.toList) position selector ∧ IsPattern position ∧
        position ≠ [] ∧ selectorFault? selector = none ∧ '\n' ∉ position ++ selector) ∧
    (¬IsLoose (trim arguments.toList) →
      (∀ position selector, IsOf (trim arguments.toList) position selector →
        ¬IsLoose position ∧ '\n' ∉ position ++ selector) →
      (problem? (call name arguments) = none ↔ IsPosition (trim arguments.toList) ∨
        ∃ position selector, IsOf (trim arguments.toList) position selector ∧
          IsPosition position ∧ selectorFault? selector = none)) := by
  have hiff := positionProblem?_eq_none_iff name arguments.toList
  rw [← problem?_position hname] at hiff
  refine ⟨hiff, fun hloose hof => hiff.trans (or_congr ?_ (exists₂_congr fun p s => ?_))⟩
  · exact or_iff_left hloose
  · refine and_congr_right fun hsplit => ?_
    obtain ⟨hp, hlines⟩ := hof p s hsplit
    have hposition : IsPattern p ↔ IsPosition p := or_iff_left hp
    rw [hposition]
    constructor
    · rintro ⟨hposition, -, hselector, -⟩
      exact ⟨hposition, hselector⟩
    · rintro ⟨hposition, hselector⟩
      refine ⟨hposition, ?_, hselector, hlines⟩
      rintro rfl
      exact IsLoose.empty.not_isPosition hposition

theorem problem?_position_iff_backwards :
    problem? (call "nth-child" "-n + 3 of .a") = none ∧
      (problem? (call "nth-child" "-n + 3") = none ↔ IsPosition "-n + 3".toList ∨
        ∃ position selector, IsOf "-n + 3".toList position selector ∧ IsPosition position ∧
          selectorFault? selector = none) := by
  have hposition : IsPosition "-n + 3".toList := by
    show IsPosition (['-', 'n'] ++ ([' '] ++ '+' :: ([' '] ++ ['3'])))
    have hblank : AreBlank [' '] := forall_of_all (by decide)
    exact .offset ⟨['-'], [], 'n', .inr (.inr rfl), by simp, .inl rfl, rfl⟩ hblank (.inl rfl) hblank
      ⟨by simp, forall_of_all (by decide)⟩
  have hof : IsOf "-n + 3 of .a".toList "-n + 3".toList ".a".toList :=
    ⟨[' '], "of".toList, [' '], rfl, forall_of_all (by decide), by simp, by decide,
      forall_of_all (by decide), by simp⟩
  refine ⟨(problem?_position_iff (by decide) "-n + 3 of .a").1.2 (.inr ?_),
    (problem?_position_iff (by decide) "-n + 3").2 ?_ ?_⟩
  · exact ⟨_, _, hof, .inl hposition, by decide, by decide, by decide⟩
  · exact fun hloose => hloose.not_isPosition hposition
  · intro position selector hof
    obtain ⟨c, hc, hf⟩ := hof.exists_mem
    exact ((IsPattern.not_mem (.inl hposition)) c hc hf).elim

/-- Nothing at all is accepted as a position. -/
theorem not_problem?_position_iff : ¬∀ name ∈ positionNames, ∀ arguments : String,
    problem? (call name arguments) = none ↔ IsPosition (trim arguments.toList) ∨
      ∃ position selector, IsOf (trim arguments.toList) position selector ∧
        IsPosition position ∧ selectorFault? selector = none := by
  intro h
  rcases (h "nth-child" (by decide) "").1 (by decide) with hposition | ⟨position, selector, hof, -⟩
  · exact IsLoose.empty.not_isPosition hposition
  · obtain ⟨c, hc, -⟩ := hof.exists_mem
    exact absurd hc List.not_mem_nil

end StyleLedger.Pseudo
