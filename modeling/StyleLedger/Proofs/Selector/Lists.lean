import StyleLedger.Proofs.Descriptor.Bounds
import StyleLedger.Proofs.Spacing
import StyleLedger.Selector.Pseudo

/-!
Lists of selectors in `:is()`, `:where()` and `:not()`.

The arguments are cut at every comma, and the brackets of a part are counted, not matched. So it is
not the selectors of a list that are looked at but the texts between commas, and for a selector with
a list of its own inside the two differ: its brackets do not come out even in any part.

What is asked of a part is that nothing is wrong with it, which is a fact about the text around its
blanks as well (`isSound_trim_iff`) and, but for brackets and digits, about any text it stands in.
From this the parts of a text are sound just when the text is and every comma in it stands where the
brackets come out even and before no digit (`areSound_iff`). In a text whose brackets are nested
these are the commas outside of all brackets (`IsNested.of_prefix`).

* `problem?_list_iff` — which lists are accepted.
-/

namespace StyleLedger

/-! ## 1. Cutting at commas -/

namespace Text

variable {w xs ys cs : List Char} {c : Char}

/-- A piece without a character does not go across it. -/
theorem infix_append_cons_iff (hc : c ∉ w) : w <:+: xs ++ c :: ys ↔ w <:+: xs ∨ w <:+: ys := by
  constructor
  · intro h
    rcases List.infix_append_iff.1 h with hxs | hys | ⟨front, back, rfl, hfront, hback⟩
    · exact .inl hxs
    · rcases List.infix_cons_iff.1 hys with hprefix | hys
      · cases w with
        | nil => exact .inl List.nil_infix
        | cons d w =>
          obtain ⟨rfl, -⟩ := List.cons_prefix_cons.1 hprefix
          simp at hc
      · exact .inr hys
    · cases back with
      | nil => exact .inl (by simpa using hfront.isInfix)
      | cons d back =>
        obtain ⟨rfl, -⟩ := List.cons_prefix_cons.1 hback
        simp at hc
  · rintro (h | h)
    · exact h.trans (List.prefix_append xs _).isInfix
    · exact h.trans ((List.suffix_cons c ys).trans (List.suffix_append xs _)).isInfix

/-- What is left of a text without its blanks, and the blanks. -/
theorem exists_trim (cs : List Char) : ∃ front back, cs = front ++ trim cs ++ back ∧
    (∀ c ∈ front, isBlank c = true) ∧ ∀ c ∈ back, isBlank c = true := by
  refine ⟨cs.takeWhile isBlank, (trimStart cs).rtakeWhile isBlank, ?_, ?_, ?_⟩
  · have hend : trim cs ++ (trimStart cs).rtakeWhile isBlank = trimStart cs :=
      List.rdropWhile_append_rtakeWhile ..
    rw [List.append_assoc, hend]
    exact (List.takeWhile_append_dropWhile ..).symm
  · exact fun c hc => List.mem_takeWhile_imp hc
  · exact fun c hc => List.mem_rtakeWhile_imp hc

/-- A text and the text without its blanks have the same pieces without blanks. -/
theorem infix_trim_iff (hne : w ≠ []) (hw : ∀ c ∈ w, isBlank c = false) :
    w <:+: trim cs ↔ w <:+: cs := by
  obtain ⟨front, back, heq, hfront, hback⟩ := exists_trim cs
  have hnot : ∀ ds : List Char, (∀ c ∈ ds, isBlank c = true) → ¬w <:+: ds := by
    intro ds hds h
    obtain ⟨c, hc⟩ := List.exists_mem_of_ne_nil w hne
    simpa [hw c hc] using hds c (h.subset hc)
  have hapart : ∀ c, isBlank c = true → c ∉ w := by
    intro c hc hmem
    simp [hw c hmem] at hc
  have hleft : ∀ {ds : List Char}, (∀ c ∈ ds, isBlank c = true) → ∀ xs : List Char,
      w <:+: ds ++ xs ↔ w <:+: xs := by
    intro ds hds xs
    induction ds with
    | nil => rfl
    | cons d ds ih =>
      obtain ⟨hd, hds⟩ := List.forall_mem_cons.1 hds
      rw [← List.nil_append (d :: ds ++ xs), List.cons_append, infix_append_cons_iff (hapart d hd),
        ih hds, or_iff_right (hnot [] (by simp))]
  have hright : w <:+: trim cs ++ back ↔ w <:+: trim cs := by
    cases back with
    | nil => rw [List.append_nil]
    | cons d back =>
      obtain ⟨hd, hback⟩ := List.forall_mem_cons.1 hback
      rw [infix_append_cons_iff (hapart d hd), or_iff_left (hnot back hback)]
  conv_rhs => rw [heq, List.append_assoc, hleft hfront, hright]

theorem count_trim (hc : isBlank c = false) : (trim cs).count c = cs.count c := by
  obtain ⟨front, back, heq, hfront, hback⟩ := exists_trim cs
  have hnone : ∀ ds : List Char, (∀ d ∈ ds, isBlank d = true) → ds.count c = 0 := by
    refine fun ds hds => List.count_eq_zero.2 fun hmem => ?_
    simp [hds c hmem] at hc
  conv_rhs => rw [heq, List.count_append, List.count_append, hnone front hfront, hnone back hback]
  omega

theorem trim_eq_nil_iff : trim cs = [] ↔ ∀ c ∈ cs, isBlank c = true := by
  obtain ⟨front, back, heq, hfront, hback⟩ := exists_trim cs
  constructor
  · intro h c hc
    rw [heq, h, List.append_nil] at hc
    exact (List.mem_append.1 hc).elim (hfront c) (hback c)
  · intro h
    have hstart : trimStart cs = [] := List.dropWhile_eq_nil_iff.2 h
    rw [trim, hstart]
    rfl

/-- Nothing is trimmed at the end when something is left. -/
theorem head?_trim (cs : List Char) : (trim cs).head? = (trimStart cs).head? := by
  have hend : trim cs ++ (trimStart cs).rtakeWhile isBlank = trimStart cs :=
    List.rdropWhile_append_rtakeWhile ..
  cases h : trim cs with
  | nil =>
    have hblank : trimStart cs = [] := List.dropWhile_eq_nil_iff.2 (trim_eq_nil_iff.1 h)
    rw [hblank]
  | cons c ds => rw [← hend, h]; rfl

/-- What a text begins with after its blanks, when something follows it that is no blank. -/
theorem head?_trimStart_append (hc : isBlank c = false) :
    (trimStart (xs ++ c :: ys)).head? = (trimStart xs).head?.or (some c) := by
  rw [trimStart, List.dropWhile_append]
  split
  · next hnil =>
    rw [List.dropWhile_cons_of_neg (by simp [hc]), trimStart, List.isEmpty_iff.1 hnil]
    rfl
  · next hsome =>
    obtain ⟨d, ds, hd⟩ := List.exists_cons_of_ne_nil (mt List.isEmpty_iff.2 hsome)
    rw [trimStart, hd]
    rfl

theorem splitAt_of_not_mem (h : c ∉ xs) : splitAt c xs = [xs] := by
  induction xs with
  | nil => rfl
  | cons x xs ih =>
    obtain ⟨hx, hxs⟩ := not_or.1 (mt List.mem_cons.2 h)
    rw [splitAt, if_neg (Ne.symm hx), ih hxs]

theorem splitAt_append (h : c ∉ xs) : splitAt c (xs ++ c :: ys) = xs :: splitAt c ys := by
  induction xs with
  | nil => rw [List.nil_append, splitAt, if_pos rfl]
  | cons x xs ih =>
    obtain ⟨hx, hxs⟩ := not_or.1 (mt List.mem_cons.2 h)
    rw [List.cons_append, splitAt, if_neg (Ne.symm hx), ih hxs]

/-- A text has no comma, or a first one. -/
theorem comma_induction {P : List Char → Prop} (hnone : ∀ part, ',' ∉ part → P part)
    (hcomma : ∀ part rest, ',' ∉ part → P rest → P (part ++ ',' :: rest)) (cs : List Char) :
    P cs := by
  by_cases h : ',' ∈ cs
  · obtain ⟨part, rest, heq, hpart⟩ := List.eq_append_cons_of_mem h
    rw [heq]
    exact hcomma part rest hpart (comma_induction hnone hcomma rest)
  · exact hnone cs h
termination_by cs.length
decreasing_by simp [heq]; omega

end Text

/-! ## 2. Calls -/

namespace Pseudo

open Text

/-- The names of the pseudo-classes that take a list of selectors. -/
def listNames : List String :=
  ["is", "where", "not"]

/-- The names of the pseudo-classes that take a position. -/
def positionNames : List String :=
  ["nth-child", "nth-last-child", "nth-of-type", "nth-last-of-type"]

/-- A pseudo-class with arguments. -/
def call (name arguments : String) : String :=
  name ++ "(" ++ arguments ++ ")"

/-- A call is read as its name and its arguments, whatever these are. -/
theorem functional?_call {name : String} (hname : name ∈ listNames ++ positionNames)
    (arguments : String) : functional? (trim (call name arguments).toList) =
      some (name.toList, arguments.toList) ∧ String.ofList (name.toList.map asciiLower) = name := by
  have hall : ∀ name ∈ listNames ++ positionNames, name.toList ≠ [] ∧
      (name.toList.all fun c => isNameLetter c && !isBlank c) = true ∧
        String.ofList (name.toList.map asciiLower) = name := by
    decide
  obtain ⟨hne, hchars, hlower⟩ := hall name hname
  simp only [List.all_eq_true, Bool.and_eq_true, Bool.not_eq_true'] at hchars
  have hletters : ∀ c ∈ name.toList, isNameLetter c = true := fun c hc => (hchars c hc).1
  have hblanks : ∀ c ∈ name.toList, isBlank c = false := fun c hc => (hchars c hc).2
  refine ⟨?_, hlower⟩
  obtain ⟨c, cs, hcs⟩ := List.exists_cons_of_ne_nil hne
  have htext : (call name arguments).toList = name.toList ++ '(' :: (arguments.toList ++ [')']) := by
    simp [call]
  have htrim : trim (call name arguments).toList = (call name arguments).toList := by
    have hstart : trimStart (call name arguments).toList = (call name arguments).toList := by
      rw [htext, hcs, List.cons_append, trimStart, List.dropWhile_cons_of_neg]
      simp [hblanks c (by simp [hcs])]
    have hlast : (call name arguments).toList =
        (name.toList ++ '(' :: arguments.toList) ++ [')'] := by
      simp [htext]
    rw [trim, hstart, hlast]
    exact List.rdropWhile_concat_neg _ _ _ (by decide)
  rw [htrim, htext, functional?]
  simp only [List.takeWhile_append_of_pos hletters, List.dropWhile_append_of_pos hletters]
  rw [List.takeWhile_cons_of_neg (by decide), List.dropWhile_cons_of_neg (by decide)]
  simp [hne]

theorem problem?_list {name : String} (hname : name ∈ listNames) (arguments : String) :
    problem? (call name arguments) = listProblem? name arguments.toList := by
  obtain ⟨hcall, hlower⟩ := functional?_call (List.mem_append_left positionNames hname) arguments
  simp only [problem?, hcall, hlower]
  exact if_pos hname

/-! ## 3. Brackets -/

/-- As many brackets of each kind are closed as are opened. -/
def IsEven (cs : List Char) : Prop :=
  cs.count '[' = cs.count ']' ∧ cs.count '(' = cs.count ')'

/-- A character that is no bracket. -/
def isPlainChar (c : Char) : Bool :=
  !(['[', ']', '(', ')'].contains c)

/-- The kinds of brackets. -/
def brackets : List (Char × Char) :=
  [('[', ']'), ('(', ')')]

/-- Brackets that are properly nested. -/
inductive IsNested : List Char → Prop
  | nil : IsNested []
  | plain {c : Char} {cs : List Char} (hc : isPlainChar c = true) (hcs : IsNested cs) :
      IsNested (c :: cs)
  | group {opening closing : Char} {inner cs : List Char} (hkind : (opening, closing) ∈ brackets)
      (hinner : IsNested inner) (hcs : IsNested cs) :
      IsNested (opening :: (inner ++ closing :: cs))

namespace IsNested

variable {cs front : List Char} {opening closing : Char}

theorem eq_of_mem_brackets (h : (opening, closing) ∈ brackets) :
    opening = '[' ∧ closing = ']' ∨ opening = '(' ∧ closing = ')' := by
  simpa [brackets] using h

theorem count_of_isPlainChar {c : Char} (hc : isPlainChar c = true) (cs : List Char) :
    (c :: cs).count '[' = cs.count '[' ∧ (c :: cs).count ']' = cs.count ']' ∧
      (c :: cs).count '(' = cs.count '(' ∧ (c :: cs).count ')' = cs.count ')' := by
  simp only [isPlainChar, Bool.not_eq_true', List.contains_eq_mem, decide_eq_false_iff_not,
    List.mem_cons, List.not_mem_nil, or_false, not_or] at hc
  exact ⟨List.count_cons_of_ne hc.1, List.count_cons_of_ne hc.2.1,
    List.count_cons_of_ne hc.2.2.1, List.count_cons_of_ne hc.2.2.2⟩

theorem isEven (h : IsNested cs) : IsEven cs := by
  induction h with
  | nil => exact ⟨rfl, rfl⟩
  | plain hc _ ih =>
    obtain ⟨h₁, h₂, h₃, h₄⟩ := count_of_isPlainChar hc _
    rwa [IsEven, h₁, h₂, h₃, h₄]
  | group hkind _ _ ihinner ih =>
    obtain ⟨rfl, rfl⟩ | ⟨rfl, rfl⟩ := eq_of_mem_brackets hkind
    all_goals
      simp [IsEven] at ihinner ih ⊢
      omega

/-- A text that begins as brackets with something between and behind them ends before, between or
behind the brackets. -/
theorem prefix_cases {inner : List Char} (h : front <+: opening :: (inner ++ closing :: cs)) :
    front = [] ∨ (∃ f, front = opening :: f ∧ f <+: inner) ∨
      ∃ f, front = opening :: (inner ++ closing :: f) ∧ f <+: cs := by
  rcases List.prefix_cons_iff.1 h with rfl | ⟨f, rfl, hf⟩
  · exact .inl rfl
  refine .inr ?_
  rcases List.prefix_or_prefix_of_prefix hf (List.prefix_append inner _) with hinner | ⟨g, rfl⟩
  · exact .inl ⟨f, rfl, hinner⟩
  rcases List.prefix_cons_iff.1 ((List.prefix_append_right_inj inner).1 hf) with rfl | ⟨g', rfl, hg⟩
  · exact .inl ⟨inner ++ [], rfl, by simp⟩
  · exact .inr ⟨g', rfl, hg⟩

/-- Up to any point of a nested text no more brackets are closed than are opened. -/
theorem count_le (h : IsNested cs) : ∀ {front}, front <+: cs →
    front.count ']' ≤ front.count '[' ∧ front.count ')' ≤ front.count '(' := by
  induction h with
  | nil =>
    intro front hfront
    simp [List.prefix_nil.1 hfront]
  | plain hc _ ih =>
    intro front hfront
    rcases List.prefix_cons_iff.1 hfront with rfl | ⟨f, rfl, hf⟩
    · simp
    · obtain ⟨h₁, h₂, h₃, h₄⟩ := count_of_isPlainChar hc f
      rw [h₁, h₂, h₃, h₄]
      exact ih hf
  | group hkind hinner _ ihinner ih =>
    intro front hfront
    have heven := hinner.isEven
    simp only [IsEven] at heven
    rcases prefix_cases hfront with rfl | ⟨f, rfl, hf⟩ | ⟨f, rfl, hf⟩
    · simp
    · have hle := ihinner hf
      obtain ⟨rfl, rfl⟩ | ⟨rfl, rfl⟩ := eq_of_mem_brackets hkind
      all_goals
        simp
        omega
    · have hle := ih hf
      obtain ⟨rfl, rfl⟩ | ⟨rfl, rfl⟩ := eq_of_mem_brackets hkind
      all_goals
        simp
        omega

/-- Where the brackets of a nested text come out even, they are nested up to there. -/
theorem of_prefix (h : IsNested cs) : ∀ {front}, front <+: cs → IsEven front → IsNested front := by
  induction h with
  | nil =>
    intro front hfront _
    rw [List.prefix_nil.1 hfront]
    exact .nil
  | plain hc _ ih =>
    intro front hfront heven
    rcases List.prefix_cons_iff.1 hfront with rfl | ⟨f, rfl, hf⟩
    · exact .nil
    · obtain ⟨h₁, h₂, h₃, h₄⟩ := count_of_isPlainChar hc f
      rw [IsEven, h₁, h₂, h₃, h₄] at heven
      exact .plain hc (ih hf heven)
  | group hkind hinner _ _ ih =>
    intro front hfront heven
    have hbetween := hinner.isEven
    rcases prefix_cases hfront with rfl | ⟨f, rfl, hf⟩ | ⟨f, rfl, hf⟩
    · exact .nil
    · -- an opened bracket is still open before its closing one
      have hle := hinner.count_le hf
      obtain ⟨rfl, rfl⟩ | ⟨rfl, rfl⟩ := eq_of_mem_brackets hkind
      all_goals
        simp [IsEven] at heven
        omega
    · refine .group hkind hinner (ih hf ?_)
      obtain ⟨rfl, rfl⟩ | ⟨rfl, rfl⟩ := eq_of_mem_brackets hkind
      all_goals
        simp [IsEven] at heven hbetween ⊢
        omega

theorem of_forall (h : ∀ c ∈ cs, isPlainChar c = true) : IsNested cs := by
  induction cs with
  | nil => exact .nil
  | cons c cs ih =>
    obtain ⟨hc, hcs⟩ := List.forall_mem_cons.1 h
    exact .plain hc (ih hcs)

end IsNested

/-! ## 4. What can be wrong with a part -/

/-- Somewhere a pseudo-element stands that a list must not hold. -/
def HoldsPseudoElement (cs : List Char) : Prop :=
  ∃ name ∈ pseudoElementNames, ':' :: name <:+: cs

/-- Somewhere two combinator signs stand next to each other. -/
def DoublesCombinator (cs : List Char) : Prop :=
  ∃ c d, isCombinator c = true ∧ isCombinator d = true ∧ [c, d] <:+: cs

/-- The names of pseudo-elements are made of small letters and hyphens. -/
theorem pseudoElementNames_spec : ∀ name ∈ pseudoElementNames,
    name ≠ [] ∧ ∀ c ∈ name, c ≠ ':' ∧ c ≠ ',' ∧ isBlank c = false := by
  have hall : ∀ name ∈ pseudoElementNames, name ≠ [] ∧
      (name.all fun c => c != ':' && c != ',' && !isBlank c) = true := by
    decide
  intro name hname
  obtain ⟨hne, hchars⟩ := hall name hname
  refine ⟨hne, ?_⟩
  simpa [List.all_eq_true, and_assoc] using hchars

theorem occurs_pseudoElementExtent_iff (cs : List Char) :
    occurs pseudoElementExtent cs = true ↔ HoldsPseudoElement cs := by
  rw [Value.occurs_iff]
  constructor
  · rintro ⟨rest, hrest, hne⟩
    unfold pseudoElementExtent at hne
    split at hne
    · next cs' =>
      have hname := List.any_eq_true.1 (by_contra fun hnone => hne (if_neg hnone))
      obtain ⟨name, hname, hstarts⟩ := hname
      have hstarts := List.isPrefixOf_iff_prefix.1 hstarts
      refine ⟨name, hname, ?_⟩
      split at hstarts
      · next ds =>
        exact ((List.prefix_cons_inj _).2 hstarts).isInfix.trans
          ((List.suffix_cons ':' _).trans hrest).isInfix
      · exact ((List.prefix_cons_inj _).2 hstarts).isInfix.trans hrest.isInfix
    · exact absurd rfl hne
  · rintro ⟨name, hname, hinfix⟩
    obtain ⟨rest, ⟨behind, rfl⟩, hrest⟩ := List.infix_iff_prefix_suffix.1 hinfix
    refine ⟨_, hrest, ?_⟩
    obtain ⟨hne, hchars⟩ := pseudoElementNames_spec name hname
    obtain ⟨c, ds, rfl⟩ := List.exists_cons_of_ne_nil hne
    have hc : c ≠ ':' := (hchars c List.mem_cons_self).1
    have hfound : (pseudoElementNames.any (startsWith · (c :: ds ++ behind))) = true :=
      List.any_eq_true.2 ⟨_, hname, List.isPrefixOf_iff_prefix.2 (List.prefix_append _ _)⟩
    have hextent : pseudoElementExtent (':' :: (c :: ds ++ behind)) =
        if pseudoElementNames.any (startsWith · (c :: ds ++ behind)) then 1 else 0 := by
      rw [pseudoElementExtent]
      exact fun _ heq => hc (List.cons.inj heq).1
    rw [List.cons_append, hextent, if_pos hfound]
    decide

theorem doubledCombinator_iff (cs : List Char) :
    doubledCombinator cs = true ↔ DoublesCombinator cs := by
  fun_induction doubledCombinator cs with
  | case1 c d cs ih =>
    rw [Bool.or_eq_true, Bool.and_eq_true, ih]
    constructor
    · rintro (⟨hc, hd⟩ | ⟨a, b, ha, hb, hin⟩)
      · exact ⟨c, d, hc, hd, (List.prefix_append [c, d] cs).isInfix⟩
      · exact ⟨a, b, ha, hb, hin.trans (List.suffix_cons c _).isInfix⟩
    · rintro ⟨a, b, ha, hb, hin⟩
      rcases List.infix_cons_iff.1 hin with hfront | hlater
      · obtain ⟨rfl, hsecond⟩ := List.cons_prefix_cons.1 hfront
        obtain ⟨rfl, -⟩ := List.cons_prefix_cons.1 hsecond
        exact .inl ⟨ha, hb⟩
      · exact .inr ⟨a, b, ha, hb, hlater⟩
  | case2 cs hshort =>
    refine iff_of_false (by simp) ?_
    rintro ⟨a, b, -, -, hin⟩
    rcases cs with _ | ⟨c, _ | ⟨d, cs⟩⟩
    · simp at hin
    · simpa using hin.length_le
    · exact hshort c d cs rfl

theorem isCombinator_spec {c : Char} (h : isCombinator c = true) : c ≠ ',' ∧ isBlank c = false := by
  simp only [isCombinator, Bool.or_eq_true, beq_iff_eq] at h
  rcases h with (rfl | rfl) | rfl
  all_goals decide

section Around

variable {xs ys cs : List Char}

theorem holdsPseudoElement_trim_iff : HoldsPseudoElement (trim cs) ↔ HoldsPseudoElement cs := by
  refine exists_congr fun name => and_congr_right fun hname => ?_
  refine infix_trim_iff (List.cons_ne_nil ':' name) (List.forall_mem_cons.2 ⟨by decide, ?_⟩)
  exact fun c hc => ((pseudoElementNames_spec name hname).2 c hc).2.2

theorem holdsPseudoElement_append_iff : HoldsPseudoElement (xs ++ ',' :: ys) ↔
    HoldsPseudoElement xs ∨ HoldsPseudoElement ys := by
  simp only [HoldsPseudoElement, ← exists_or, ← and_or_left]
  refine exists_congr fun name => and_congr_right fun hname => infix_append_cons_iff ?_
  refine List.not_mem_cons_of_ne_of_not_mem (by decide) fun hmem => ?_
  exact ((pseudoElementNames_spec name hname).2 _ hmem).2.1 rfl

theorem doublesCombinator_trim_iff : DoublesCombinator (trim cs) ↔ DoublesCombinator cs := by
  refine exists₂_congr fun c d => and_congr_right fun hc => and_congr_right fun hd => ?_
  refine infix_trim_iff (List.cons_ne_nil c [d]) ?_
  simp [(isCombinator_spec hc).2, (isCombinator_spec hd).2]

theorem doublesCombinator_append_iff : DoublesCombinator (xs ++ ',' :: ys) ↔
    DoublesCombinator xs ∨ DoublesCombinator ys := by
  simp only [DoublesCombinator, ← exists_or, ← and_or_left]
  refine exists₂_congr fun c d => and_congr_right fun hc => and_congr_right fun hd => ?_
  refine infix_append_cons_iff ?_
  simp [(isCombinator_spec hc).1.symm, (isCombinator_spec hd).1.symm]

theorem isEven_trim_iff : IsEven (trim cs) ↔ IsEven cs := by
  rw [IsEven, IsEven, count_trim (by decide), count_trim (by decide), count_trim (by decide),
    count_trim (by decide)]

theorem isEven_append_iff (hxs : IsEven xs) : IsEven (xs ++ ',' :: ys) ↔ IsEven ys := by
  simp only [IsEven] at hxs ⊢
  simp
  omega

end Around

/-- Nothing is wrong with a text, but that it may be blank. -/
structure IsSound (cs : List Char) : Prop where
  bare : ¬HoldsPseudoElement cs
  even : IsEven cs
  head : ∀ c ∈ (trimStart cs).head?, isDigitLike c = false
  apart : ¬DoublesCombinator cs

section Sound

variable {xs ys cs : List Char}

theorem isSound_trim_iff : IsSound (trim cs) ↔ IsSound cs := by
  have hhead : (trimStart (trim cs)).head? = (trimStart cs).head? := by
    rw [← head?_trim, trim_trim, head?_trim]
  constructor
  · rintro ⟨hbare, heven, hdigit, hapart⟩
    exact ⟨mt holdsPseudoElement_trim_iff.2 hbare, isEven_trim_iff.1 heven, hhead ▸ hdigit,
      mt doublesCombinator_trim_iff.2 hapart⟩
  · rintro ⟨hbare, heven, hdigit, hapart⟩
    exact ⟨mt holdsPseudoElement_trim_iff.1 hbare, isEven_trim_iff.2 heven, hhead ▸ hdigit,
      mt doublesCombinator_trim_iff.1 hapart⟩

theorem isSound_nil : IsSound [] where
  bare := by simp [HoldsPseudoElement]
  even := ⟨rfl, rfl⟩
  head := by simp [trimStart]
  apart := by simp [DoublesCombinator]

/-- Two texts are sound just when they are with a comma between them, at which the brackets come out
even and no digit follows. -/
theorem isSound_append_iff : IsSound xs ∧ IsSound ys ↔ IsSound (xs ++ ',' :: ys) ∧ IsEven xs ∧
    ∀ c ∈ (trimStart ys).head?, isDigitLike c = false := by
  have hhead : (trimStart (xs ++ ',' :: ys)).head? = (trimStart xs).head?.or (some ',') :=
    head?_trimStart_append (by decide)
  constructor
  · rintro ⟨hxs, hys⟩
    refine ⟨⟨fun h => ?_, (isEven_append_iff hxs.even).2 hys.even, fun c hc => ?_, fun h => ?_⟩,
      hxs.even, hys.head⟩
    · exact (holdsPseudoElement_append_iff.1 h).elim hxs.bare hys.bare
    · rw [hhead, Option.mem_def, Option.or_eq_some_iff] at hc
      rcases hc with hc | ⟨-, hc⟩
      · exact hxs.head c hc
      · obtain rfl := Option.some.inj hc
        decide
    · exact (doublesCombinator_append_iff.1 h).elim hxs.apart hys.apart
  · rintro ⟨hboth, heven, hdigit⟩
    refine ⟨⟨fun h => hboth.bare (holdsPseudoElement_append_iff.2 (.inl h)), heven, fun c hc => ?_,
        fun h => hboth.apart (doublesCombinator_append_iff.2 (.inl h))⟩,
      ⟨fun h => hboth.bare (holdsPseudoElement_append_iff.2 (.inr h)),
        (isEven_append_iff heven).1 hboth.even, hdigit,
        fun h => hboth.apart (doublesCombinator_append_iff.2 (.inr h))⟩⟩
    rw [Option.mem_def] at hc
    exact hboth.head c (by rw [hhead, hc]; rfl)

/-- What is not obviously wrong with a selector is sound, and something is left of it. -/
theorem isSound_and_ne_nil_iff : IsSound cs ∧ trim cs ≠ [] ↔
    ¬HoldsPseudoElement cs ∧ selectorFault? cs = none := by
  have hite : ∀ {p : Prop} [Decidable p] {fault : SelectorFault} {x : Option SelectorFault},
      (if p then some fault else x) = none ↔ ¬p ∧ x = none := by
    intro p _ fault x
    split <;> simp [*]
  have hdigit : (∀ c ∈ (trimStart cs).head?, isDigitLike c = false) ↔
      ¬(trim cs).head?.any isDigitLike = true := by
    rw [head?_trim]
    cases (trimStart cs).head? <;> simp
  have hdouble : ¬doubledCombinator (trim cs) = true ↔ ¬DoublesCombinator cs :=
    not_congr ((doubledCombinator_iff _).trans doublesCombinator_trim_iff)
  have heven : ¬(trim cs).count '[' ≠ (trim cs).count ']' ∧
      ¬(trim cs).count '(' ≠ (trim cs).count ')' ↔ IsEven cs := by
    rw [not_ne_iff, not_ne_iff]
    exact isEven_trim_iff
  simp only [selectorFault?, hite, List.isEmpty_iff, and_true]
  rw [hdouble, ← hdigit]
  constructor
  · rintro ⟨⟨hbare, hcount, hhead, hapart⟩, hne⟩
    obtain ⟨hsquare, hround⟩ := heven.2 hcount
    exact ⟨hbare, hne, hsquare, hround, hhead, hapart⟩
  · rintro ⟨hbare, hne, hsquare, hround, hhead, hapart⟩
    exact ⟨⟨hbare, heven.1 ⟨hsquare, hround⟩, hhead, hapart⟩, hne⟩

end Sound

/-! ## 5. The parts of a list -/

/-- Nothing is wrong with what stands between the commas. -/
def AreSound (cs : List Char) : Prop :=
  ∀ part ∈ splitAt ',' cs, IsSound part

/-- At every comma the brackets come out even, and no digit follows. -/
def CutsSoundly (cs : List Char) : Prop :=
  ∀ front back, cs = front ++ ',' :: back →
    IsEven front ∧ ∀ c ∈ (trimStart back).head?, isDigitLike c = false

section Parts

variable {xs ys cs : List Char}

theorem areSound_of_not_mem (h : ',' ∉ cs) : AreSound cs ↔ IsSound cs := by
  rw [AreSound, splitAt_of_not_mem h, List.forall_mem_singleton]

theorem areSound_append_iff (xs : List Char) :
    AreSound (xs ++ ',' :: ys) ↔ AreSound xs ∧ AreSound ys := by
  induction xs using comma_induction with
  | hnone part hpart =>
    rw [areSound_of_not_mem hpart, AreSound, splitAt_append hpart, List.forall_mem_cons]
    rfl
  | hcomma part rest hpart ih =>
    have hfirst : ∀ zs, AreSound (part ++ ',' :: zs) ↔ IsSound part ∧ AreSound zs := by
      intro zs
      rw [AreSound, splitAt_append hpart, List.forall_mem_cons]
      rfl
    rw [List.append_assoc, List.cons_append, hfirst, hfirst, ih, and_assoc]

/-- A blank in front of a text changes nothing. -/
theorem areSound_blank_iff : AreSound (' ' :: cs) ↔ AreSound cs := by
  have hblank : ∀ part, IsSound (' ' :: part) ↔ IsSound part := by
    intro part
    rw [← isSound_trim_iff, show trim (' ' :: part) = trim part from rfl, isSound_trim_iff]
  by_cases h : ',' ∈ cs
  · obtain ⟨part, rest, rfl, hpart⟩ := List.eq_append_cons_of_mem h
    rw [← List.cons_append, areSound_append_iff, areSound_append_iff, areSound_of_not_mem hpart,
      areSound_of_not_mem (by simpa using hpart), hblank]
  · rw [areSound_of_not_mem h, areSound_of_not_mem (by simpa using h), hblank]

/-- The commas of a text behind its first one. -/
theorem cutsSoundly_append_iff (hxs : ',' ∉ xs) : CutsSoundly (xs ++ ',' :: ys) ↔ IsEven xs ∧
    (∀ c ∈ (trimStart ys).head?, isDigitLike c = false) ∧ CutsSoundly ys := by
  constructor
  · intro h
    obtain ⟨heven, hhead⟩ := h xs ys rfl
    refine ⟨heven, hhead, fun front back heq => ?_⟩
    obtain ⟨hfront, hback⟩ := h (xs ++ ',' :: front) back (by simp [heq])
    exact ⟨(isEven_append_iff heven).1 hfront, hback⟩
  · rintro ⟨heven, hhead, hlater⟩ front back heq
    rcases List.append_eq_append_iff.1 heq with ⟨between, rfl, hback⟩ | ⟨between, rfl, hys⟩
    · cases between with
      | nil =>
        obtain rfl : ys = back := (List.cons.inj hback).2
        exact ⟨by simpa using heven, hhead⟩
      | cons d between =>
        obtain ⟨rfl, hys⟩ := List.cons.inj hback
        obtain ⟨hfront, hdigit⟩ := hlater between back hys
        exact ⟨(isEven_append_iff heven).2 hfront, hdigit⟩
    · cases between with
      | nil =>
        obtain rfl : back = ys := (List.cons.inj hys).2
        exact ⟨by simpa using heven, hhead⟩
      | cons d between =>
        obtain ⟨rfl, -⟩ := List.cons.inj hys
        simp at hxs

/-- The parts of a text are sound just when the text is and is cut soundly. -/
theorem areSound_iff (cs : List Char) : AreSound cs ↔ IsSound cs ∧ CutsSoundly cs := by
  induction cs using comma_induction with
  | hnone part hpart =>
    rw [areSound_of_not_mem hpart]
    refine (and_iff_left ?_).symm
    rintro front back rfl
    simp at hpart
  | hcomma part rest hpart ih =>
    rw [areSound_append_iff, areSound_of_not_mem hpart, ih, cutsSoundly_append_iff hpart]
    rw [← and_assoc, isSound_append_iff, and_assoc, and_assoc]

theorem forall_mem_splitAt_iff {P : Char → Prop} (cs : List Char) :
    (∀ part ∈ splitAt ',' cs, ∀ c ∈ part, P c) ↔ ∀ c ∈ cs, c ≠ ',' → P c := by
  induction cs using comma_induction with
  | hnone part hpart =>
    rw [splitAt_of_not_mem hpart, List.forall_mem_singleton]
    have hne : ∀ c ∈ part, c ≠ ',' := fun c hc heq => hpart (heq ▸ hc)
    exact forall₂_congr fun c hc => (imp_iff_right (hne c hc)).symm
  | hcomma part rest hpart ih =>
    rw [splitAt_append hpart, List.forall_mem_cons, ih, List.forall_mem_append,
      List.forall_mem_cons]
    have hne : ∀ c ∈ part, c ≠ ',' := fun c hc heq => hpart (heq ▸ hc)
    refine and_congr (forall₂_congr fun c hc => ?_) (and_iff_right fun hne => absurd rfl hne).symm
    exact (imp_iff_right (hne c hc)).symm

theorem commaParts_eq_nil_iff : commaParts cs = [] ↔ ∀ c ∈ cs, c ≠ ',' → isBlank c = true := by
  rw [← forall_mem_splitAt_iff, commaParts, List.filter_eq_nil_iff, List.forall_mem_map]
  refine forall₂_congr fun part _ => ?_
  rw [← trim_eq_nil_iff]
  simp

/-- A list is accepted when something stands between its commas and nothing is wrong with it. -/
theorem listProblem?_eq_none_iff (name : String) (cs : List Char) : listProblem? name cs = none ↔
    AreSound cs ∧ ∃ c ∈ cs, c ≠ ',' ∧ isBlank c = false := by
  have hpart : ∀ part ∈ commaParts cs,
      (if occurs pseudoElementExtent part then some (.pseudoElement name (String.ofList part))
        else (selectorFault? part).map (Problem.faulty name (String.ofList part))) = none ↔
      IsSound part := by
    intro part hpart
    obtain ⟨hpart, hne⟩ := List.mem_filter.1 hpart
    obtain ⟨piece, -, rfl⟩ := List.mem_map.1 hpart
    have hne : trim (trim piece) ≠ [] := by
      rw [trim_trim]
      simpa using hne
    rw [← and_iff_left (a := IsSound _) hne, isSound_and_ne_nil_iff,
      ← occurs_pseudoElementExtent_iff]
    split <;> simp [*]
  have hsome : commaParts cs ≠ [] ↔ ∃ c ∈ cs, c ≠ ',' ∧ isBlank c = false := by
    rw [ne_eq, commaParts_eq_nil_iff]
    push Not
    simp
  have hsound : (∀ part ∈ commaParts cs, IsSound part) ↔ AreSound cs := by
    constructor
    · intro h piece hpiece
      rw [← isSound_trim_iff]
      by_cases hnil : trim piece = []
      · rw [hnil]
        exact isSound_nil
      · exact h _ (List.mem_filter.2 ⟨List.mem_map_of_mem hpiece, by simpa using hnil⟩)
    · intro h part hpart
      obtain ⟨piece, hpiece, rfl⟩ := List.mem_map.1 (List.mem_filter.1 hpart).1
      exact isSound_trim_iff.2 (h piece hpiece)
  rw [← hsome, ← hsound, and_comm, listProblem?]
  split
  · next hnil => simp [hnil]
  · next hne =>
    rw [List.findSome?_eq_none_iff, forall₂_congr hpart]
    exact (and_iff_right hne).symm

end Parts

/-! ## 6. Lists -/

/-- Selectors with commas and blanks between them. -/
def listed (texts : List String) : String :=
  ", ".intercalate texts

theorem toList_listed_cons (t u : String) (us : List String) :
    (listed (t :: u :: us)).toList = t.toList ++ ',' :: ' ' :: (listed (u :: us)).toList := by
  simp [listed, String.intercalate_cons_cons]

/-- The parts of a list are those of its selectors. -/
theorem areSound_listed_iff : ∀ {texts : List String}, texts ≠ [] →
    (AreSound (listed texts).toList ↔ ∀ t ∈ texts, AreSound t.toList)
  | [t], _ => by simp [listed]
  | t :: u :: us, _ => by
    rw [toList_listed_cons, areSound_append_iff, areSound_blank_iff,
      areSound_listed_iff (List.cons_ne_nil u us), List.forall_mem_cons (a := t)]

theorem exists_mem_listed_iff {P : Char → Prop} (hblank : ¬P ' ') : ∀ {texts : List String},
    texts ≠ [] → ((∃ c ∈ (listed texts).toList, c ≠ ',' ∧ P c) ↔
      ∃ t ∈ texts, ∃ c ∈ t.toList, c ≠ ',' ∧ P c)
  | [t], _ => by simp [listed]
  | t :: u :: us, _ => by
    rw [toList_listed_cons, List.exists_mem_cons_iff,
      ← exists_mem_listed_iff hblank (List.cons_ne_nil u us)]
    simp only [List.mem_append, List.mem_cons, or_and_right, exists_or]
    simp [hblank]

/-- Nothing is obviously wrong with a selector, and no pseudo-element stands in it. -/
def Passes (t : String) : Prop :=
  ¬HoldsPseudoElement t.toList ∧ selectorFault? t.toList = none

/-- Every comma of a selector stands outside of its brackets and before no digit. -/
def CutsOutside (t : String) : Prop :=
  ∀ front back, t.toList = front ++ ',' :: back →
    IsNested front ∧ ∀ c ∈ (trimStart back).head?, isDigitLike c = false

theorem passes_iff {t : String} (hne : t ≠ "") (htrimmed : trimmed t = t) :
    Passes t ↔ IsSound t.toList := by
  have hleft : trim t.toList ≠ [] := by
    intro hnil
    rw [trimmed, hnil] at htrimmed
    exact hne htrimmed.symm
  rw [Passes, ← isSound_and_ne_nil_iff]
  exact and_iff_left hleft

/-- In a nested text the brackets come out even where they are nested. -/
theorem cutsOutside_iff {t : String} (h : IsNested t.toList) :
    CutsOutside t ↔ CutsSoundly t.toList := by
  refine forall₃_congr fun front back heq => and_congr_left fun _ => ?_
  exact ⟨IsNested.isEven, h.of_prefix (heq ▸ List.prefix_append front _)⟩

/-- A list of selectors is accepted as a list of texts between commas.

* When the brackets of the selectors are nested, every selector must pass, its commas must stand
  outside of brackets and before no digit, and something must stand between the commas.
* When the selectors have no commas, every selector must pass, whether its brackets are nested or
  not.
* A selector whose brackets do not come out even is never accepted. -/
theorem problem?_list_iff {name : String} (hname : name ∈ listNames) {texts : List String}
    (hne : texts ≠ []) (htexts : ∀ t ∈ texts, t ≠ "" ∧ trimmed t = t) :
    ((∀ t ∈ texts, IsNested t.toList) → (problem? (call name (listed texts)) = none ↔
      (∀ t ∈ texts, Passes t ∧ CutsOutside t) ∧
        ∃ t ∈ texts, ∃ c ∈ t.toList, c ≠ ',' ∧ isBlank c = false)) ∧
    ((∀ t ∈ texts, ',' ∉ t.toList) → (problem? (call name (listed texts)) = none ↔
      ∀ t ∈ texts, Passes t)) ∧
    ((∃ t ∈ texts, ¬IsEven t.toList) → problem? (call name (listed texts)) ≠ none) := by
  have hpasses : ∀ t ∈ texts, (Passes t ↔ IsSound t.toList) :=
    fun t ht => passes_iff (htexts t ht).1 (htexts t ht).2
  have hiff : problem? (call name (listed texts)) = none ↔ (∀ t ∈ texts, AreSound t.toList) ∧
      ∃ t ∈ texts, ∃ c ∈ t.toList, c ≠ ',' ∧ isBlank c = false := by
    rw [problem?_list hname, listProblem?_eq_none_iff, areSound_listed_iff hne,
      exists_mem_listed_iff (by decide) hne]
  refine ⟨fun hnested => hiff.trans (and_congr_left fun _ => forall₂_congr fun t ht => ?_),
    fun hcommas => hiff.trans ?_, ?_⟩
  · rw [areSound_iff, hpasses t ht, cutsOutside_iff (hnested t ht)]
  · rw [forall₂_congr fun t ht => (areSound_of_not_mem (hcommas t ht)).trans (hpasses t ht).symm]
    refine and_iff_left_of_imp fun hall => ?_
    obtain ⟨t, ht⟩ := List.exists_mem_of_ne_nil texts hne
    obtain ⟨c, hc, hblank⟩ : ∃ c ∈ t.toList, ¬isBlank c = true := by
      by_contra hnone
      push Not at hnone
      have hnil : trimmed t = "" := congrArg String.ofList (trim_eq_nil_iff.2 hnone)
      exact (htexts t ht).1 ((htexts t ht).2 ▸ hnil)
    exact ⟨t, ht, c, hc, fun heq => hcommas t ht (heq ▸ hc), by simpa using hblank⟩
  · rintro ⟨t, ht, hodd⟩ haccepted
    obtain ⟨hall, -⟩ := hiff.1 haccepted
    exact hodd ((areSound_iff _).1 (hall t ht)).1.even

theorem problem?_list_iff_plain : problem? (call "is" (listed [".a", "b > c"])) = none ↔
    ∀ t ∈ [".a", "b > c"], Passes t :=
  (problem?_list_iff (by decide) (by simp) (by decide)).2.1 (by decide)

/-- Selectors of a list are not looked at one by one: a selector that passes is refused when it has
a list of its own. -/
theorem not_problem?_list_iff : ¬∀ name ∈ listNames, ∀ texts : List String, texts ≠ [] →
    (∀ t ∈ texts, t ≠ "" ∧ trimmed t = t) →
      ((∀ t ∈ texts, IsNested t.toList) →
        (problem? (call name (listed texts)) = none ↔ ∀ t ∈ texts, Passes t)) ∧
      ((∃ t ∈ texts, ¬IsNested t.toList) → problem? (call name (listed texts)) ≠ none) := by
  intro h
  have htext : ":not(.a, .b)".toList = ':' :: 'n' :: 'o' :: 't' :: '(' :: (".a, .b".toList ++ [')']) :=
    rfl
  have hnested : IsNested ":not(.a, .b)".toList := by
    rw [htext]
    refine .plain rfl (.plain rfl (.plain rfl (.plain rfl ?_)))
    exact .group (by decide) (.of_forall (List.all_eq_true.1 (by decide))) .nil
  have hpasses : Passes ":not(.a, .b)" := by
    refine ⟨?_, by decide⟩
    rw [← occurs_pseudoElementExtent_iff]
    decide
  obtain ⟨hiff, -⟩ := h "is" (by decide) [":not(.a, .b)"] (by simp) (by decide)
  have hnone := (hiff (by simpa using hnested)).2 (by simpa using hpasses)
  exact absurd hnone (by decide)

end Pseudo

end StyleLedger
