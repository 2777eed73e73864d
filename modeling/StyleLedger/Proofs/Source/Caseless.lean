import StyleLedger.Proofs.Source.Front

/-!
Letter case is not seen when a text is cut.

No shape looks at the case of an ASCII letter: the classes of characters hold a letter in both forms
or in neither, the marks are no letters, and words are compared by their folded characters. So a text
and its form in small letters have the same lexeme in front, at the same length.

* `Lexeme.caseless_first?` — the lexeme at the front does not depend on letter case.
-/

namespace StyleLedger.Source

open Text

/-! ## 1. Characters -/

/-- The ASCII capitals. -/
def capitals : List Char :=
  "ABCDEFGHIJKLMNOPQRSTUVWXYZ".toList

theorem mem_capitals {c : Char} (h : ('A' ≤ c && c ≤ 'Z') = true) : c ∈ capitals := by
  simp only [Bool.and_eq_true, decide_eq_true_eq, Char.le_def] at h
  have hlow : 65 ≤ c.toNat := h.1
  have hhigh : c.toNat ≤ 90 := h.2
  have hall : ∀ n < 26, Char.ofNat (65 + n) ∈ capitals := by decide
  have hc : Char.ofNat (65 + (c.toNat - 65)) = c := by
    rw [Nat.add_sub_of_le hlow, Char.ofNat_toNat]
  exact hc ▸ hall (c.toNat - 65) (by omega)

/-- What is the same for the two forms of each letter does not depend on letter case. -/
theorem apply_asciiLower {α : Type} {f : Char → α}
    (h : capitals.map (fun c => f (asciiLower c)) = capitals.map f)
    (c : Char) : f (asciiLower c) = f c := by
  by_cases hc : ('A' ≤ c && c ≤ 'Z') = true
  · exact List.map_inj_left.1 h c (mem_capitals hc)
  · rw [asciiLower, if_neg hc]

theorem isBlank_asciiLower : ∀ c, isBlank (asciiLower c) = isBlank c :=
  apply_asciiLower (by decide)

theorem endsWord_asciiLower : ∀ c, endsWord (asciiLower c) = endsWord c :=
  apply_asciiLower (by decide)

theorem isWord_asciiLower : ∀ c, isWord (asciiLower c) = isWord c :=
  apply_asciiLower (by decide)

theorem isAsciiLetter_asciiLower : ∀ c, isAsciiLetter (asciiLower c) = isAsciiLetter c :=
  apply_asciiLower (by decide)

theorem isNameChar_asciiLower : ∀ c, isNameChar (asciiLower c) = isNameChar c :=
  apply_asciiLower (by decide)

theorem isDecimal_asciiLower : ∀ c, isDecimal (asciiLower c) = isDecimal c :=
  apply_asciiLower (by decide)

theorem isSeparator_asciiLower : ∀ c, isSeparator (asciiLower c) = isSeparator c :=
  apply_asciiLower (by decide)

theorem foldChar_asciiLower : ∀ c, foldChar (asciiLower c) = foldChar c :=
  apply_asciiLower (by decide)

theorem upperChar_asciiLower : ∀ c, upperChar (asciiLower c) = upperChar c :=
  apply_asciiLower (by decide)

/-- A character that is no letter stands for itself alone. -/
theorem asciiLower_eq_iff {q : Char} (hq : isAsciiLetter q = false) (c : Char) :
    asciiLower c = q ↔ c = q := by
  by_cases hc : ('A' ≤ c && c ≤ 'Z') = true
  · have hupper : isAsciiLetter c = true := by
      rw [isAsciiLetter, hc, Bool.or_true]
    have hlower : isAsciiLetter (asciiLower c) = true := by
      rw [isAsciiLetter_asciiLower, hupper]
    constructor
    · intro h
      simp [h, hq] at hlower
    · intro h
      simp [h, hq] at hupper
  · rw [asciiLower, if_neg hc]

/-! ## 2. Runs and pieces -/

/-- A function of a text that takes no notice of letter case. -/
def Caseless {α : Type} (f : List Char → α) : Prop :=
  ∀ cs, f (cs.map asciiLower) = f cs

theorem Caseless.eq {α : Type} {f : List Char → α} (h : Caseless f) {cs ds : List Char}
    (hsame : ds.map asciiLower = cs.map asciiLower) : f ds = f cs := by
  rw [← h ds, hsame, h cs]

section Runs

variable {p : Char → Bool} (hp : ∀ c, p (asciiLower c) = p c)

include hp

theorem takeWhile_lowered (cs : List Char) :
    (cs.map asciiLower).takeWhile p = (cs.takeWhile p).map asciiLower := by
  have hsame : p ∘ asciiLower = p := funext hp
  rw [List.takeWhile_map, hsame]

theorem dropWhile_lowered (cs : List Char) :
    (cs.map asciiLower).dropWhile p = (cs.dropWhile p).map asciiLower := by
  have hsame : p ∘ asciiLower = p := funext hp
  rw [List.dropWhile_map, hsame]

theorem caseless_length_takeWhile : Caseless fun cs => (cs.takeWhile p).length := by
  intro cs
  show ((cs.map asciiLower).takeWhile p).length = _
  rw [takeWhile_lowered hp, List.length_map]

end Runs

theorem head?_lowered {q : Char} (hq : isAsciiLetter q = false) (cs : List Char) :
    ((cs.map asciiLower).head? == some q) = (cs.head? == some q) := by
  cases cs with
  | nil => rfl
  | cons c cs => simp [asciiLower_eq_iff hq]

/-- Words are compared by their folded characters. -/
theorem caseless_spelledLength (word : List Char) : Caseless (spelledLength word) := by
  intro cs
  have hfold : foldChar ∘ asciiLower = foldChar := funext foldChar_asciiLower
  cases word with
  | nil => rfl
  | cons w ws => simp only [spelledLength, ← List.map_take, List.map_map, hfold]

theorem caseless_covered {shape : List Char → Nat} (h : Caseless shape) :
    Caseless (covered shape) := by
  have hfrom : ∀ (cs : List Char) (skip : Nat),
      coveredFrom shape skip (cs.map asciiLower) = coveredFrom shape skip cs := by
    intro cs
    induction cs with
    | nil => intro skip; rfl
    | cons c cs ih =>
      intro skip
      have hc : shape (asciiLower c :: cs.map asciiLower) = shape (c :: cs) := h (c :: cs)
      cases skip with
      | zero => simp only [List.map_cons, coveredFrom, hc, ih]
      | succ n => simp only [List.map_cons, coveredFrom, ih]
  exact fun cs => hfrom cs 0

/-! ## 3. Shapes -/

theorem caseless_quotedRest {quote : Char} (hquote : isAsciiLetter quote = false) :
    ∀ cs, quotedRest quote (cs.map asciiLower) = quotedRest quote cs
  | [] => rfl
  | [c] => by simp [quotedRest, asciiLower_eq_iff hquote]
  | c :: d :: cs => by
    have hslash : asciiLower c = '\\' ↔ c = '\\' := asciiLower_eq_iff (by decide) c
    have hfeed : asciiLower d = '\n' ↔ d = '\n' := asciiLower_eq_iff (by decide) d
    have ih := caseless_quotedRest hquote (d :: cs)
    simp only [List.map_cons] at ih
    simp only [List.map_cons, quotedRest, asciiLower_eq_iff hquote, hslash, hfeed, ih,
      caseless_quotedRest hquote cs]

theorem caseless_quotedExtent : Caseless quotedExtent := by
  intro cs
  cases cs with
  | nil => rfl
  | cons c cs =>
    have hsingle : asciiLower c = '\'' ↔ c = '\'' := asciiLower_eq_iff (by decide) c
    have hdouble : asciiLower c = '"' ↔ c = '"' := asciiLower_eq_iff (by decide) c
    simp only [List.map_cons, quotedExtent, Bool.or_eq_true, decide_eq_true_eq, hsingle, hdouble]
    split
    · next hquote =>
      have hc : isAsciiLetter c = false := by
        rcases hquote with rfl | rfl <;> rfl
      rw [(asciiLower_eq_iff hc c).2 rfl, caseless_quotedRest hc]
    · rfl

theorem caseless_groupRest (cs : List Char) :
    ∀ depth, groupRest depth (cs.map asciiLower) = groupRest depth cs := by
  induction cs with
  | nil => intro depth; rfl
  | cons c cs ih =>
    intro depth
    have hopen : asciiLower c = '(' ↔ c = '(' := asciiLower_eq_iff (by decide) c
    have hclose : asciiLower c = ')' ↔ c = ')' := asciiLower_eq_iff (by decide) c
    simp only [List.map_cons, groupRest, hopen, hclose, ih]

theorem caseless_groupExtent : Caseless groupExtent := by
  intro cs
  cases cs with
  | nil => rfl
  | cons c cs =>
    have hopen : asciiLower c = '(' ↔ c = '(' := asciiLower_eq_iff (by decide) c
    simp only [List.map_cons, groupExtent, hopen, caseless_groupRest]

theorem caseless_pieceExtent : Caseless pieceExtent := by
  intro cs
  cases cs with
  | nil => rfl
  | cons c cs =>
    have hsingle : asciiLower c = '\'' ↔ c = '\'' := asciiLower_eq_iff (by decide) c
    have hdouble : asciiLower c = '"' ↔ c = '"' := asciiLower_eq_iff (by decide) c
    have hopen : asciiLower c = '(' ↔ c = '(' := asciiLower_eq_iff (by decide) c
    have hquoted : quotedExtent (asciiLower c :: cs.map asciiLower) = quotedExtent (c :: cs) :=
      caseless_quotedExtent (c :: cs)
    have hgroup : groupExtent (asciiLower c :: cs.map asciiLower) = groupExtent (c :: cs) :=
      caseless_groupExtent (c :: cs)
    simp only [List.map_cons, pieceExtent, hsingle, hdouble, hopen, hquoted, hgroup,
      endsWord_asciiLower]

theorem caseless_wordExtent : Caseless wordExtent :=
  caseless_covered caseless_pieceExtent

/-- Whether a text begins with marks that are no letters. -/
theorem caseless_isPrefixOf {marks : List Char} (h : marks.any isAsciiLetter = false) :
    Caseless marks.isPrefixOf := by
  intro cs
  induction marks generalizing cs with
  | nil => rfl
  | cons q marks ih =>
    rw [List.any_cons, Bool.or_eq_false_iff] at h
    cases cs with
    | nil => rfl
    | cons c cs =>
      have hq : (q == asciiLower c) = (q == c) := by
        rw [Bool.eq_iff_iff, beq_iff_eq, beq_iff_eq, eq_comm,
          asciiLower_eq_iff h.1, eq_comm]
      simp only [List.map_cons, List.isPrefixOf, hq, ih h.2 cs]

theorem caseless_stopsValue : Caseless stopsValue := by
  intro cs
  have hline : "--".toList.isPrefixOf (cs.map asciiLower) = "--".toList.isPrefixOf cs :=
    caseless_isPrefixOf (by decide) cs
  have hblock : "/*".toList.isPrefixOf (cs.map asciiLower) = "/*".toList.isPrefixOf cs :=
    caseless_isPrefixOf (by decide) cs
  have hspelled : ∀ k : Keyword, k.spelledAt (cs.map asciiLower) = k.spelledAt cs := fun k =>
    caseless_spelledLength k.spelling.toList cs
  have hword : ∀ n, ((cs.map asciiLower).drop n).head?.any isWord =
      (cs.drop n).head?.any isWord := by
    intro n
    rw [← List.map_drop]
    cases cs.drop n with
    | nil => rfl
    | cons c cs => exact isWord_asciiLower c
  simp only [stopsValue, hline, hblock, hspelled, hword]

theorem caseless_nextWordExtent : Caseless nextWordExtent := by
  intro cs
  simp only [nextWordExtent_eq, dropWhile_lowered isBlank_asciiLower,
    takeWhile_lowered isBlank_asciiLower, List.length_map, caseless_stopsValue _,
    caseless_wordExtent _]

theorem caseless_valueExtent : Caseless valueExtent := by
  intro cs
  simp only [valueExtent_eq, caseless_wordExtent _, ← List.map_drop,
    caseless_covered caseless_nextWordExtent _]

theorem caseless_identExtent : Caseless identExtent := by
  intro cs
  cases cs with
  | nil => rfl
  | cons c cs =>
    have hunderscore : (asciiLower c == '_') = (c == '_') := by
      rw [Bool.eq_iff_iff, beq_iff_eq, beq_iff_eq, asciiLower_eq_iff (by decide)]
    simp only [List.map_cons, identExtent, isAsciiLetter_asciiLower, hunderscore,
      takeWhile_lowered isNameChar_asciiLower, List.length_map]

theorem caseless_fractionExtent : Caseless fractionExtent := by
  intro cs
  cases cs with
  | nil => rfl
  | cons c cs =>
    have hsign : asciiLower c = '%' ↔ c = '%' := asciiLower_eq_iff (by decide) c
    have hpoint : asciiLower c = '.' ↔ c = '.' := asciiLower_eq_iff (by decide) c
    by_cases hc : c = '%'
    · rw [List.map_cons, hsign.2 hc, hc]
      rfl
    by_cases hc' : c = '.'
    · rw [List.map_cons, hpoint.2 hc', hc']
      simp only [fractionExtent, takeWhile_lowered isDecimal_asciiLower, List.length_map,
        ← List.map_drop, head?_lowered (q := '%') (by decide)]
    · simp [fractionExtent, hsign, hpoint, hc, hc']

theorem caseless_percentageExtent : Caseless percentageExtent := by
  intro cs
  simp only [percentageExtent_eq, takeWhile_lowered isDecimal_asciiLower,
    dropWhile_lowered isDecimal_asciiLower, List.length_map, caseless_fractionExtent _]

theorem caseless_functionExtent : Caseless functionExtent := by
  intro cs
  have hat : functionAt (cs.map asciiLower) = functionAt cs := by
    funext name
    simp only [functionAt, caseless_spelledLength name _, ← List.map_drop,
      takeWhile_lowered isBlank_asciiLower, List.length_map, head?_lowered (q := '(') (by decide)]
  rw [functionExtent_eq, functionExtent_eq, hat]

theorem caseless_comparisonExtent : Caseless comparisonExtent := by
  intro cs
  cases cs with
  | nil => rfl
  | cons c cs =>
    have hmore : asciiLower c = '>' ↔ c = '>' := asciiLower_eq_iff (by decide) c
    have hless : asciiLower c = '<' ↔ c = '<' := asciiLower_eq_iff (by decide) c
    simp only [List.map_cons, comparisonExtent, hmore, hless, head?_lowered (q := '=') (by decide)]

theorem caseless_lineCommentExtent : Caseless lineCommentExtent := by
  intro cs
  match cs with
  | [] => rfl
  | [c] => simp [lineCommentExtent]
  | c :: d :: cs =>
    have hc : asciiLower c = '-' ↔ c = '-' := asciiLower_eq_iff (by decide) c
    have hd : asciiLower d = '-' ↔ d = '-' := asciiLower_eq_iff (by decide) d
    by_cases hopen : c = '-' ∧ d = '-'
    · have hfeed : ∀ c, (asciiLower c != '\n') = (c != '\n') :=
        apply_asciiLower (f := (· != '\n')) (by decide)
      obtain ⟨rfl, rfl⟩ := hopen
      show 2 + ((cs.map asciiLower).takeWhile (· != '\n')).length = 2 + _
      rw [takeWhile_lowered hfeed, List.length_map]
    · have hnone : ∀ {c d : Char} {ds : List Char}, ¬(c = '-' ∧ d = '-') →
          lineCommentExtent (c :: d :: ds) = 0 := by
        intro c d ds hnot
        by_contra h
        obtain ⟨ds', heq⟩ := exists_of_lineCommentExtent h
        simp only [List.cons.injEq] at heq
        exact hnot ⟨heq.1, heq.2.1⟩
      rw [hnone hopen]
      exact hnone (by rwa [hc, hd])

theorem caseless_blockCommentRest :
    ∀ cs, blockCommentRest (cs.map asciiLower) = blockCommentRest cs
  | [] => rfl
  | [_] => rfl
  | c :: d :: cs => by
    have hc : asciiLower c = '*' ↔ c = '*' := asciiLower_eq_iff (by decide) c
    have hd : asciiLower d = '/' ↔ d = '/' := asciiLower_eq_iff (by decide) d
    have ih := caseless_blockCommentRest (d :: cs)
    simp only [List.map_cons] at ih
    simp only [List.map_cons, blockCommentRest, hc, hd, ih]

theorem caseless_blockCommentExtent : Caseless blockCommentExtent := by
  intro cs
  match cs with
  | [] => rfl
  | [c] => simp [blockCommentExtent]
  | c :: d :: cs =>
    have hc : asciiLower c = '/' ↔ c = '/' := asciiLower_eq_iff (by decide) c
    have hd : asciiLower d = '*' ↔ d = '*' := asciiLower_eq_iff (by decide) d
    by_cases hopen : c = '/' ∧ d = '*'
    · obtain ⟨rfl, rfl⟩ := hopen
      show ((blockCommentRest (cs.map asciiLower)).map (· + 2)).getD 0 = _
      rw [caseless_blockCommentRest]
      rfl
    · have hnone : ∀ {c d : Char} {ds : List Char}, ¬(c = '/' ∧ d = '*') →
          blockCommentExtent (c :: d :: ds) = 0 := by
        intro c d ds hnot
        by_contra h
        obtain ⟨ds', heq⟩ := exists_of_blockCommentExtent h
        simp only [List.cons.injEq] at heq
        exact hnot ⟨heq.1, heq.2.1⟩
      rw [hnone hopen]
      exact hnone (by rwa [hc, hd])

/-! ## 4. Lexemes -/

theorem caseless_mediaExtent : Caseless mediaExtent :=
  caseless_length_takeWhile (apply_asciiLower (f := (· != ';')) (by decide))

/-- A punctuation mark that is a letter. -/
def Lexeme.isLetterMark : Lexeme → Bool
  | .token (.mark c) => isAsciiLetter c
  | _ => false

/-- No mark of the grammar is a letter. -/
theorem isAsciiLetter_of_mark {c : Char} (h : Lexeme.token (.mark c) ∈ Lexeme.inOrder) :
    isAsciiLetter c = false := by
  have hall : ∀ l ∈ Lexeme.inOrder, l.isLetterMark = false := by decide
  exact hall _ h

namespace Lexeme

/-- How far a lexeme reaches does not depend on letter case. -/
theorem caseless_extent {l : Lexeme} (h : l ∈ inOrder) : Caseless l.extent := by
  cases l with
  | separator => exact caseless_length_takeWhile isSeparator_asciiLower
  | lineComment => exact caseless_lineCommentExtent
  | blockComment => exact caseless_blockCommentExtent
  | token t =>
    cases t with
    | word k => exact caseless_spelledLength _
    | mark c =>
      intro cs
      simp only [extent, Terminal.extent, head?_lowered (isAsciiLetter_of_mark h)]
    | comparison => exact caseless_comparisonExtent
    | ident => exact caseless_identExtent
    | quoted => exact caseless_quotedExtent
    | value => exact caseless_valueExtent
    | percentage => exact caseless_percentageExtent
    | function => exact caseless_functionExtent
    | group => exact caseless_groupExtent
    | media => exact caseless_mediaExtent

theorem caseless_chosen (accept : List Terminal) : Caseless (chosen accept) := by
  intro cs
  refine List.find?_congr fun l hl => ?_
  rw [caseless_extent hl]

/-- Which reserved word a name is does not depend on letter case. -/
theorem caseless_promote (accept : List Terminal) (t : Terminal) :
    Caseless fun text => promote accept text t := by
  intro text
  have hfold : foldChar ∘ asciiLower = foldChar := funext foldChar_asciiLower
  have hspelled : ∀ k : Keyword, k.isSpelledBy (text.map asciiLower) = k.isSpelledBy text := by
    intro k
    rw [Keyword.isSpelledBy, List.map_map, hfold, Keyword.isSpelledBy]
  cases t <;> simp only [promote, hspelled]

/-- The lexeme at the front of a text does not depend on letter case. -/
theorem caseless_first? (accept : List Terminal) : Caseless (first? accept) := by
  intro cs
  rw [first?_eq, first?_eq, caseless_chosen accept cs]
  cases hchosen : chosen accept cs with
  | none => rfl
  | some l =>
    have hextent := caseless_extent (chosen_spec hchosen).1 cs
    have hpromote := fun t => caseless_promote accept t (cs.take (l.extent cs))
    simp only [Option.map_some, hextent, ← List.map_take, hpromote]

end Lexeme

end StyleLedger.Source
