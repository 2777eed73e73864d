import StyleLedger.Proofs.Source.Extent
import StyleLedger.Proofs.Source.Follow
import Mathlib.Data.List.Find

/-!
The lexeme at the front of a text, and that it stays there when another line comes after the text.

What is looked for where the machine stands is settled by the first character for the most part
(`mayBegin`), so of the lexemes that might grow hardly two are looked for at a time: a value, a
group and a media query are looked for alone, and where an open quote or bracket stands nothing but
what it opens may be found. A block comment that is never closed is the one exception: a media query
may begin with it.

* `chosen_append` — the lexeme that is found is found again, and reaches as far.
* `first?_append` — so is the token that is made of it.
-/

namespace StyleLedger.Source

open Text

/-! ## 1. How lexemes begin -/

/-- Whether a word begins with a character, letter case aside. -/
def spelledFrom (word : List Char) (c : Char) : Bool :=
  word.head?.map foldChar == some (foldChar c)

/-- Whether a token of a kind may begin with a character. -/
def Terminal.mayBegin : Terminal → Char → Bool
  | .word k, c => spelledFrom k.spelling.toList c
  | .mark m, c => c == m
  | .comparison, c => c == '>' || c == '<'
  | .ident, c => isAsciiLetter c || c == '_'
  | .quoted, c => c == '\'' || c == '"'
  | .value, c => opens c || !endsWord c
  | .percentage, c => isDecimal c
  | .function, c => functionNames.any (spelledFrom · c)
  | .group, c => c == '('
  | .media, c => c != ';'

/-- Whether a lexeme may begin with a character. -/
def Lexeme.mayBegin : Lexeme → Char → Bool
  | .separator, c => isSeparator c
  | .lineComment, c => c == '-'
  | .blockComment, c => c == '/'
  | .token t, c => t.mayBegin c

section Begin

variable {c : Char} {cs : List Char}

theorem spelledFrom_of_spelledLength {word : List Char} (h : spelledLength word (c :: cs) ≠ 0) :
    spelledFrom word c = true := by
  have hspelled := take_spelledLength h
  cases word with
  | nil => exact absurd rfl h
  | cons w ws =>
    obtain ⟨n, hn⟩ := Nat.exists_eq_succ_of_ne_zero h
    rw [hn] at hspelled
    simp only [List.take_succ_cons, List.map_cons, List.cons.injEq] at hspelled
    simp [spelledFrom, hspelled.1]

theorem Terminal.mayBegin_of_extent {t : Terminal} (h : t.extent (c :: cs) ≠ 0) :
    t.mayBegin c = true := by
  cases t with
  | word k => exact spelledFrom_of_spelledLength h
  | mark m => simpa [extent, mayBegin] using h
  | comparison =>
    by_contra hc
    simp only [mayBegin, Bool.or_eq_true, beq_iff_eq] at hc
    simp [extent, comparisonExtent, hc] at h
  | ident =>
    by_contra hc
    simp only [mayBegin] at hc
    simp only [extent, identExtent, if_neg hc] at h
    exact h rfl
  | quoted =>
    simp only [extent, quotedExtent] at h
    split_ifs at h with hc
    · simpa [mayBegin] using hc
    · exact absurd rfl h
  | value =>
    have hpiece : pieceExtent (c :: cs) ≠ 0 := fun hzero => h (by
      simp only [extent, valueExtent_eq, (wordExtent_eq_zero_iff _).2 hzero, if_true])
    simp only [pieceExtent] at hpiece
    simp only [mayBegin, opens, Bool.or_eq_true, beq_iff_eq, Bool.not_eq_true']
    split_ifs at hpiece with hquote hgroup hends
    · exact .inl (.inl (by simpa using hquote))
    · exact .inl (.inr hgroup)
    · exact absurd rfl hpiece
    · exact .inr (by simpa using hends)
  | percentage =>
    simp only [extent, percentageExtent_eq] at h
    by_contra hc
    simp only [mayBegin] at hc
    simp [hc] at h
  | function =>
    simp only [extent, functionExtent_eq] at h
    cases hfind : functionNames.findSome? (functionAt (c :: cs)) with
    | none => simp [hfind] at h
    | some n =>
      obtain ⟨name, hname, hat⟩ := List.exists_of_findSome?_eq_some hfind
      have hspelled : spelledLength name (c :: cs) ≠ 0 := fun hzero => by
        simp [functionAt, hzero] at hat
      exact List.any_eq_true.2 ⟨name, hname, spelledFrom_of_spelledLength hspelled⟩
  | group =>
    simp only [extent, groupExtent] at h
    split_ifs at h with hc
    · simpa [mayBegin] using hc
    · exact absurd rfl h
  | media =>
    by_contra hc
    simp only [mayBegin] at hc
    simp [extent, mediaExtent, hc] at h

/-- A lexeme begins with a character that it may begin with. -/
theorem Lexeme.mayBegin_of_extent {l : Lexeme} (h : l.extent (c :: cs) ≠ 0) :
    l.mayBegin c = true := by
  cases l with
  | separator =>
    by_contra hc
    simp only [mayBegin] at hc
    simp [extent, separatorExtent, hc] at h
  | lineComment =>
    obtain ⟨ds, hds⟩ := exists_of_lineCommentExtent h
    simp [mayBegin, (List.cons.inj hds).1]
  | blockComment =>
    obtain ⟨ds, hds⟩ := exists_of_blockCommentExtent h
    simp [mayBegin, (List.cons.inj hds).1]
  | token t => exact Terminal.mayBegin_of_extent h

end Begin

/-- What may begin with an opening character. -/
theorem Lexeme.eq_of_mayBegin_open : ∀ l ∈ inOrder,
    (l.mayBegin '\'' = true ∨ l.mayBegin '"' = true →
      l = token .quoted ∨ l = token .value ∨ l = token .media) ∧
    (l.mayBegin '(' = true →
      l = token .group ∨ l = token (.mark '(') ∨ l = token .value ∨ l = token .media) ∧
    (l.mayBegin '/' = true → l = blockComment ∨ l = token .value ∨ l = token .media) := by
  decide +kernel

/-- What holds of every character that is ignored as white space. -/
theorem forall_isSeparator {p : Char → Prop} [DecidablePred p]
    (hp : [' ', '\t', '\x0c', '\r', '\n'].all (fun c => p c) = true) :
    ∀ c, isSeparator c = true → p c := by
  intro c hc
  have hmem : c ∈ [' ', '\t', '\x0c', '\r', '\n'] := by
    simpa [isSeparator, or_assoc] using hc
  exact of_decide_eq_true (List.all_eq_true.1 hp c hmem)

/-- Nothing that is looked for before white space begins with white space. -/
theorem Lexeme.not_mayBegin_separator : ∀ c, isSeparator c = true →
    ∀ l ∈ [token .function, token .value, token .group, token .quoted, token .ident, blockComment,
      token .percentage], l.mayBegin c = false := by
  exact forall_isSeparator (by decide +kernel)

/-! ## 2. The lexeme that is found -/

namespace Lexeme

/-- The lexeme that is found at the front of a text. -/
def chosen (accept : List Terminal) (cs : List Char) : Option Lexeme :=
  inOrder.find? fun l => l.admitted accept && l.extent cs != 0

section Chosen

variable {accept : List Terminal} {cs : List Char} {l : Lexeme}

theorem first?_eq : first? accept cs = (chosen accept cs).map fun l =>
    (match l with
      | token t => token (promote accept (cs.take (l.extent cs)) t)
      | l => l, l.extent cs) :=
  rfl

theorem chosen_spec (h : chosen accept cs = some l) :
    l ∈ inOrder ∧ l.admitted accept = true ∧ l.extent cs ≠ 0 := by
  have hfits := List.find?_some h
  rw [Bool.and_eq_true, bne_iff_ne] at hfits
  exact ⟨List.mem_of_find?_eq_some h, hfits⟩

theorem exists_cons_of_chosen (h : chosen accept cs = some l) : ∃ c ds, cs = c :: ds := by
  refine List.exists_cons_of_ne_nil fun hnil => (chosen_spec h).2.2 ?_
  rw [hnil]
  exact Nat.le_zero.1 (l.extent_le_length [])

/-- Where white space stands, it is found. -/
theorem chosen_of_isSeparator {c : Char} (hc : isSeparator c = true) :
    chosen accept (c :: cs) = some separator := by
  refine List.find?_eq_some_iff_append.2 ⟨?_, inOrder.take 7, inOrder.drop 8, rfl, fun l hl => ?_⟩
  · simp [admitted, extent, separatorExtent, hc]
  · have hzero : l.extent (c :: cs) = 0 := by
      by_contra hextent
      have := not_mayBegin_separator c hc l hl
      simp [mayBegin_of_extent hextent] at this
    simp [hzero]

/-- A value is found where it is looked for. -/
theorem chosen_value (h : accept = [.value]) (hextent : valueExtent cs ≠ 0) :
    chosen accept cs = some (token .value) := by
  refine List.find?_eq_some_iff_append.2 ⟨?_, [token .function], inOrder.drop 2, rfl, ?_⟩
  · simpa [admitted, extent, Terminal.extent, h] using hextent
  · simp [admitted, h]

/-- Where a value is looked for, it or white space is found. -/
theorem eq_value_of_chosen (haccept : accept = [.value]) (h : chosen accept cs = some l)
    (hl : l ≠ separator) : l = token .value := by
  by_cases hextent : valueExtent cs = 0
  · have hpiece : pieceExtent cs = 0 := by
      rw [← wordExtent_eq_zero_iff]
      by_contra hword
      rw [valueExtent_eq, if_neg hword] at hextent
      omega
    obtain ⟨-, hadmitted, hfits⟩ := chosen_spec h
    cases l with
    | separator => exact absurd rfl hl
    | lineComment =>
      obtain ⟨ds, rfl⟩ := exists_of_lineCommentExtent hfits
      exact absurd hpiece Nat.one_ne_zero
    | blockComment =>
      obtain ⟨ds, rfl⟩ := exists_of_blockCommentExtent hfits
      exact absurd hpiece Nat.one_ne_zero
    | token t => simpa [admitted, haccept] using hadmitted
  · exact Option.some.inj (h.symm.trans (chosen_value haccept hextent))

end Chosen

/-! ## 3. More text after it -/

section Append

variable {machine : List Stack} {cs d : List Char} {l : Lexeme}

/-- Where a value, a group or a media query is looked for, no other token is. -/
theorem accepts_eq_of_mem (h : isReached machine = true) {t : Terminal} (ht : t ∈ alone)
    (hmem : t ∈ accepts machine) : accepts machine = [t] := by
  obtain ⟨rest, rfl, -⟩ := eq_of_mem_accepts h ht hmem
  simp [accepts, Stack.firsts]

/-- Where no value is looked for, whatever is looked for reaches as far as before, if something is
found at all. -/
theorem extent_append_of_chosen (h : isReached machine = true)
    (hvalue : Terminal.value ∉ accepts machine) (hchosen : chosen (accepts machine) cs = some l)
    (hl : l ≠ separator)
    (hsemicolon : ∀ t ∈ [Terminal.function, .media], t ∈ accepts machine → ';' ∈ cs)
    (hmedia : l = token .media → blockCommentExtent (cs ++ '\n' :: d) = blockCommentExtent cs) :
    ∀ l' ∈ inOrder, l'.admitted (accepts machine) = true →
      l'.extent (cs ++ '\n' :: d) = l'.extent cs := by
  obtain ⟨hmem, hadmitted, hfits⟩ := chosen_spec hchosen
  obtain ⟨c, ds, rfl⟩ := exists_cons_of_chosen hchosen
  have hbegins := mayBegin_of_extent hfits
  obtain ⟨hquote, hgroup, hslash⟩ := eq_of_mayBegin_open l hmem
  have hnot : ∀ {t : Terminal}, t ∉ accepts machine → l ≠ token t := by
    rintro t ht rfl
    exact ht (by simpa [admitted] using hadmitted)
  intro l' hmem' hadmitted'
  cases l' with
  | separator =>
    by_cases hc : isSeparator c = true
    · exact absurd (Option.some.inj (hchosen.symm.trans (chosen_of_isSeparator hc))) hl
    · simp [extent, separatorExtent, hc]
  | lineComment => exact lineCommentExtent_append_feed
  | blockComment =>
    by_cases hextent : blockCommentExtent (c :: ds) = 0
    · by_cases hc : c = '/'
      · subst hc
        rcases hslash hbegins with rfl | rfl | rfl
        · exact absurd hextent hfits
        · exact absurd rfl (hnot hvalue)
        · exact hmedia rfl
      · have hzero : ∀ es, blockCommentExtent (c :: es) = 0 := by
          intro es
          by_contra hne
          obtain ⟨es', hes⟩ := exists_of_blockCommentExtent hne
          exact hc (List.cons.inj hes).1
        exact (hzero _).trans (hzero _).symm
    · exact (blockCommentExtent_append hextent).2
  | token t =>
    have ht : t ∈ accepts machine := by simpa [admitted] using hadmitted'
    cases t with
    | word k => exact spelledAt_append_feed k
    | mark m =>
      refine markExtent_append_feed ?_
      rintro rfl
      exact absurd hmem' (by decide)
    | comparison => exact @comparisonExtent_append_feed (c :: ds) d
    | ident => exact @identExtent_append_feed (c :: ds) d
    | quoted =>
      by_cases hextent : quotedExtent (c :: ds) = 0
      · by_cases hc : c = '\'' ∨ c = '"'
        · have halone : .media ∉ accepts machine := fun hmedia' => by
            rw [accepts_eq_of_mem h (by decide) hmedia'] at ht
            exact absurd ht (by decide)
          rcases hquote (by rcases hc with rfl | rfl <;> simp [hbegins]) with rfl | rfl | rfl
          · exact absurd hextent hfits
          · exact absurd rfl (hnot hvalue)
          · exact absurd rfl (hnot halone)
        · have hzero : ∀ es, quotedExtent (c :: es) = 0 := by simp [quotedExtent, hc]
          exact (hzero _).trans (hzero _).symm
      · exact (quotedExtent_append hextent).2
    | value => exact absurd ht hvalue
    | percentage => exact percentageExtent_append_feed
    | function => exact functionExtent_append (hsemicolon _ (by decide) ht)
    | group =>
      by_cases hextent : groupExtent (c :: ds) = 0
      · by_cases hc : c = '('
        · subst hc
          have halone := accepts_eq_of_mem h (by decide) ht
          rw [halone] at hnot
          rcases hgroup hbegins with rfl | rfl | rfl | rfl
          · exact absurd hextent hfits
          · exact absurd rfl (hnot (by decide))
          · exact absurd rfl (hnot (by decide))
          · exact absurd rfl (hnot (by decide))
        · have hzero : ∀ es, groupExtent (c :: es) = 0 := by simp [groupExtent, hc]
          exact (hzero _).trans (hzero _).symm
      · exact (groupExtent_append hextent).2
    | media => exact mediaExtent_append (hsemicolon _ (by decide) ht)

/-- The lexeme that is found is found again when another line comes after the text, and reaches as
far as before. -/
theorem chosen_append (h : isReached machine = true)
    (hchosen : chosen (accepts machine) cs = some l) (hl : l ≠ separator)
    (hsemicolon : ∀ t ∈ [Terminal.function, .media], t ∈ accepts machine → ';' ∈ cs)
    (hvalue : l = token .value → valueExtent (cs ++ '\n' :: d) = valueExtent cs)
    (hmedia : l = token .media → blockCommentExtent (cs ++ '\n' :: d) = blockCommentExtent cs) :
    chosen (accepts machine) (cs ++ '\n' :: d) = some l ∧
      l.extent (cs ++ '\n' :: d) = l.extent cs := by
  obtain ⟨hmem, hadmitted, hfits⟩ := chosen_spec hchosen
  by_cases hmember : Terminal.value ∈ accepts machine
  · have haccepts := accepts_eq_of_mem h (by decide) hmember
    obtain rfl := eq_value_of_chosen haccepts hchosen hl
    have hsame : valueExtent (cs ++ '\n' :: d) = valueExtent cs := hvalue rfl
    have hextent : valueExtent cs ≠ 0 := hfits
    exact ⟨chosen_value haccepts (hsame ▸ hextent), hsame⟩
  · have hsame := extent_append_of_chosen h hmember hchosen hl hsemicolon hmedia
    refine ⟨?_, hsame l hmem hadmitted⟩
    rw [← hchosen]
    refine List.find?_congr fun l' hl' => ?_
    cases hadmitted' : l'.admitted (accepts machine) with
    | false => rfl
    | true => rw [hsame l' hl' hadmitted']

end Append

/-! ## 4. Tokens -/

section First

variable {accept : List Terminal} {cs d : List Char} {l : Lexeme} {n : Nat}

theorem first?_of_isSeparator {c : Char} (hc : isSeparator c = true) :
    first? accept (c :: cs) = some (separator, separatorExtent (c :: cs)) := by
  rw [first?_eq, chosen_of_isSeparator hc]
  rfl

/-- Only a name is read as something else, and only as a reserved word. -/
theorem promote_cases (accept : List Terminal) (text : List Char) (t : Terminal) :
    promote accept text t = t ∨
      t = .ident ∧ ∃ k, promote accept text t = .word k ∧ .word k ∈ accept := by
  by_cases ht : t = .ident
  · subst ht
    rcases Option.getD_eq_iff.1 (rfl : promote accept text .ident = _) with hfound | ⟨-, hsame⟩
    · have hword := List.find?_some hfound
      split at hword
      · next k hk => exact .inr ⟨rfl, k, hk, hk ▸ List.mem_of_find?_eq_some hfound⟩
      · simp at hword
    · exact .inl hsame.symm
  · left
    cases t <;> first | rfl | exact absurd rfl ht

/-- What is found is the lexeme that fits, but for a name that is a reserved word. -/
theorem exists_chosen_of_first? (h : first? accept cs = some (l, n)) :
    ∃ l', chosen accept cs = some l' ∧ l'.extent cs = n ∧
      (l' = l ∨ l' = token .ident ∧ ∃ k, l = token (.word k) ∧ .word k ∈ accept) := by
  rw [first?_eq] at h
  obtain ⟨l', hchosen, hmade⟩ := Option.map_eq_some_iff.1 h
  obtain ⟨hl, hn⟩ := Prod.mk.inj hmade
  refine ⟨l', hchosen, hn, ?_⟩
  match l' with
  | separator | lineComment | blockComment => exact .inl hl
  | token t =>
    obtain rfl : token _ = l := hl
    rcases promote_cases accept (cs.take ((token t).extent cs)) t with hsame | ⟨rfl, k, hk, hmem⟩
    · exact .inl (congrArg token hsame.symm)
    · exact .inr ⟨rfl, k, congrArg token hk, hmem⟩

/-- What is found has an end in the text. -/
theorem extent_of_first? (h : first? accept cs = some (l, n)) : n ≠ 0 ∧ n ≤ cs.length := by
  obtain ⟨l', hchosen, rfl, -⟩ := exists_chosen_of_first? h
  exact ⟨(chosen_spec hchosen).2.2, l'.extent_le_length cs⟩

/-- What is found, but for white space, is found again when another line comes after the text. -/
theorem first?_append {machine : List Stack} (h : isReached machine = true)
    (hfirst : first? (accepts machine) cs = some (l, n)) (hl : l ≠ separator)
    (hsemicolon : ∀ t ∈ [Terminal.function, .media], t ∈ accepts machine → ';' ∈ cs)
    (hvalue : l = token .value → valueExtent (cs ++ '\n' :: d) = valueExtent cs)
    (hmedia : l = token .media → blockCommentExtent (cs ++ '\n' :: d) = blockCommentExtent cs) :
    first? (accepts machine) (cs ++ '\n' :: d) = some (l, n) := by
  obtain ⟨l', hchosen, hn, hmade⟩ := exists_chosen_of_first? hfirst
  have hsame : ∀ l'' ≠ token .ident, l' = l'' → l = l'' := by
    rintro l'' hne rfl
    exact (hmade.resolve_right fun hword => hne hword.1).symm
  obtain ⟨hagain, hextent⟩ := chosen_append (d := d) h hchosen
    (fun hseparator => hl (hsame _ (by simp) hseparator)) hsemicolon
    (fun htoken => hvalue (hsame _ (by simp) htoken))
    (fun htoken => hmedia (hsame _ (by simp) htoken))
  rw [← hfirst, first?_eq, first?_eq, hagain, hchosen, Option.map_some, Option.map_some, hextent,
    List.take_append_of_le_length (l'.extent_le_length cs)]

end First

end Lexeme

end StyleLedger.Source
