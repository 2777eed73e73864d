import StyleLedger.Proofs.Source.Ends

/-!
A front of a text is cut the same way whatever comes after it, if only something sets it off.

A token comes after the front. The text after that token is exchanged for one that begins with
white space, or with the first mark of a comment if the other text does, and in which a comment is
the first thing but for blanks (`SetsOff`). Then nothing in the front grows: a word, a number or a
name does not go on into such a text, no bracket comes right after the name of a function, and a
value stops before a comment. A value further in front is followed by a word or a mark, or by a
comment of its own (`Leads.halts`). Only a block comment that the front leaves open might be closed.

* `Leads.exchange` — the front is cut into the same tokens.
* `Leads.cuts` — the tokens of a text are those of its front and those of its rest.
-/

namespace StyleLedger.Source

open Text

/-! ## 1. What sets a front off -/

/-- A text begins with the marks of a comment. -/
def opensComment (cs : List Char) : Bool :=
  "--".toList.isPrefixOf cs || "/*".toList.isPrefixOf cs

/-- A text sets off what stands before it where another one does: it begins with white space, or like
the other one with a mark of a comment, and a comment is the first thing in it but for blanks. -/
structure SetsOff (q q' : List Char) : Prop where
  front : ∃ c r, q' = c :: r ∧
    (isSeparator c = true ∨ (c = '-' ∨ c = '/') ∧ q.head? = some c)
  comment : opensComment (q'.dropWhile isBlank) = true

/-- The characters that may begin a text that sets something off. -/
def setters : List Char :=
  [' ', '\t', '\x0c', '\r', '\n', '-', '/']

/-- They belong to no reserved word, to no number and to no comparison. -/
theorem setters_spec : ∀ c ∈ setters, isWord c = false ∧ c ≠ '=' ∧ c ≠ '*' ∧
    isDecimal c = false ∧ c ≠ '.' ∧ c ≠ '%' ∧
    isSpelled (foldChar c) = false ∧ ∀ name ∈ functionNames, foldChar c ∉ name.map foldChar :=
  List.all_iff_forall_prop.1 (by decide +kernel)

theorem Keyword.mem_byLength (k : Keyword) : k ∈ Keyword.byLength := by
  cases k <;> decide

namespace SetsOff

variable {q q' : List Char}

theorem exists_setter (h : SetsOff q q') : ∃ c r, q' = c :: r ∧ c ∈ setters := by
  obtain ⟨c, r, hq, hc⟩ := h.front
  refine ⟨c, r, hq, ?_⟩
  rcases hc with hc | ⟨rfl | rfl, -⟩
  · have hsetter : ∀ c, isSeparator c = true → c ∈ setters := forall_isSeparator (by decide)
    exact hsetter c hc
  · decide
  · decide

theorem stopsValue_dropWhile (h : SetsOff q q') :
    stopsValue (q'.dropWhile isBlank) = true := by
  have hcomment := h.comment
  rw [opensComment] at hcomment
  rw [stopsValue, hcomment, Bool.true_or]

theorem head?_dropWhile_ne (h : SetsOff q q') : (q'.dropWhile isBlank).head? ≠ some '(' := by
  intro hhead
  have hcomment := h.comment
  cases hrest : q'.dropWhile isBlank with
  | nil => simp [hrest] at hhead
  | cons c cs =>
    obtain rfl : c = '(' := by simpa [hrest] using hhead
    rw [hrest] at hcomment
    simp [opensComment, List.isPrefixOf] at hcomment

/-- A further word of a value does not come after blanks that a comment comes after. -/
theorem nextWordExtent_eq_zero (h : SetsOff q q') : nextWordExtent q' = 0 := by
  rw [nextWordExtent_eq, h.stopsValue_dropWhile, Bool.or_true, Bool.true_or, if_pos rfl]

/-- A word that is spelled at the front of a text is spelled within what is set off. -/
theorem length_le_of_spelledLength (h : SetsOff q q') {p word : List Char}
    (hword : ∀ c ∈ setters, foldChar c ∉ word.map foldChar)
    (hspelled : spelledLength word (p ++ q') ≠ 0) : spelledLength word (p ++ q') ≤ p.length := by
  obtain ⟨c, r, rfl, hc⟩ := h.exists_setter
  by_contra hlong
  have htake := take_spelledLength hspelled
  refine hword c hc (htake ▸ List.mem_map_of_mem ?_)
  obtain ⟨n, hn⟩ := Nat.exists_eq_add_of_lt (Nat.not_le.1 hlong)
  rw [hn, List.take_append, Nat.add_assoc, Nat.add_sub_cancel_left]
  exact List.mem_append_right _ List.mem_cons_self

theorem length_takeWhile_le (h : SetsOff q q') {f : Char → Bool}
    (hf : ∀ c ∈ setters, f c = false) (p : List Char) :
    ((p ++ q').takeWhile f).length ≤ p.length := by
  obtain ⟨c, r, rfl, hc⟩ := h.exists_setter
  rw [List.takeWhile_append]
  split
  · simp [hf c hc]
  · exact StyleLedger.Source.length_takeWhile_le f p

theorem fractionExtent_le (h : SetsOff q q') (p : List Char) :
    fractionExtent (p ++ q') ≤ p.length := by
  have hdecimal : ∀ c ∈ setters, isDecimal c = false := fun c hc => (setters_spec c hc).2.2.2.1
  obtain ⟨e, r, hq, he⟩ := h.exists_setter
  obtain ⟨-, -, -, -, hpoint', hsign', -⟩ := setters_spec e he
  cases p with
  | nil => simp [hq, fractionExtent, hpoint', hsign']
  | cons c p =>
    by_cases hsign : c = '%'
    · rw [hsign]
      exact Nat.succ_le_succ (Nat.zero_le _)
    by_cases hpoint : c = '.'
    · rw [hpoint]
      simp only [List.cons_append, fractionExtent, List.length_cons]
      obtain ⟨a, b, rfl, ha, hb, -, -⟩ :=
        takeWhile_split (x := p) (r := q') (h.length_takeWhile_le hdecimal p)
      rw [drop_length_takeWhile, ha, hb]
      split
      · next hcond =>
        simp only [ne_eq, Bool.and_eq_true, decide_eq_true_eq, beq_iff_eq] at hcond
        cases b with
        | nil => simp [hq, hsign'] at hcond
        | cons d b =>
          simp only [List.length_append, List.length_cons]
          omega
      · exact Nat.zero_le _
    · simp [fractionExtent, hsign, hpoint]

theorem percentageExtent_le (h : SetsOff q q') (p : List Char) :
    percentageExtent (p ++ q') ≤ p.length := by
  have hdecimal : ∀ c ∈ setters, isDecimal c = false := fun c hc => (setters_spec c hc).2.2.2.1
  obtain ⟨a, b, rfl, ha, hb, -, -⟩ :=
    takeWhile_split (x := p) (r := q') (h.length_takeWhile_le hdecimal p)
  have hfraction := h.fractionExtent_le b
  rw [percentageExtent_eq, ha, hb, List.length_append]
  split <;> omega

/-- A function that is found has its bracket within what is set off. -/
theorem mem_of_functionExtent (h : SetsOff q q') {p : List Char}
    (hne : functionExtent (p ++ q') ≠ 0) : '(' ∈ p := by
  rw [functionExtent_eq] at hne
  cases hfind : functionNames.findSome? (functionAt (p ++ q')) with
  | none =>
    rw [hfind] at hne
    exact absurd rfl hne
  | some n =>
    obtain ⟨name, hname, hat⟩ := List.exists_of_findSome?_eq_some hfind
    simp only [functionAt] at hat
    split_ifs at hat with hcond
    simp only [ne_eq, Bool.and_eq_true, decide_eq_true_eq, beq_iff_eq] at hcond
    obtain ⟨hspelled, hbracket⟩ := hcond
    have hle := h.length_le_of_spelledLength
      (fun c hc => (setters_spec c hc).2.2.2.2.2.2.2 name hname) hspelled
    rw [← List.drop_drop, drop_length_takeWhile, List.drop_append_of_le_length hle,
      List.dropWhile_append] at hbracket
    split at hbracket
    · exact absurd hbracket h.head?_dropWhile_ne
    · next hrest =>
      cases hdrop : (p.drop (spelledLength name (p ++ q'))).dropWhile isBlank with
      | nil => simp [hdrop] at hrest
      | cons c cs =>
        rw [hdrop] at hbracket
        obtain rfl : c = '(' := by simpa using hbracket
        have hsub : '(' ∈ (p.drop (spelledLength name (p ++ q'))).dropWhile isBlank :=
          hdrop ▸ List.mem_cons_self
        exact List.mem_of_mem_drop ((List.dropWhile_suffix isBlank).subset hsub)

end SetsOff

/-! ## 2. What is found -/

section Chosen

variable {machine : List Stack} {x y q q' : List Char} {l : Lexeme}

/-- A terminal that asks for nothing after it reaches as far before the exchange, if it stays within
what is set off. -/
theorem extent_eq_of_le {t : Terminal} {p : List Char} (hle : t.extent (p ++ q') ≤ p.length)
    (hends : ∀ x r, t.Ends x r) :
    t.extent (p ++ q') = 0 ∨ t.extent (p ++ q) = t.extent (p ++ q') := by
  by_cases hne : t.extent (p ++ q') = 0
  · exact .inl hne
  obtain ⟨x, y, rfl, hx⟩ : ∃ x y, p = x ++ y ∧ x.length = t.extent (p ++ q') := by
    refine ⟨p.take (t.extent (p ++ q')), p.drop (t.extent (p ++ q')),
      (List.take_append_drop _ p).symm, ?_⟩
    rw [List.length_take]
    omega
  have hxne : x ≠ [] := by
    rintro rfl
    exact hne hx.symm
  rw [List.append_assoc] at hx ⊢
  right
  rw [List.append_assoc, t.extent_exchange hxne hx.symm (hends _ _), hx]

/-- What does not fit before the exchange does not fit after it, where a lexeme that is no value fits
and something sets it off. -/
theorem extent_eq_zero_exchange {p : List Char} (hreached : isReached machine = true)
    (hvalue : Terminal.value ∉ accepts machine) (hp : p ≠ []) (h : SetsOff q q')
    (hchosen : Lexeme.chosen (accepts machine) (p ++ q) = some l)
    (hmedia : l = .token .media → blockCommentExtent (p ++ q) = 0 →
      blockCommentExtent (p ++ q') = 0)
    {l' : Lexeme} (hmem' : l' ∈ Lexeme.inOrder) (hadmitted' : l'.admitted (accepts machine) = true)
    (hzero : l'.extent (p ++ q) = 0) : l'.extent (p ++ q') = 0 := by
  obtain ⟨hmem, hadmitted, hfits⟩ := Lexeme.chosen_spec hchosen
  obtain ⟨c, ps, rfl⟩ := List.exists_cons_of_ne_nil hp
  have hbegins : l.mayBegin c = true := Lexeme.mayBegin_of_extent hfits
  obtain ⟨hquote, hgroup, hslash⟩ := Lexeme.eq_of_mayBegin_open l hmem
  have hnot : ∀ {t : Terminal}, t ∉ accepts machine → l ≠ .token t := by
    rintro t ht rfl
    exact ht (by simpa [Lexeme.admitted] using hadmitted)
  have hdiffers : l ≠ l' := by
    rintro rfl
    exact hfits hzero
  cases l' with
  | separator =>
    simp only [Lexeme.extent, separatorExtent, List.cons_append, List.takeWhile_cons] at hzero ⊢
    split_ifs at hzero ⊢
    rfl
  | lineComment =>
    by_contra hne
    obtain ⟨ds, hds⟩ := exists_of_lineCommentExtent hne
    cases ps with
    | cons d ps =>
      simp only [List.cons_append, List.cons.injEq] at hds
      obtain ⟨rfl, rfl, -⟩ := hds
      simp [Lexeme.extent, lineCommentExtent] at hzero
    | nil =>
      simp only [List.cons_append, List.nil_append, List.cons.injEq] at hds
      obtain ⟨rfl, rfl⟩ := hds
      obtain ⟨e, r, hq, he⟩ := h.front
      obtain ⟨rfl, -⟩ := List.cons.inj hq
      have hhead : q.head? = some '-' := (he.resolve_left (by decide)).2
      obtain ⟨rest, rfl⟩ := List.head?_eq_some_iff.1 hhead
      simp [Lexeme.extent, lineCommentExtent] at hzero
  | blockComment =>
    by_contra hne
    obtain ⟨ds, hds⟩ := exists_of_blockCommentExtent hne
    obtain ⟨rfl, -⟩ := List.cons.inj hds
    rcases hslash hbegins with rfl | rfl | rfl
    · exact hdiffers rfl
    · exact hnot hvalue rfl
    · exact hne (hmedia rfl hzero)
  | token t =>
    have ht : t ∈ accepts machine := by simpa [Lexeme.admitted] using hadmitted'
    have hkept : t.extent (c :: ps ++ q') ≤ (c :: ps).length → (∀ x r, t.Ends x r) →
        t.extent (c :: ps ++ q') = 0 := by
      intro hle hends
      rcases extent_eq_of_le (q := q) hle hends with hnone | hsame
      · exact hnone
      · exact hsame.symm.trans hzero
    cases t with
    | word k =>
      by_contra hne
      have hword : ∀ c ∈ setters, foldChar c ∉ k.spelling.toList.map foldChar := fun c hc =>
        k.not_mem_spelling (setters_spec c hc).2.2.2.2.2.2.1
      exact hne (hkept (h.length_le_of_spelledLength hword hne) fun _ _ => trivial)
    | mark m => exact hzero
    | comparison =>
      simp only [Lexeme.extent, Terminal.extent, List.cons_append, comparisonExtent] at hzero ⊢
      split_ifs at hzero ⊢
      rfl
    | ident =>
      simp only [Lexeme.extent, Terminal.extent, List.cons_append, identExtent] at hzero ⊢
      split_ifs at hzero ⊢
      · omega
      · rfl
    | quoted =>
      by_contra hne
      have hc : c = '\'' ∨ c = '"' := by
        simpa [Terminal.mayBegin] using
          Terminal.mayBegin_of_extent (t := .quoted) hne
      rcases hquote (by rcases hc with rfl | rfl <;> simp [hbegins]) with rfl | rfl | rfl
      · exact hdiffers rfl
      · exact hnot hvalue rfl
      · have hmedia' : Terminal.media ∈ accepts machine := by
          simpa [Lexeme.admitted] using hadmitted
        rw [Lexeme.accepts_eq_of_mem hreached (by decide) hmedia'] at ht
        exact absurd ht (by decide)
    | value => exact absurd ht hvalue
    | percentage => exact hkept (h.percentageExtent_le _) fun _ _ => trivial
    | function =>
      by_contra hne
      have hmem := h.mem_of_functionExtent hne
      have hsame : functionExtent (c :: ps ++ q') = functionExtent (c :: ps ++ q) :=
        (functionExtent_append_of_mem hmem).trans (functionExtent_append_of_mem hmem).symm
      exact hne (hsame.trans hzero)
    | group =>
      by_contra hne
      obtain rfl : c = '(' := by
        simpa [Terminal.mayBegin] using
          Terminal.mayBegin_of_extent (t := .group) hne
      rw [Lexeme.accepts_eq_of_mem hreached (by decide) ht] at hnot
      rcases hgroup hbegins with rfl | rfl | rfl | rfl
      · exact hdiffers rfl
      · exact hnot (by decide) rfl
      · exact hnot (by decide) rfl
      · exact hnot (by decide) rfl
    | media =>
      simp only [Lexeme.extent, Terminal.extent, mediaExtent, List.cons_append,
        List.takeWhile_cons] at hzero ⊢
      split_ifs at hzero ⊢
      rfl

/-- What ends a lexeme still ends it after the exchange. -/
theorem ends_exchange (h : SetsOff q q') (hends : l.Ends x (y ++ q))
    (hlast : y = [] → ∃ t, l = .token t ∧ t ≠ .media)
    (hvalue : l = .token .value → pieceExtent (y ++ q') = 0 ∧ nextWordExtent (y ++ q') = 0) :
    l.Ends x (y ++ q') := by
  by_cases hy : y = []
  · subst hy
    obtain ⟨t, rfl, ht⟩ := hlast rfl
    obtain ⟨c, r, rfl, hc⟩ := h.front
    obtain ⟨_, _, heq, hsetter⟩ := h.exists_setter
    obtain ⟨rfl, -⟩ := List.cons.inj heq
    cases t with
    | ident =>
      intro c' hc'
      obtain rfl : c = c' := by simpa using hc'
      rcases hc with hc | ⟨-, hhead⟩
      · have hname : ∀ c, isSeparator c = true → isNameChar c = false :=
          forall_isSeparator (by decide)
        exact hname c hc
      · exact hends c hhead
    | value => exact hvalue rfl
    | comparison =>
      intro _ hhead
      exact (setters_spec c hsetter).2.1 (by simpa using hhead)
    | media => exact absurd rfl ht
    | word | mark | quoted | percentage | function | group => trivial
  · have hhead : (y ++ q').head? = (y ++ q).head? := by
      cases y with
      | nil => exact absurd rfl hy
      | cons c y => rfl
    cases l with
    | separator | lineComment => exact fun c hc => hends c (hhead ▸ hc)
    | blockComment => trivial
    | token t =>
      cases t with
      | ident | media => exact fun c hc => hends c (hhead ▸ hc)
      | value => exact hvalue rfl
      | comparison => exact fun hone => hhead ▸ hends hone
      | word | mark | quoted | percentage | function | group => trivial

/-- The lexeme at the front is found again after the exchange. -/
theorem first?_exchange {n : Nat} (hreached : isReached machine = true) (hx : x.length = n)
    (h : SetsOff q q')
    (hfirst : Lexeme.first? (accepts machine) (x ++ (y ++ q)) = some (l, n))
    (hlast : y = [] → ∃ t, l = .token t ∧ t ≠ .media)
    (hvalue : l = .token .value → pieceExtent (y ++ q') = 0 ∧ nextWordExtent (y ++ q') = 0)
    (hmedia : l = .token .media → blockCommentExtent (x ++ (y ++ q)) = 0 →
      blockCommentExtent (x ++ (y ++ q')) = 0) :
    Lexeme.first? (accepts machine) (x ++ (y ++ q')) = some (l, n) := by
  obtain ⟨l', hchosen, hn, hmade⟩ := Lexeme.exists_chosen_of_first? hfirst
  obtain ⟨-, hadmitted, hfits⟩ := Lexeme.chosen_spec hchosen
  have hxne : x ≠ [] := by
    rintro rfl
    exact hfits (hn.trans hx.symm)
  have hsame : ∀ l'' ≠ Lexeme.token .ident, l' = l'' → l = l'' := by
    rintro l'' hne rfl
    exact (hmade.resolve_right fun hword => hne hword.1).symm
  have hends : l'.Ends x (y ++ q') := by
    refine ends_exchange h (Lexeme.ends_of_extent hxne (hn.trans hx.symm)) (fun hy => ?_)
      fun hl' => hvalue (hsame _ (by simp) hl')
    obtain ⟨t, rfl, ht⟩ := hlast hy
    rcases hmade with rfl | ⟨rfl, -⟩
    · exact ⟨t, rfl, ht⟩
    · exact ⟨.ident, rfl, by simp⟩
  have hextent : l'.extent (x ++ (y ++ q')) = n :=
    (Lexeme.extent_exchange hxne (hn.trans hx.symm) hends).trans hx
  have hagain : Lexeme.chosen (accepts machine) (x ++ (y ++ q')) = some l' := by
    by_cases hmember : Terminal.value ∈ accepts machine
    · have haccepts := Lexeme.accepts_eq_of_mem hreached (by decide) hmember
      by_cases hseparator : l' = .separator
      · subst hseparator
        obtain ⟨c, xs, rfl⟩ := List.exists_cons_of_ne_nil hxne
        exact Lexeme.chosen_of_isSeparator (Lexeme.mayBegin_of_extent hfits)
      · obtain rfl := Lexeme.eq_value_of_chosen haccepts hchosen hseparator
        refine Lexeme.chosen_value haccepts ?_
        have hne : n ≠ 0 := hn ▸ hfits
        exact fun hzero => hne (hextent.symm.trans hzero)
    · obtain ⟨-, before, after, horder, hbefore⟩ := List.find?_eq_some_iff_append.1 hchosen
      refine List.find?_eq_some_iff_append.2 ⟨?_, before, after, horder, fun l'' hl'' => ?_⟩
      · rw [hadmitted, hextent, ← hn, Bool.true_and, bne_iff_ne]
        exact hfits
      · have hfails := hbefore l'' hl''
        cases hadmitted'' : l''.admitted (accepts machine) with
        | false => rfl
        | true =>
          have hzero : l''.extent (x ++ (y ++ q)) = 0 := by
            simpa [hadmitted''] using hfails
          rw [← List.append_assoc] at hzero hchosen ⊢
          have hagain := extent_eq_zero_exchange hreached hmember (by simp [hxne]) h hchosen
            (fun hl' hnone => by
              rw [List.append_assoc] at hnone ⊢
              exact hmedia (hsame _ (by simp) hl') hnone)
            (horder ▸ List.mem_append_left _ hl'') hadmitted'' hzero
          rw [hagain]
          rfl
  rw [← hfirst, Lexeme.first?_eq, Lexeme.first?_eq, hagain, hchosen, Option.map_some,
    Option.map_some, hextent, hn, ← hx, List.take_left, List.take_left]

end Chosen

/-! ## 3. A front and its tokens -/

section Cuts

variable {machine : List Stack} {cs : List Char} {n : Nat} {vs : List Token}

/-- Whatever a text is cut into, ignored text in front is no part of it. -/
theorem Cuts.of_pass {l : Lexeme} (h : Cuts machine cs vs)
    (hfirst : Lexeme.first? (accepts machine) cs = some (l, n)) (hl : ∀ t, l ≠ .token t) :
    Cuts machine (cs.drop n) vs := by
  cases h with
  | done =>
    obtain ⟨hne, hle⟩ := Lexeme.extent_of_first? hfirst
    exact absurd (Nat.le_zero.1 hle) hne
  | pass hfirst' _ hrest =>
    obtain ⟨-, rfl⟩ := Prod.mk.inj (Option.some.inj (hfirst.symm.trans hfirst'))
    exact hrest
  | token hfirst' _ _ =>
    obtain ⟨rfl, -⟩ := Prod.mk.inj (Option.some.inj (hfirst.symm.trans hfirst'))
    exact absurd rfl (hl _)

/-- Whatever a text is cut into begins with the token in front. -/
theorem Cuts.exists_token {t : Terminal} (h : Cuts machine cs vs)
    (hfirst : Lexeme.first? (accepts machine) cs = some (.token t, n)) :
    ∃ v us, vs = v :: us ∧ v.kind = t ∧ v.text = String.ofList (cs.take n) ∧
      Cuts (shift t machine) (cs.drop n) us := by
  cases h with
  | done =>
    obtain ⟨hne, hle⟩ := Lexeme.extent_of_first? hfirst
    exact absurd (Nat.le_zero.1 hle) hne
  | pass hfirst' hl _ =>
    obtain ⟨rfl, -⟩ := Prod.mk.inj (Option.some.inj (hfirst.symm.trans hfirst'))
    exact absurd rfl (hl _)
  | @token _ _ v _ us hfirst' htext hrest =>
    obtain ⟨hkind, rfl⟩ := Prod.mk.inj (Option.some.inj (hfirst.symm.trans hfirst'))
    obtain rfl := Lexeme.token.inj hkind
    exact ⟨v, us, rfl, rfl, htext, hrest⟩

end Cuts

/-- A machine cuts a front, which a rest comes after, into tokens, and another one is left. -/
inductive Leads (q : List Char) : List Stack → List Char → List Token → List Stack → Prop
  /-- The front is over. -/
  | done {machine : List Stack} : Leads q machine [] [] machine
  /-- Ignored text stands in front. -/
  | pass {machine machine' : List Stack} {x y : List Char} {l : Lexeme} {ts : List Token}
      (first : Lexeme.first? (accepts machine) (x ++ (y ++ q)) = some (l, x.length))
      (ignored : ∀ t, l ≠ .token t) (rest : Leads q machine y ts machine') :
      Leads q machine (x ++ y) ts machine'
  /-- A token stands in front. -/
  | token {machine machine' : List Stack} {x y : List Char} {u : Token} {ts : List Token}
      (first : Lexeme.first? (accepts machine) (x ++ (y ++ q)) = some (.token u.kind, x.length))
      (text : u.text = String.ofList x) (rest : Leads q (shift u.kind machine) y ts machine') :
      Leads q machine (x ++ y) (u :: ts) machine'

/-- What comes right after some blanks stops a value. -/
def Halts (cs : List Char) : Prop :=
  stopsValue (cs.dropWhile isBlank) = true ∨ pieceExtent (cs.dropWhile isBlank) = 0

theorem halts_of_stop {cs : List Char} (hpiece : pieceExtent cs = 0)
    (hnext : nextWordExtent cs = 0) : Halts cs := by
  by_cases hblanks : (cs.takeWhile isBlank).length = 0
  · have hnone : cs.dropWhile isBlank = cs := by
      rw [← drop_length_takeWhile, hblanks, List.drop_zero]
    exact .inr (hnone.symm ▸ hpiece)
  · by_contra hhalts
    rw [Halts, not_or, ← wordExtent_eq_zero_iff, Bool.not_eq_true] at hhalts
    rw [nextWordExtent_eq, hhalts.1, if_neg (by simp [hblanks, hhalts.2])] at hnext
    omega

theorem nextWordExtent_of_halts {cs : List Char} (h : Halts cs) : nextWordExtent cs = 0 := by
  rw [nextWordExtent_eq, if_pos]
  rcases h with h | h
  · simp [h]
  · simp [(wordExtent_eq_zero_iff _).2 h]

theorem stopsValue_iff {cs : List Char} : stopsValue cs = true ↔ opensComment cs = true ∨
    ∃ k ∈ clauseWords, k.spelledAt cs ≠ 0 ∧
      (cs.drop (k.spelledAt cs)).head?.any isWord = false := by
  simp [stopsValue, opensComment]

theorem eq_of_opensComment {c : Char} {cs : List Char} (h : opensComment (c :: cs) = true) :
    c = '-' ∨ c = '/' := by
  have h : ('-' = c ∧ ['-'] <+: cs) ∨ ('/' = c ∧ ['*'] <+: cs) := by
    simpa [opensComment, List.isPrefixOf] using h
  exact h.imp (fun hline => hline.1.symm) fun hblock => hblock.1.symm

/-- No word that may follow a value goes on into a word before which values stop. -/
theorem not_prefix_clauseWords : ∀ k ∈ Keyword.byLength, Terminal.word k ∈ valueFollow →
    ∀ k' ∈ clauseWords, k.spelling.toList.length < k'.spelling.toList.length →
      ¬k.spelling.toList.map foldChar <+: k'.spelling.toList.map foldChar := by
  decide +kernel

/-- A word is spelled at the front of a text by its own characters. -/
theorem spelledAt_eq_iff {k : Keyword} {cs : List Char} {n : Nat} (hn : n ≠ 0) :
    k.spelledAt cs = n ↔ n = k.spelling.toList.length ∧
      (cs.take n).map foldChar = k.spelling.toList.map foldChar := by
  have hdef : k.spelledAt cs =
      if (cs.take k.spelling.toList.length).map foldChar = k.spelling.toList.map foldChar
      then k.spelling.toList.length else 0 := by
    rw [Keyword.spelledAt]
    cases k.spelling.toList with
    | nil => simp [spelledLength]
    | cons w ws => rfl
  rw [hdef]
  constructor
  · intro h
    split_ifs at h with hspelled
    · exact ⟨h.symm, h ▸ hspelled⟩
    · exact absurd h.symm hn
  · rintro ⟨rfl, hspelled⟩
    rw [if_pos hspelled]

/-- A value that stops before a word still stops before it, if the word is not made longer. -/
theorem stopsValue_exchange {k : Keyword} {x s s' : List Char} (hx : x ≠ [])
    (hk : Terminal.word k ∈ valueFollow) (hspelled : k.spelledAt (x ++ s) = x.length)
    (hnext : ∀ c ∈ s'.head?, isWord c = true → c ∈ s.head?)
    (h : stopsValue (x ++ s) = true) : stopsValue (x ++ s') = true := by
  have hpos : x.length ≠ 0 := mt List.length_eq_zero_iff.1 hx
  obtain ⟨hlength, hfold⟩ := (spelledAt_eq_iff hpos).1 hspelled
  rw [List.take_left] at hfold
  rw [stopsValue_iff] at h ⊢
  rcases h with hcomment | ⟨k', hk', hspelled', hends⟩
  · exfalso
    obtain ⟨c, xs, rfl⟩ := List.exists_cons_of_ne_nil hx
    have hsetter : c ∉ setters := fun hc =>
      k.not_mem_spelling (setters_spec c hc).2.2.2.2.2.2.1 (hfold ▸ List.mem_cons_self)
    rcases eq_of_opensComment hcomment with rfl | rfl
    · exact hsetter (by decide)
    · exact hsetter (by decide)
  · obtain ⟨hlength', hfold'⟩ := (spelledAt_eq_iff hspelled').1 rfl
    have hle : k'.spelledAt (x ++ s) ≤ x.length := by
      by_contra hlong
      refine not_prefix_clauseWords k k.mem_byLength hk k' hk' (by omega) ?_
      rw [← hfold, ← hfold']
      refine List.IsPrefix.map foldChar ?_
      rw [List.take_append, List.take_of_length_le (by omega)]
      exact List.prefix_append _ _
    right
    have hsame : k'.spelledAt (x ++ s') = k'.spelledAt (x ++ s) := by
      refine (spelledAt_eq_iff hspelled').2 ⟨hlength', ?_⟩
      rw [← hfold', List.take_append_of_le_length hle, List.take_append_of_le_length hle]
    refine ⟨k', hk', hsame ▸ hspelled', ?_⟩
    rw [hsame]
    rw [List.drop_append_of_le_length hle] at hends ⊢
    cases hdrop : x.drop (k'.spelledAt (x ++ s)) with
    | cons c cs => rwa [hdrop] at hends
    | nil =>
      rw [hdrop, List.nil_append] at hends
      rw [List.nil_append]
      cases s' with
      | nil => rfl
      | cons c s' =>
        by_contra hword
        have hword : isWord c = true := by simpa using hword
        have hmem := hnext c rfl hword
        rw [Option.mem_def] at hmem
        simp [hmem, hword] at hends

/-- What opens nothing begins no piece because of what comes after it. -/
theorem pieceExtent_eq_zero_of_head {c : Char} {s s' : List Char} (hc : opens c = false)
    (h : pieceExtent (c :: s) = 0) : pieceExtent (c :: s') = 0 := by
  simp only [opens, Bool.or_eq_false_iff, beq_eq_false_iff_ne] at hc
  simpa [pieceExtent, hc.1.1, hc.1.2, hc.2] using h

/-- What stops a value before a token that may follow it. -/
theorem halts_exchange_token {machine : List Stack} {x s s' : List Char} {t : Terminal}
    (hsub : ∀ t ∈ accepts machine, t ∈ valueFollow)
    (hfirst : Lexeme.first? (accepts machine) (x ++ s) = some (.token t, x.length))
    (hnext : ∀ c ∈ s'.head?, isWord c = true → c ∈ s.head?) (h : Halts (x ++ s)) :
    Halts (x ++ s') := by
  obtain ⟨l, hchosen, hn, hmade⟩ := Lexeme.exists_chosen_of_first? hfirst
  obtain ⟨-, hadmitted, hfits⟩ := Lexeme.chosen_spec hchosen
  have hkinds : valueFollow.all (fun
      | .word _ => true
      | .mark c => endsWord c
      | _ => false) = true := by
    decide +kernel
  obtain rfl : l = .token t := by
    refine hmade.resolve_right fun hword => ?_
    obtain ⟨rfl, -⟩ := hword
    have hident := List.all_eq_true.1 hkinds .ident
      (hsub _ (by simpa [Lexeme.admitted] using hadmitted))
    simp at hident
  have ht : t ∈ valueFollow := hsub t (by simpa [Lexeme.admitted] using hadmitted)
  have hx : x ≠ [] := by
    rintro rfl
    exact hfits hn
  obtain ⟨c, xs, rfl⟩ := List.exists_cons_of_ne_nil hx
  obtain ⟨hblank, hopens⟩ := not_opens_of_mem_valueFollow ht (Terminal.mayBegin_of_extent hfits)
  have hrest : ∀ s, (c :: xs ++ s).dropWhile isBlank = c :: xs ++ s := fun s =>
    List.dropWhile_cons_of_neg (by simp [hblank])
  rw [Halts, hrest] at h ⊢
  rcases h with hstops | hzero
  · cases t with
    | word k =>
      exact .inl (stopsValue_exchange hx ht hn hnext hstops)
    | mark m =>
      have hends : endsWord m = true := List.all_eq_true.1 hkinds _ ht
      obtain rfl : c = m := by
        simpa [Terminal.mayBegin] using
          Terminal.mayBegin_of_extent (t := .mark m) hfits
      simp only [opens, Bool.or_eq_false_iff, beq_eq_false_iff_ne] at hopens
      exact .inr (by simp [pieceExtent, hopens.1.1, hopens.1.2, hopens.2, hends])
    | _ =>
      have hnot := List.all_eq_true.1 hkinds _ ht
      simp at hnot
  · exact .inr (pieceExtent_eq_zero_of_head hopens hzero)

theorem dropWhile_append_of_separators {x cs : List Char} (hx : ∀ c ∈ x, isSeparator c = true) :
    (x ++ cs).dropWhile isBlank = cs.dropWhile isBlank :=
  List.dropWhile_append_of_pos fun c hc => isBlank_of_isSeparator (hx c hc)

/-- Only a name is taken for a word, so what is found alone is what fits. -/
theorem extent_of_first?_alone {accept : List Terminal} {x s : List Char} {t : Terminal}
    (ht : t ∈ alone) (h : Lexeme.first? accept (x ++ s) = some (.token t, x.length)) :
    x ≠ [] ∧ t.extent (x ++ s) = x.length := by
  obtain ⟨l, hchosen, hn, hmade⟩ := Lexeme.exists_chosen_of_first? h
  obtain rfl : l = .token t := by
    refine hmade.resolve_right ?_
    rintro ⟨-, k, hk, -⟩
    obtain rfl := Lexeme.token.inj hk
    simp [alone] at ht
  refine ⟨?_, hn⟩
  rintro rfl
  exact (Lexeme.chosen_spec hchosen).2.2 hn

/-- No piece begins after the exchange where none began before it. -/
theorem SetsOff.pieceExtent_eq_zero {q q' : List Char} (h : SetsOff q q')
    (hq : pieceExtent q = 0) : pieceExtent q' = 0 := by
  obtain ⟨c, r, rfl, hc⟩ := h.front
  rcases hc with hc | ⟨hc, hhead⟩
  · exact pieceExtent_of_isBlank (isBlank_of_isSeparator hc)
  · obtain ⟨rest, rfl⟩ := List.head?_eq_some_iff.1 hhead
    refine pieceExtent_eq_zero_of_head ?_ hq
    rcases hc with rfl | rfl <;> rfl

/-- What may follow a value opens nothing. -/
theorem not_opens_of_first? {accept : List Terminal} {c : Char} {s : List Char} {l : Lexeme}
    {n : Nat} (hsub : ∀ t ∈ accept, t ∈ valueFollow) (h : Lexeme.first? accept (c :: s) = some (l, n)) :
    opens c = false := by
  obtain ⟨l', hchosen, -, -⟩ := Lexeme.exists_chosen_of_first? h
  obtain ⟨-, hadmitted, hfits⟩ := Lexeme.chosen_spec hchosen
  have hbegins : l'.mayBegin c = true := Lexeme.mayBegin_of_extent hfits
  cases l' with
  | separator =>
    have hopens : ∀ c, isSeparator c = true → opens c = false := forall_isSeparator (by decide)
    exact hopens c hbegins
  | lineComment =>
    obtain rfl : c = '-' := by simpa [Lexeme.mayBegin] using hbegins
    rfl
  | blockComment =>
    obtain rfl : c = '/' := by simpa [Lexeme.mayBegin] using hbegins
    rfl
  | token t =>
    exact (not_opens_of_mem_valueFollow (hsub t (by simpa [Lexeme.admitted] using hadmitted))
      hbegins).2

/-- A media query is not taken for a comment if it does not begin like one, or if no comment is
closed. -/
theorem blockCommentExtent_exchange {x y q q' : List Char} (hy : y ≠ []) (hx : x ≠ [])
    (hmedia : mediaExtent (x ++ (y ++ q)) = x.length)
    (hclosed : ¬['/', '*'] <+: x ∨
      ∀ p, blockCommentRest (p ++ q) = none → blockCommentRest (p ++ q') = none)
    (hzero : blockCommentExtent (x ++ (y ++ q)) = 0) :
    blockCommentExtent (x ++ (y ++ q')) = 0 := by
  by_contra hne
  obtain ⟨ds, hds⟩ := exists_of_blockCommentExtent hne
  obtain ⟨c, xs, rfl⟩ := List.exists_cons_of_ne_nil hx
  obtain ⟨d, ys, rfl⟩ := List.exists_cons_of_ne_nil hy
  have hends : d = ';' := by
    have := (takeWhile_eq_of_length hmedia).2 d rfl
    simpa using this
  cases xs with
  | nil =>
    simp only [List.cons_append, List.nil_append, List.cons.injEq] at hds
    rw [hends] at hds
    exact absurd hds.2.1 (by decide)
  | cons e xs =>
    simp only [List.cons_append, List.cons.injEq] at hds
    obtain ⟨rfl, rfl, -⟩ := hds
    rcases hclosed with hopen | hclosed
    · exact hopen ⟨xs, rfl⟩
    · have hnone : blockCommentRest (xs ++ d :: ys ++ q) = none := by
        rw [List.append_assoc]
        by_contra hsome
        obtain ⟨n, hn⟩ := Option.ne_none_iff_exists'.1 hsome
        simp only [List.cons_append, blockCommentExtent] at hzero hn
        simp [hn] at hzero
      have hnone' := hclosed _ hnone
      rw [List.append_assoc] at hnone'
      simp only [List.cons_append, blockCommentExtent] at hne hnone'
      simp [hnone'] at hne

namespace Leads

variable {x q q' : List Char} {machine machine' : List Stack} {y : List Char} {ts : List Token}
  {t : Terminal}

section Exchange

variable (hoff : SetsOff q q')
  (hfirst : Lexeme.first? (accepts machine') (x ++ q) = some (.token t, x.length))

include hoff hfirst

/-- What stops a value before a front that may follow it stops it after the exchange. -/
theorem halts (h : Leads (x ++ q) machine y ts machine')
    (hsub : ∀ t ∈ accepts machine, t ∈ valueFollow) (hold : Halts (y ++ (x ++ q))) :
    Halts (y ++ (x ++ q')) := by
  have hx : x ≠ [] := fun hnil => (Lexeme.extent_of_first? hfirst).1 (by rw [hnil]; rfl)
  induction h with
  | done =>
    rw [List.nil_append] at hold ⊢
    refine halts_exchange_token hsub hfirst (fun c hc hword => ?_) hold
    obtain ⟨e, r, rfl, he⟩ := hoff.exists_setter
    obtain rfl : e = c := by simpa using hc
    simp [(setters_spec e he).1] at hword
  | @token machine machine' x' y u ts hfront htext hrest ih =>
    rw [List.append_assoc] at hold ⊢
    refine halts_exchange_token hsub hfront (fun c hc _ => ?_) hold
    rw [← List.append_assoc] at hc ⊢
    obtain ⟨d, ds, hd⟩ := List.exists_cons_of_ne_nil (List.append_ne_nil_of_right_ne_nil y hx)
    rw [hd] at hc ⊢
    exact hc
  | @pass machine machine' x' y l ts hfront hl hrest ih =>
    obtain ⟨l', hchosen, hn, hmade⟩ := Lexeme.exists_chosen_of_first? hfront
    obtain rfl : l' = l := hmade.resolve_right fun hword => hl _ hword.2.choose_spec.1
    have hfits := (Lexeme.chosen_spec hchosen).2.2
    have hx' : x' ≠ [] := fun hnil => hfits (hn.trans (by rw [hnil]; rfl))
    rw [List.append_assoc] at hold ⊢
    cases l' with
    | separator =>
      have hall : ∀ c ∈ x', isSeparator c = true := (takeWhile_eq_of_length hn).1
      rw [Halts, dropWhile_append_of_separators hall] at hold ⊢
      exact ih hfirst hsub hold
    | lineComment =>
      obtain ⟨body, rfl, -⟩ := exists_of_lineCommentExtent_append hx' hn
      exact .inl rfl
    | blockComment =>
      have hown := blockCommentExtent_shrink hx' hn
      obtain ⟨body, rfl⟩ := exists_of_blockCommentExtent
        (hown ▸ mt List.length_eq_zero_iff.1 hx')
      exact .inl rfl
    | token t => exact absurd rfl (hl t)

/-- A value stops where it stopped before the exchange. -/
theorem stops (h : Leads (x ++ q) machine y ts machine')
    (hsub : ∀ t ∈ accepts machine, t ∈ valueFollow) (hpiece : pieceExtent (y ++ (x ++ q)) = 0)
    (hnext : nextWordExtent (y ++ (x ++ q)) = 0) :
    pieceExtent (y ++ (x ++ q')) = 0 ∧ nextWordExtent (y ++ (x ++ q')) = 0 := by
  refine ⟨?_, nextWordExtent_of_halts (h.halts hoff hfirst hsub (halts_of_stop hpiece hnext))⟩
  have hx : x ≠ [] := fun hnil => (Lexeme.extent_of_first? hfirst).1 (by rw [hnil]; rfl)
  obtain ⟨c, cs, hc⟩ := List.exists_cons_of_ne_nil (List.append_ne_nil_of_right_ne_nil y hx)
  have hopens : opens c = false := by
    have hfront : ∃ l n, Lexeme.first? (accepts machine) (c :: (cs ++ q)) = some (l, n) := by
      rw [← List.cons_append, ← hc, List.append_assoc]
      cases h with
      | done => exact ⟨_, _, hfirst⟩
      | pass hfront _ _ | token hfront _ _ =>
        rw [List.append_assoc]
        exact ⟨_, _, hfront⟩
    obtain ⟨l, n, hfront⟩ := hfront
    exact not_opens_of_first? hsub hfront
  rw [← List.append_assoc, hc] at hpiece ⊢
  exact pieceExtent_eq_zero_of_head hopens hpiece

/-- A front that a token comes after is cut into the same tokens after the exchange, if no comment
that it leaves open is closed. -/
theorem exchange (h : Leads (x ++ q) machine y ts machine') (hreached : isReached machine = true)
    (hclosed : (∀ t ∈ ts, t.kind = .media → ¬['/', '*'] <+: t.text.toList) ∨
      ∀ p, blockCommentRest (p ++ q) = none → blockCommentRest (p ++ q') = none) :
    Leads (x ++ q') machine y ts machine' := by
  have hx : x ≠ [] := fun hnil => (Lexeme.extent_of_first? hfirst).1 (by rw [hnil]; rfl)
  have hne : ∀ y, y ++ x ≠ [] := fun y => List.append_ne_nil_of_right_ne_nil y hx
  induction h with
  | done => exact .done
  | @pass machine machine' x' y l ts hfront hl hrest ih =>
    refine .pass ?_ hl (ih hfirst hreached hclosed)
    rw [← List.append_assoc y] at hfront ⊢
    exact first?_exchange hreached rfl hoff hfront (fun hnil => absurd hnil (hne y))
      (fun hvalue => absurd hvalue (hl _)) fun hmedia => absurd hmedia (hl _)
  | @token machine machine' x' y u ts hfront htext hrest ih =>
    refine .token ?_ htext (ih hfirst (isReached_shift hreached u.kind)
      (hclosed.imp_left fun hopen t ht => hopen t (List.mem_cons_of_mem u ht)))
    rw [← List.append_assoc y] at hfront ⊢
    refine first?_exchange hreached rfl hoff hfront (fun hnil => absurd hnil (hne y))
      (fun hvalue => ?_) fun hmedia hnone => ?_
    · rw [Lexeme.token.inj hvalue] at hfront hrest
      obtain ⟨hx', hn⟩ := extent_of_first?_alone (by decide) hfront
      have hends : pieceExtent (y ++ x ++ q) = 0 ∧ nextWordExtent (y ++ x ++ q) = 0 :=
        Terminal.ends_of_extent (t := .value) hx' hn
      rw [List.append_assoc] at hends ⊢
      exact hrest.stops hoff hfirst (mem_valueFollow hreached) hends.1 hends.2
    · rw [Lexeme.token.inj hmedia] at hfront
      obtain ⟨hx', hn⟩ := extent_of_first?_alone (by decide) hfront
      refine blockCommentExtent_exchange (hne y) hx' hn (hclosed.imp_left fun hopen => ?_) hnone
      have := hopen u List.mem_cons_self (Lexeme.token.inj hmedia)
      rwa [htext, String.toList_ofList] at this

end Exchange

/-! ## 4. The rest -/

/-- The tokens of a text are those of its front and those of its rest. -/
theorem cuts {us : List Token} (h : Leads q machine y ts machine') (hrest : Cuts machine' q us) :
    Cuts machine (y ++ q) (ts ++ us) := by
  induction h with
  | done => exact hrest
  | @pass machine machine' x y l ts hfirst hl _ ih =>
    rw [List.append_assoc]
    refine .pass hfirst hl ?_
    rw [List.drop_left]
    exact ih hrest
  | @token machine machine' x y u ts hfirst htext _ ih =>
    rw [List.append_assoc]
    refine .token hfirst ?_ ?_
    · rw [List.take_left]
      exact htext
    · rw [List.drop_left]
      exact ih hrest

/-- Whatever a text is cut into, the tokens of its front come first. -/
theorem exists_rest {vs : List Token} (h : Leads q machine y ts machine')
    (hcuts : Cuts machine (y ++ q) vs) : ∃ us, Cuts machine' q us ∧
      vs.map Token.unplaced = ts.map Token.unplaced ++ us.map Token.unplaced := by
  induction h generalizing vs with
  | done => exact ⟨vs, hcuts, rfl⟩
  | @pass machine machine' x y l ts hfirst hl _ ih =>
    rw [List.append_assoc] at hcuts
    have hrest := hcuts.of_pass hfirst hl
    rw [List.drop_left] at hrest
    exact ih hrest
  | @token machine machine' x y u ts hfirst htext _ ih =>
    rw [List.append_assoc] at hcuts
    obtain ⟨v, vs', rfl, hkind, htext', hrest⟩ := hcuts.exists_token hfirst
    rw [List.take_left] at htext'
    rw [List.drop_left] at hrest
    obtain ⟨us, hus, hall⟩ := ih hrest
    refine ⟨us, hus, ?_⟩
    have hsame : v.unplaced = u.unplaced := by
      simp only [Token.unplaced, hkind, htext', htext]
    simp [hsame, hall]

end Leads

end StyleLedger.Source
