import StyleLedger.Source.Lexeme
import Mathlib.Data.List.TakeWhile

/-!
How far lexemes reach when more text comes after them.

A lexeme that is found in a text has its end there, so it reaches as far when more comes after the
text. Only what goes on until something stops it might go on into what comes after. A line feed
stops words and names, a semicolon also media queries and the blanks before a bracket, and a value
stops where no further word of it can begin, if what stands there is not an open quote or bracket
that is closed further on.

* `extent_le_length` — a lexeme reaches no further than its text.
* `quotedExtent_append`, `groupExtent_append`, `blockCommentExtent_append` — lexemes with an end of
  their own.
* `valueExtent_append` — values.
-/

namespace StyleLedger.Source

open Text

variable {cs d x : List Char}

/-! ## 1. The front of a text -/

theorem length_takeWhile_le (p : Char → Bool) (cs : List Char) :
    (cs.takeWhile p).length ≤ cs.length :=
  (List.takeWhile_prefix p).length_le

theorem drop_length_takeWhile (p : Char → Bool) (cs : List Char) :
    cs.drop (cs.takeWhile p).length = cs.dropWhile p := by
  have hsplit := List.takeWhile_append_dropWhile (p := p) (l := cs)
  exact List.append_cancel_left ((List.prefix_iff_eq_append.1 (List.takeWhile_prefix p)).trans
    hsplit.symm)

theorem takeWhile_append_of_mem {p : Char → Bool} {c : Char} (hc : c ∈ cs) (hp : p c = false) :
    (cs ++ x).takeWhile p = cs.takeWhile p := by
  rw [List.takeWhile_append, if_neg]
  intro hlength
  have heq := (List.takeWhile_prefix p (l := cs)).eq_of_length hlength
  rw [← heq] at hc
  simp [List.mem_takeWhile_imp hc] at hp

/-- A line feed that does not belong to a run ends it. -/
theorem takeWhile_append_feed {p : Char → Bool} (hp : p '\n' = false) :
    (cs ++ '\n' :: d).takeWhile p = cs.takeWhile p := by
  rw [List.takeWhile_append]
  split
  · next hlength =>
    rw [List.takeWhile_cons, hp, (List.takeWhile_prefix p (l := cs)).eq_of_length hlength]
    simp
  · rfl

/-- A text without line feeds does not begin in one text and end in the next line. -/
theorem isPrefixOf_append_feed {w : List Char} (hw : '\n' ∉ w) :
    w.isPrefixOf (cs ++ '\n' :: d) = w.isPrefixOf cs := by
  induction w generalizing cs with
  | nil => simp
  | cons c w ih =>
    obtain ⟨hc, hw⟩ := not_or.1 (mt List.mem_cons.2 hw)
    cases cs with
    | nil => simpa [List.isPrefixOf] using fun h => absurd h.symm hc
    | cons c' cs => simp [List.isPrefixOf, ih hw]

theorem spelledLength_le_length (word cs : List Char) : spelledLength word cs ≤ cs.length := by
  cases word with
  | nil => simp [spelledLength]
  | cons w ws =>
    simp only [spelledLength]
    split
    · next h =>
      have := congrArg List.length h
      simp at this ⊢
      omega
    · exact Nat.zero_le _

theorem spelledLength_append_feed {word : List Char} (hw : '\n' ∉ word.map foldChar) :
    spelledLength word (cs ++ '\n' :: d) = spelledLength word cs := by
  cases word with
  | nil => rfl
  | cons w ws =>
    simp only [spelledLength]
    rcases Nat.lt_or_ge cs.length (ws.length + 1) with hlt | hle
    · have hshort : ¬(cs.take (w :: ws).length).map foldChar = (w :: ws).map foldChar := by
        intro h
        have := congrArg List.length h
        simp at this
        omega
      have hfeed : ¬((cs ++ '\n' :: d).take (w :: ws).length).map foldChar =
          (w :: ws).map foldChar := by
        intro h
        refine hw (h ▸ List.mem_map.2 ⟨'\n', ?_, by decide⟩)
        rw [List.take_append]
        refine List.mem_append_right _ ?_
        obtain ⟨n, hn⟩ := Nat.exists_eq_add_of_lt hlt
        have hmore : (w :: ws).length - cs.length = n + 1 := by
          simp only [List.length_cons]
          omega
        rw [hmore]
        exact List.mem_cons_self
      rw [if_neg hshort, if_neg hfeed]
    · rw [List.take_append_of_le_length (by simpa using hle)]

/-- The characters of reserved words, in small letters. -/
def isSpelled (c : Char) : Bool :=
  isAsciiLetter c || c == '_'

theorem Keyword.not_mem_spelling {c : Char} (h : isSpelled c = false) (k : Keyword) :
    c ∉ k.spelling.toList.map foldChar := by
  have hall : (k.spelling.toList.map foldChar).all isSpelled = true := by
    cases k <;> decide
  intro hc
  rw [List.all_eq_true.1 hall c hc] at h
  cases h

theorem spelledAt_append_feed (k : Keyword) : k.spelledAt (cs ++ '\n' :: d) = k.spelledAt cs :=
  spelledLength_append_feed (k.not_mem_spelling rfl)

/-! ## 2. Lexemes with an end of their own -/

theorem quotedRest_append {quote : Char} : ∀ {cs : List Char} {n : Nat},
    quotedRest quote cs = some n → n ≤ cs.length ∧ quotedRest quote (cs ++ x) = some n
  | [], _, h => by simp [quotedRest] at h
  | [c], n, h => by
    obtain ⟨hc, rfl⟩ : c = quote ∧ 1 = n := by simpa [quotedRest] using h
    cases x <;> simp [quotedRest, hc]
  | c :: d :: cs, n, h => by
    simp only [List.cons_append, quotedRest] at h ⊢
    split_ifs at h ⊢
    · exact ⟨Option.some.inj h ▸ Nat.succ_pos _, h⟩
    · obtain ⟨m, hm, rfl⟩ := Option.map_eq_some_iff.1 h
      obtain ⟨hle, happend⟩ := quotedRest_append hm
      exact ⟨by simpa using hle, by rw [happend]; rfl⟩
    · obtain ⟨m, hm, rfl⟩ := Option.map_eq_some_iff.1 h
      obtain ⟨hle, happend⟩ := quotedRest_append hm
      exact ⟨by simpa using hle, by rw [← List.cons_append, happend]; rfl⟩

theorem groupRest_append : ∀ {cs : List Char} {depth n : Nat},
    groupRest depth cs = some n → n ≤ cs.length ∧ groupRest depth (cs ++ x) = some n
  | [], _, _, h => by simp [groupRest] at h
  | c :: cs, depth, n, h => by
    have hmap : ∀ {inner : Nat}, (groupRest inner cs).map (· + 1) = some n →
        n ≤ (c :: cs).length ∧ (groupRest inner (cs ++ x)).map (· + 1) = some n := by
      intro inner hinner
      obtain ⟨m, hm, rfl⟩ := Option.map_eq_some_iff.1 hinner
      obtain ⟨hle, happend⟩ := groupRest_append hm
      exact ⟨by simpa using hle, by rw [happend]; rfl⟩
    simp only [List.cons_append, groupRest] at h ⊢
    split_ifs at h ⊢
    · exact hmap h
    · exact ⟨Option.some.inj h ▸ Nat.succ_pos _, h⟩
    · exact hmap h
    · exact hmap h

theorem blockCommentRest_append : ∀ {cs : List Char} {n : Nat},
    blockCommentRest cs = some n → n ≤ cs.length ∧ blockCommentRest (cs ++ x) = some n
  | [], _, h => by simp [blockCommentRest] at h
  | [_], _, h => by simp [blockCommentRest] at h
  | c :: d :: cs, n, h => by
    simp only [List.cons_append, blockCommentRest] at h ⊢
    split_ifs at h ⊢
    · exact ⟨by simp [← Option.some.inj h], h⟩
    · obtain ⟨m, hm, rfl⟩ := Option.map_eq_some_iff.1 h
      obtain ⟨hle, happend⟩ := blockCommentRest_append hm
      exact ⟨by simpa using hle, by rw [← List.cons_append, happend]; rfl⟩

theorem quotedExtent_append (h : quotedExtent cs ≠ 0) :
    quotedExtent cs ≤ cs.length ∧ quotedExtent (cs ++ x) = quotedExtent cs := by
  cases cs with
  | nil => simp [quotedExtent] at h
  | cons c cs =>
    simp only [List.cons_append, quotedExtent] at h ⊢
    split_ifs at h ⊢
    · cases hrest : quotedRest c cs with
      | none => simp [hrest] at h
      | some n =>
        obtain ⟨hle, happend⟩ := quotedRest_append (x := x) hrest
        simpa [happend] using hle
    · exact absurd rfl h

theorem groupExtent_append (h : groupExtent cs ≠ 0) :
    groupExtent cs ≤ cs.length ∧ groupExtent (cs ++ x) = groupExtent cs := by
  cases cs with
  | nil => simp [groupExtent] at h
  | cons c cs =>
    simp only [List.cons_append, groupExtent] at h ⊢
    split_ifs at h ⊢
    · cases hrest : groupRest 1 cs with
      | none => simp [hrest] at h
      | some n =>
        obtain ⟨hle, happend⟩ := groupRest_append (x := x) hrest
        simpa [happend] using hle
    · exact absurd rfl h

theorem exists_of_blockCommentExtent (h : blockCommentExtent cs ≠ 0) :
    ∃ ds, cs = '/' :: '*' :: ds := by
  unfold blockCommentExtent at h
  split at h
  · exact ⟨_, rfl⟩
  · exact absurd rfl h

theorem blockCommentExtent_append (h : blockCommentExtent cs ≠ 0) :
    blockCommentExtent cs ≤ cs.length ∧
      blockCommentExtent (cs ++ x) = blockCommentExtent cs := by
  obtain ⟨ds, rfl⟩ := exists_of_blockCommentExtent h
  simp only [List.cons_append, blockCommentExtent] at h ⊢
  cases hrest : blockCommentRest ds with
  | none => simp [hrest] at h
  | some n =>
    obtain ⟨hle, happend⟩ := blockCommentRest_append (x := x) hrest
    simpa [happend] using hle

theorem infix_of_blockCommentRest : ∀ {cs : List Char}, blockCommentRest cs ≠ none →
    ['*', '/'] <:+: cs
  | [], h | [_], h => absurd rfl h
  | c :: d :: cs, h => by
    simp only [blockCommentRest] at h
    split_ifs at h with hend
    · obtain ⟨rfl, rfl⟩ : c = '*' ∧ d = '/' := by simpa using hend
      exact ⟨[], cs, rfl⟩
    · exact (infix_of_blockCommentRest (by simpa using h)).trans (List.suffix_cons c _).isInfix

/-- A comment that is not closed in its own text stays open if nothing closes it later. -/
theorem blockCommentRest_append_feed (hd : blockCommentRest d = none) : ∀ {cs : List Char},
    blockCommentRest cs = none → blockCommentRest (cs ++ '\n' :: d) = none
  | [], _ => by
    cases d with
    | nil => rfl
    | cons e d => simpa [blockCommentRest] using hd
  | [c], _ => by
    have hline : blockCommentRest ([] ++ '\n' :: d) = none := blockCommentRest_append_feed hd rfl
    simpa [blockCommentRest] using hline
  | c :: e :: cs, h => by
    simp only [List.cons_append, blockCommentRest] at h ⊢
    split_ifs at h ⊢
    rw [← List.cons_append, blockCommentRest_append_feed hd (by simpa using h)]
    rfl

theorem pieceExtent_append (h : pieceExtent cs ≠ 0) :
    pieceExtent cs ≤ cs.length ∧ pieceExtent (cs ++ x) = pieceExtent cs := by
  cases cs with
  | nil => simp [pieceExtent] at h
  | cons c cs =>
    simp only [List.cons_append, pieceExtent] at h ⊢
    split_ifs at h ⊢
    · exact quotedExtent_append h
    · exact groupExtent_append h
    · exact absurd rfl h
    · simp

/-! ## 3. Pieces one right after another -/

theorem coveredFrom_eq (shape : List Char → Nat) : ∀ {n : Nat} {cs : List Char}, n ≤ cs.length →
    coveredFrom shape n cs = n + covered shape (cs.drop n)
  | 0, cs, _ => by simp [covered]
  | n + 1, c :: cs, h => by
    rw [coveredFrom, coveredFrom_eq shape (Nat.le_of_succ_le_succ h), List.drop_succ_cons]
    omega

theorem covered_of_eq_zero {shape : List Char → Nat} (h : shape cs = 0) : covered shape cs = 0 := by
  cases cs with
  | nil => rfl
  | cons c cs => simp [covered, coveredFrom, h]

section Covered

variable {shape : List Char → Nat} (hle : ∀ s, shape s ≤ s.length)

include hle

theorem covered_of_ne_zero (h : shape cs ≠ 0) :
    covered shape cs = shape cs + covered shape (cs.drop (shape cs)) := by
  have hlength := hle cs
  cases cs with
  | nil => exact absurd (Nat.le_zero.1 hlength) h
  | cons c cs =>
    obtain ⟨n, hn⟩ := Nat.exists_eq_succ_of_ne_zero h
    rw [hn] at hlength ⊢
    rw [covered, coveredFrom, hn]
    simp only
    rw [coveredFrom_eq shape (Nat.le_of_succ_le_succ hlength), List.drop_succ_cons]
    omega

/-- A property of texts that holds where no piece begins, and before a piece if it holds after
it. -/
theorem covered_induction {motive : List Char → Prop} (stop : ∀ s, shape s = 0 → motive s)
    (step : ∀ s, shape s ≠ 0 → motive (s.drop (shape s)) → motive s) (cs : List Char) :
    motive cs := by
  by_cases h : shape cs = 0
  · exact stop cs h
  · have hshorter : (cs.drop (shape cs)).length < cs.length := by
      have := hle cs
      rw [List.length_drop]
      omega
    exact step cs h (covered_induction stop step (cs.drop (shape cs)))
termination_by cs.length

theorem covered_le_length (cs : List Char) : covered shape cs ≤ cs.length := by
  induction cs using covered_induction hle with
  | stop s h => simp [covered_of_eq_zero h]
  | step s h ih =>
    have := hle s
    rw [covered_of_ne_zero hle h]
    rw [List.length_drop] at ih
    omega

/-- No piece begins where the last one ends. -/
theorem shape_drop_covered (cs : List Char) : shape (cs.drop (covered shape cs)) = 0 := by
  induction cs using covered_induction hle with
  | stop s h => simpa [covered_of_eq_zero h] using h
  | step s h ih => rwa [covered_of_ne_zero hle h, ← List.drop_drop]

/-- What holds after every piece holds where the last one ends. -/
theorem drop_covered {Q : List Char → Prop} (hQ : ∀ s, shape s ≠ 0 → Q (s.drop (shape s)))
    (h : Q cs) : Q (cs.drop (covered shape cs)) := by
  induction cs using covered_induction hle with
  | stop s hs => simpa [covered_of_eq_zero hs] using h
  | step s hs ih =>
    rw [covered_of_ne_zero hle hs, ← List.drop_drop]
    exact ih (hQ s hs)

/-- Pieces that stay as they are when more text comes after them cover as much then, if no further
piece begins where they end. A piece may ask for something where it ends (`P`), which holds wherever
a piece begins. -/
theorem covered_append {P : List Char → Prop}
    (hstep : ∀ s, shape s ≠ 0 → P (s.drop (shape s)) → shape (s ++ x) = shape s)
    (hP : ∀ s, shape s ≠ 0 → P s) (hend : P (cs.drop (covered shape cs)))
    (hstop : shape (cs.drop (covered shape cs) ++ x) = 0) :
    covered shape (cs ++ x) = covered shape cs := by
  induction cs using covered_induction hle with
  | stop s h =>
    rw [covered_of_eq_zero h, List.drop_zero] at hstop
    rw [covered_of_eq_zero h, covered_of_eq_zero hstop]
  | step s h ih =>
    rw [covered_of_ne_zero hle h, ← List.drop_drop] at hend hstop
    have hnext : P (s.drop (shape s)) := by
      by_cases hlast : shape (s.drop (shape s)) = 0
      · rwa [covered_of_eq_zero hlast, List.drop_zero] at hend
      · exact hP _ hlast
    have hsame := hstep s h hnext
    rw [covered_of_ne_zero hle (hsame ▸ h), hsame, List.drop_append_of_le_length (hle s),
      ih hend hstop, covered_of_ne_zero hle h]

end Covered

/-! ## 4. Values -/

/-- The characters that open a quoted text or a group. -/
def opens (c : Char) : Bool :=
  c == '\'' || c == '"' || c == '('

theorem pieceExtent_le_length (cs : List Char) : pieceExtent cs ≤ cs.length := by
  by_cases h : pieceExtent cs = 0
  · simp [h]
  · exact (pieceExtent_append (x := []) h).1

/-- A word stays as it is if no piece begins where it ends. -/
theorem wordExtent_append (h : pieceExtent (cs.drop (wordExtent cs) ++ x) = 0) :
    wordExtent (cs ++ x) = wordExtent cs :=
  covered_append pieceExtent_le_length (P := fun _ => True)
    (fun _ hs _ => (pieceExtent_append hs).2) (fun _ _ => trivial) trivial h

/-- What is not an opening quote or bracket does not begin a piece because of what comes later. -/
theorem pieceExtent_append_eq_zero {c : Char} (hc : opens c = false)
    (h : pieceExtent (c :: cs) = 0) : pieceExtent (c :: cs ++ x) = 0 := by
  simp only [opens, Bool.or_eq_false_iff, beq_eq_false_iff_ne] at hc
  simpa [pieceExtent, hc.1.1, hc.1.2, hc.2] using h

theorem nextWordExtent_eq (cs : List Char) : nextWordExtent cs =
    if (cs.takeWhile isBlank).length = 0 || stopsValue (cs.dropWhile isBlank) ||
      wordExtent (cs.dropWhile isBlank) = 0 then 0
    else (cs.takeWhile isBlank).length + wordExtent (cs.dropWhile isBlank) := by
  simp only [nextWordExtent, drop_length_takeWhile]

/-- A further word begins with blanks, and a word that may stand there comes after them. -/
theorem nextWordExtent_cases (h : nextWordExtent cs ≠ 0) :
    (cs.takeWhile isBlank).length ≠ 0 ∧ stopsValue (cs.dropWhile isBlank) = false ∧
      wordExtent (cs.dropWhile isBlank) ≠ 0 ∧
      cs.drop (nextWordExtent cs) =
        (cs.dropWhile isBlank).drop (wordExtent (cs.dropWhile isBlank)) := by
  rw [nextWordExtent_eq] at h ⊢
  split_ifs at h ⊢ with hcond
  · exact absurd rfl h
  · simp only [Bool.or_eq_true, decide_eq_true_eq, not_or, Bool.not_eq_true] at hcond
    refine ⟨hcond.1.1, hcond.1.2, hcond.2, ?_⟩
    rw [← List.drop_drop, drop_length_takeWhile]

theorem nextWordExtent_le_length (cs : List Char) : nextWordExtent cs ≤ cs.length := by
  rw [nextWordExtent_eq]
  split
  · exact Nat.zero_le _
  · have hword : wordExtent (cs.dropWhile isBlank) ≤ (cs.dropWhile isBlank).length :=
      covered_le_length pieceExtent_le_length _
    have hsplit := congrArg List.length
      (List.takeWhile_append_dropWhile (p := isBlank) (l := cs))
    rw [List.length_append] at hsplit
    omega

theorem stopsValue_append_feed : stopsValue (cs ++ '\n' :: d) = stopsValue cs := by
  have hword : ∀ n, ((cs ++ '\n' :: d).drop n).head?.any isWord = (cs.drop n).head?.any isWord ∨
      cs.length < n := by
    intro n
    rcases Nat.lt_or_ge cs.length n with hlt | hle
    · exact .inr hlt
    · rw [List.drop_append_of_le_length hle]
      cases cs.drop n with
      | nil => exact .inl (show isWord '\n' = false by decide)
      | cons c cs => exact .inl rfl
  simp only [stopsValue, spelledAt_append_feed]
  rw [isPrefixOf_append_feed (by decide), isPrefixOf_append_feed (by decide)]
  congr 2
  funext k
  rcases hword (k.spelledAt cs) with hsame | hlt
  · rw [hsame]
  · exact absurd (spelledLength_le_length _ _) (Nat.not_le.2 hlt)

theorem pieceExtent_of_isBlank {c : Char} (hc : isBlank c = true) : pieceExtent (c :: cs) = 0 := by
  have hne : ∀ c', isBlank c' = false → c ≠ c' := fun c' hc' heq => by simp [← heq, hc] at hc'
  have hends : endsWord c = true := by simp [endsWord, hc]
  simp [pieceExtent, hne '\'' (by decide), hne '"' (by decide), hne '(' (by decide), hends]

/-- Where a further word begins there is a blank, and no piece. -/
theorem pieceExtent_of_nextWordExtent (h : nextWordExtent cs ≠ 0) :
    pieceExtent (cs ++ x) = 0 := by
  obtain ⟨hblanks, -⟩ := nextWordExtent_cases h
  cases cs with
  | nil => exact absurd rfl hblanks
  | cons c cs =>
    by_cases hc : isBlank c = true
    · exact pieceExtent_of_isBlank hc
    · simp [hc] at hblanks

/-- The blanks before something that is no blank, and what comes after them. -/
theorem takeWhile_dropWhile_append {c : Char} {rest : List Char}
    (h : cs.dropWhile isBlank = c :: rest) :
    (cs ++ x).takeWhile isBlank = cs.takeWhile isBlank ∧
      (cs ++ x).dropWhile isBlank = c :: rest ++ x := by
  have hmem : c ∈ cs := (List.dropWhile_suffix isBlank).subset (h ▸ List.mem_cons_self)
  have hblank : isBlank c = false := by
    have := List.head?_dropWhile_not isBlank cs
    simpa [h] using this
  refine ⟨takeWhile_append_of_mem hmem hblank, ?_⟩
  rw [List.dropWhile_append, h]
  rfl

/-- A further word stays as it is if no piece begins where it ends. -/
theorem nextWordExtent_append (h : nextWordExtent cs ≠ 0)
    (hend : pieceExtent (cs.drop (nextWordExtent cs) ++ '\n' :: d) = 0) :
    nextWordExtent (cs ++ '\n' :: d) = nextWordExtent cs := by
  obtain ⟨-, -, hword, hdrop⟩ := nextWordExtent_cases h
  rw [hdrop] at hend
  have hne : cs.dropWhile isBlank ≠ [] := fun hnil => hword (by rw [hnil]; rfl)
  obtain ⟨c, rest, hrest⟩ := List.exists_cons_of_ne_nil hne
  obtain ⟨hblanks, hrests⟩ := takeWhile_dropWhile_append (x := '\n' :: d) hrest
  rw [hrest] at hend
  rw [nextWordExtent_eq, nextWordExtent_eq, hrests, hblanks, hrest, stopsValue_append_feed,
    wordExtent_append hend]

theorem valueExtent_eq (cs : List Char) : valueExtent cs =
    if wordExtent cs = 0 then 0
    else wordExtent cs + covered nextWordExtent (cs.drop (wordExtent cs)) :=
  rfl

theorem valueExtent_le_length (cs : List Char) : valueExtent cs ≤ cs.length := by
  rw [valueExtent_eq]
  split
  · exact Nat.zero_le _
  · have hword : wordExtent cs ≤ cs.length := covered_le_length pieceExtent_le_length cs
    have hmore := covered_le_length nextWordExtent_le_length (cs.drop (wordExtent cs))
    rw [List.length_drop] at hmore
    omega

/-- Where a value ends neither a piece nor a further word begins. -/
theorem valueExtent_stop (h : valueExtent cs ≠ 0) :
    pieceExtent (cs.drop (valueExtent cs)) = 0 ∧ nextWordExtent (cs.drop (valueExtent cs)) = 0 := by
  rw [valueExtent_eq] at h ⊢
  split_ifs at h ⊢ with hword
  · exact absurd rfl h
  · rw [← List.drop_drop]
    refine ⟨drop_covered nextWordExtent_le_length (Q := fun s => pieceExtent s = 0) ?_ ?_,
      shape_drop_covered nextWordExtent_le_length _⟩
    · intro s hs
      rw [(nextWordExtent_cases hs).2.2.2]
      exact shape_drop_covered pieceExtent_le_length _
    · exact shape_drop_covered pieceExtent_le_length cs

/-- A value stays as it is if neither a piece nor a further word begins where it ends. -/
theorem valueExtent_append (h : valueExtent cs ≠ 0)
    (hpiece : pieceExtent (cs.drop (valueExtent cs) ++ '\n' :: d) = 0)
    (hnext : nextWordExtent (cs.drop (valueExtent cs) ++ '\n' :: d) = 0) :
    valueExtent (cs ++ '\n' :: d) = valueExtent cs := by
  rw [valueExtent_eq] at h hpiece hnext ⊢
  rw [valueExtent_eq]
  split_ifs at h hpiece hnext with hword
  · exact absurd rfl h
  rw [← List.drop_drop] at hpiece hnext
  have hmore : covered nextWordExtent (cs.drop (wordExtent cs) ++ '\n' :: d) =
      covered nextWordExtent (cs.drop (wordExtent cs)) :=
    covered_append nextWordExtent_le_length (P := fun s => pieceExtent (s ++ '\n' :: d) = 0)
      (fun _ => nextWordExtent_append) (fun _ => pieceExtent_of_nextWordExtent) hpiece hnext
  have hfirst : wordExtent (cs ++ '\n' :: d) = wordExtent cs := by
    refine wordExtent_append ?_
    by_cases hlast : nextWordExtent (cs.drop (wordExtent cs)) = 0
    · rwa [covered_of_eq_zero hlast, List.drop_zero] at hpiece
    · exact pieceExtent_of_nextWordExtent hlast
  have hle : wordExtent cs ≤ cs.length := covered_le_length pieceExtent_le_length cs
  rw [hfirst, if_neg hword, if_neg hword, List.drop_append_of_le_length hle, hmore]

theorem wordExtent_eq_zero_iff (cs : List Char) : wordExtent cs = 0 ↔ pieceExtent cs = 0 := by
  refine ⟨fun h => ?_, covered_of_eq_zero⟩
  by_contra hpiece
  have hword : wordExtent cs = _ := covered_of_ne_zero pieceExtent_le_length hpiece
  omega

/-- A value stays as it is if what comes after it, blanks aside, is there and opens nothing. -/
theorem valueExtent_append_of_closed {c : Char} {rest : List Char} (h : valueExtent cs ≠ 0)
    (hrest : (cs.drop (valueExtent cs)).dropWhile isBlank = c :: rest) (hc : opens c = false) :
    valueExtent (cs ++ '\n' :: d) = valueExtent cs := by
  obtain ⟨hpiece, hnext⟩ := valueExtent_stop h
  obtain ⟨hblanks, hrests⟩ := takeWhile_dropWhile_append (x := '\n' :: d) hrest
  refine valueExtent_append h ?_ ?_
  · cases hdrop : cs.drop (valueExtent cs) with
    | nil => simp [hdrop] at hrest
    | cons e es =>
      rw [hdrop] at hpiece hrest
      by_cases he : isBlank e = true
      · exact pieceExtent_of_isBlank he
      · obtain ⟨rfl, -⟩ := List.cons.inj ((List.dropWhile_cons_of_neg he).symm.trans hrest)
        exact pieceExtent_append_eq_zero hc hpiece
  · have hword : wordExtent (c :: rest) = 0 → wordExtent (c :: rest ++ '\n' :: d) = 0 := by
      rw [wordExtent_eq_zero_iff, wordExtent_eq_zero_iff]
      exact pieceExtent_append_eq_zero hc
    have hstop : (((cs.drop (valueExtent cs)).takeWhile isBlank).length = 0 ∨
        stopsValue (c :: rest) = true) ∨ wordExtent (c :: rest) = 0 := by
      by_contra hgoes
      have hcond : ¬(((cs.drop (valueExtent cs)).takeWhile isBlank).length = 0 ||
          stopsValue (c :: rest) || wordExtent (c :: rest) = 0) = true := by
        simpa only [Bool.or_eq_true, decide_eq_true_eq] using hgoes
      rw [nextWordExtent_eq, hrest, if_neg hcond] at hnext
      omega
    rw [nextWordExtent_eq, hblanks, hrests, stopsValue_append_feed, if_pos]
    simpa only [Bool.or_eq_true, decide_eq_true_eq] using hstop.imp_right hword

/-! ## 5. Names, numbers and marks -/

theorem identExtent_append_feed : identExtent (cs ++ '\n' :: d) = identExtent cs := by
  have hname : isNameChar '\n' = false := by decide
  cases cs with
  | nil => rfl
  | cons c cs => simp only [List.cons_append, identExtent, takeWhile_append_feed hname]

theorem identExtent_le_length (cs : List Char) : identExtent cs ≤ cs.length := by
  cases cs with
  | nil => exact Nat.le_refl _
  | cons c cs =>
    have := length_takeWhile_le isNameChar cs
    simp only [identExtent, List.length_cons]
    split <;> omega

/-- What stands after the whole part of a percentage. -/
def fractionExtent : List Char → Nat
  | '%' :: _ => 1
  | '.' :: rest =>
    let fraction := (rest.takeWhile isDecimal).length
    if fraction ≠ 0 && (rest.drop fraction).head? == some '%' then fraction + 2 else 0
  | _ => 0

theorem percentageExtent_eq (cs : List Char) : percentageExtent cs =
    if (cs.takeWhile isDecimal).length = 0 || fractionExtent (cs.dropWhile isDecimal) = 0 then 0
    else (cs.takeWhile isDecimal).length + fractionExtent (cs.dropWhile isDecimal) := by
  rw [← drop_length_takeWhile, percentageExtent]
  generalize (cs.takeWhile isDecimal).length = whole
  by_cases hwhole : whole = 0
  · simp [hwhole]
  match cs.drop whole with
  | [] => simp [fractionExtent]
  | c :: rest =>
    by_cases hsign : c = '%'
    · simp [hsign, fractionExtent, hwhole]
    by_cases hpoint : c = '.'
    · rw [hpoint]
      simp only [fractionExtent, if_neg hwhole]
      cases decide ((rest.takeWhile isDecimal).length ≠ 0) &&
        (rest.drop (rest.takeWhile isDecimal).length).head? == some '%'
      · simp
      · simp [hwhole]
        omega
    · simp [fractionExtent, hsign, hpoint]

theorem fractionExtent_append_feed : fractionExtent (cs ++ '\n' :: d) = fractionExtent cs := by
  have hdecimal : isDecimal '\n' = false := by decide
  match cs with
  | [] => rfl
  | c :: rest =>
    by_cases hsign : c = '%'
    · rw [hsign]
      rfl
    by_cases hpoint : c = '.'
    · rw [hpoint]
      simp only [List.cons_append, fractionExtent, takeWhile_append_feed hdecimal,
        List.drop_append_of_le_length (length_takeWhile_le isDecimal rest)]
      cases rest.drop (rest.takeWhile isDecimal).length <;> simp
    · simp [fractionExtent, hsign, hpoint]

theorem percentageExtent_append_feed :
    percentageExtent (cs ++ '\n' :: d) = percentageExtent cs := by
  have hdecimal : isDecimal '\n' = false := by decide
  rw [percentageExtent_eq, percentageExtent_eq, takeWhile_append_feed hdecimal,
    ← drop_length_takeWhile, takeWhile_append_feed hdecimal,
    List.drop_append_of_le_length (length_takeWhile_le _ _), fractionExtent_append_feed,
    drop_length_takeWhile]

theorem fractionExtent_le_length (cs : List Char) : fractionExtent cs ≤ cs.length := by
  unfold fractionExtent
  split
  · simp
  · next rest =>
    simp only
    split
    · next h =>
      simp only [ne_eq, Bool.and_eq_true, decide_eq_true_eq, beq_iff_eq] at h
      have hne : rest.drop (rest.takeWhile isDecimal).length ≠ [] := fun hnil => by
        simp [hnil] at h
      have := List.length_pos_iff.2 hne
      rw [List.length_drop] at this
      simp only [List.length_cons]
      omega
    · exact Nat.zero_le _
  · exact Nat.zero_le _

theorem percentageExtent_le_length (cs : List Char) : percentageExtent cs ≤ cs.length := by
  rw [percentageExtent_eq]
  split
  · exact Nat.zero_le _
  · have hsplit := congrArg List.length
      (List.takeWhile_append_dropWhile (p := isDecimal) (l := cs))
    have := fractionExtent_le_length (cs.dropWhile isDecimal)
    rw [List.length_append] at hsplit
    omega

theorem comparisonExtent_append_feed :
    comparisonExtent (cs ++ '\n' :: d) = comparisonExtent cs := by
  match cs with
  | [] => rfl
  | [c] => simp [comparisonExtent]
  | c :: e :: cs => rfl

theorem comparisonExtent_le_length (cs : List Char) : comparisonExtent cs ≤ cs.length := by
  match cs with
  | [] => exact Nat.le_refl _
  | [c] => simp only [comparisonExtent]; split <;> simp
  | c :: e :: cs =>
    simp only [comparisonExtent, List.length_cons]
    split_ifs <;> omega

theorem markExtent_append_feed {c : Char} (hc : c ≠ '\n') :
    (Terminal.mark c).extent (cs ++ '\n' :: d) = (Terminal.mark c).extent cs := by
  cases cs with
  | nil => simp [Terminal.extent, hc.symm]
  | cons e cs => rfl

theorem exists_of_lineCommentExtent (h : lineCommentExtent cs ≠ 0) :
    ∃ ds, cs = '-' :: '-' :: ds := by
  unfold lineCommentExtent at h
  split at h
  · exact ⟨_, rfl⟩
  · exact absurd rfl h

theorem lineCommentExtent_append_feed :
    lineCommentExtent (cs ++ '\n' :: d) = lineCommentExtent cs := by
  match cs with
  | [] => rfl
  | [c] => simp [lineCommentExtent]
  | c :: e :: cs =>
    by_cases hc : c = '-' ∧ e = '-'
    · obtain ⟨rfl, rfl⟩ := hc
      simp only [List.cons_append, lineCommentExtent, takeWhile_append_feed (p := (· != '\n')) rfl]
    · have hnone : ∀ ds, lineCommentExtent (c :: e :: ds) = 0 := by
        intro ds
        by_contra h
        obtain ⟨ds', heq⟩ := exists_of_lineCommentExtent h
        simp only [List.cons.injEq] at heq
        exact hc ⟨heq.1, heq.2.1⟩
      rw [hnone, List.cons_append, List.cons_append, hnone]

theorem lineCommentExtent_le_length (cs : List Char) : lineCommentExtent cs ≤ cs.length := by
  by_cases h : lineCommentExtent cs = 0
  · simp [h]
  · obtain ⟨ds, rfl⟩ := exists_of_lineCommentExtent h
    have := length_takeWhile_le (· != '\n') ds
    simp only [lineCommentExtent, List.length_cons]
    omega

theorem mediaExtent_append (h : ';' ∈ cs) : mediaExtent (cs ++ x) = mediaExtent cs := by
  rw [mediaExtent, takeWhile_append_of_mem h (by decide)]
  rfl

/-- No block comment comes to be where a media query does not begin with the mark that opens one, or
where nothing later closes it. -/
theorem blockCommentExtent_append_feed
    (h : ¬['/', '*'] <+: cs.take (mediaExtent cs) ∨ ¬['*', '/'] <:+: d) :
    blockCommentExtent (cs ++ '\n' :: d) = blockCommentExtent cs := by
  by_cases hextent : blockCommentExtent cs = 0
  · rw [hextent]
    by_contra hne
    obtain ⟨ds, hds⟩ := exists_of_blockCommentExtent hne
    match cs with
    | [] => simp at hds
    | [c] => simp at hds
    | c :: e :: es =>
      simp only [List.cons_append, List.cons.injEq] at hds
      obtain ⟨rfl, rfl, -⟩ := hds
      rcases h with hopen | hclosed
      · refine hopen ⟨es.take (es.takeWhile (· != ';')).length, ?_⟩
        simp [mediaExtent]
      · have hes : blockCommentRest es = none := by
          cases hrest : blockCommentRest es with
          | none => rfl
          | some n => simp [blockCommentExtent, hrest] at hextent
        have hd : blockCommentRest d = none := by
          by_contra hsome
          exact hclosed (infix_of_blockCommentRest hsome)
        simp [blockCommentExtent, blockCommentRest_append_feed hd hes] at hne
  · exact (blockCommentExtent_append hextent).2

theorem feed_not_mem_functionNames : ∀ name ∈ functionNames,
    '\n' ∉ name.map foldChar ∧ ';' ∉ name.map foldChar := by
  decide

/-- The characters that spell a word are spelled by it. -/
theorem take_spelledLength {word : List Char} (h : spelledLength word cs ≠ 0) :
    (cs.take (spelledLength word cs)).map foldChar = word.map foldChar := by
  cases word with
  | nil => exact absurd rfl h
  | cons w ws =>
    simp only [spelledLength] at h ⊢
    split_ifs at h ⊢ with hspelled
    · exact hspelled
    · exact absurd rfl h

/-- A function with its bracket, if it has one of the names. -/
def functionAt (cs name : List Char) : Option Nat :=
  let n := spelledLength name cs
  let blanks := ((cs.drop n).takeWhile isBlank).length
  if n ≠ 0 && (cs.drop (n + blanks)).head? == some '(' then some (n + blanks + 1) else none

theorem functionExtent_eq (cs : List Char) :
    functionExtent cs = (functionNames.findSome? (functionAt cs)).getD 0 :=
  rfl

theorem functionAt_append (h : ';' ∈ cs) : ∀ name ∈ functionNames,
    functionAt (cs ++ '\n' :: d) name = functionAt cs name := by
  intro name hname
  obtain ⟨hfeed, hsemicolon⟩ := feed_not_mem_functionNames name hname
  simp only [functionAt, spelledLength_append_feed hfeed]
  by_cases hn : spelledLength name cs = 0
  · simp [hn]
  have hmem : ';' ∈ cs.drop (spelledLength name cs) := by
    rw [← List.take_append_drop (spelledLength name cs) cs, List.mem_append] at h
    refine h.resolve_left fun hfront => hsemicolon ?_
    rw [← take_spelledLength hn]
    exact List.mem_map.2 ⟨';', hfront, by decide⟩
  have hblank : isBlank ';' = false := by decide
  rw [List.drop_append_of_le_length (spelledLength_le_length _ _),
    takeWhile_append_of_mem hmem hblank, ← List.drop_drop, ← List.drop_drop,
    List.drop_append_of_le_length (spelledLength_le_length _ _),
    List.drop_append_of_le_length (length_takeWhile_le _ _), drop_length_takeWhile]
  have hrest : (cs.drop (spelledLength name cs)).dropWhile isBlank ≠ [] := fun hnil => by
    have := List.dropWhile_eq_nil_iff.1 hnil ';' hmem
    simp [hblank] at this
  obtain ⟨e, es, hes⟩ := List.exists_cons_of_ne_nil hrest
  rw [hes]
  rfl

theorem functionExtent_append (h : ';' ∈ cs) :
    functionExtent (cs ++ '\n' :: d) = functionExtent cs := by
  have hsame : functionNames.map (functionAt (cs ++ '\n' :: d)) =
      functionNames.map (functionAt cs) :=
    List.map_congr_left (functionAt_append h)
  have hfind := congrArg (List.findSome? id) hsame
  rw [List.findSome?_map, List.findSome?_map] at hfind
  rw [functionExtent_eq, functionExtent_eq]
  exact congrArg (·.getD 0) hfind

theorem functionExtent_le_length (cs : List Char) : functionExtent cs ≤ cs.length := by
  rw [functionExtent_eq]
  cases hfind : functionNames.findSome? (functionAt cs) with
  | none => exact Nat.zero_le _
  | some n =>
    obtain ⟨name, -, hname⟩ := List.exists_of_findSome?_eq_some hfind
    simp only [functionAt] at hname
    split_ifs at hname with hcond
    obtain rfl := Option.some.inj hname
    simp only [Bool.and_eq_true, beq_iff_eq] at hcond
    have hne : cs.drop (spelledLength name cs +
        ((cs.drop (spelledLength name cs)).takeWhile isBlank).length) ≠ [] := fun hnil => by
      simp [hnil] at hcond
    have := List.length_pos_iff.2 hne
    rw [List.length_drop] at this
    simp only [Option.getD_some]
    omega

/-! ## 6. Lexemes -/

theorem Terminal.extent_le_length (t : Terminal) (cs : List Char) :
    t.extent cs ≤ cs.length := by
  cases t with
  | word k => exact spelledLength_le_length _ cs
  | mark c =>
    cases cs with
    | nil => simp [extent]
    | cons e cs =>
      simp only [extent, List.length_cons]
      split <;> omega
  | comparison => exact comparisonExtent_le_length cs
  | ident => exact identExtent_le_length cs
  | quoted =>
    by_cases h : quotedExtent cs = 0
    · simp [extent, h]
    · exact (quotedExtent_append (x := []) h).1
  | value => exact valueExtent_le_length cs
  | percentage => exact percentageExtent_le_length cs
  | function => exact functionExtent_le_length cs
  | group =>
    by_cases h : groupExtent cs = 0
    · simp [extent, h]
    · exact (groupExtent_append (x := []) h).1
  | media => exact length_takeWhile_le _ cs

theorem Lexeme.extent_le_length (l : Lexeme) (cs : List Char) : l.extent cs ≤ cs.length := by
  cases l with
  | separator => exact length_takeWhile_le _ cs
  | lineComment => exact lineCommentExtent_le_length cs
  | blockComment =>
    by_cases h : blockCommentExtent cs = 0
    · simp [extent, h]
    · exact (blockCommentExtent_append (x := []) h).1
  | token t => exact t.extent_le_length cs

end StyleLedger.Source
