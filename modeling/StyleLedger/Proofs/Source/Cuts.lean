import StyleLedger.Source.Token
import StyleLedger.Proofs.Source.Front

/-!
What a text is cut into, places aside.

`Cuts machine cs ts` says that the machine cuts the characters into the tokens and is content in the
end. It leaves out where the tokens begin, which is all that changes when a text stands further
down. The scanner does what it says (`cuts_of_scan`, `Cuts.exists_scan`).

Two texts are put together with a line feed between them. The tokens of the first are found again,
one after another, because each of them has an end that is not moved (`first?_append`): its last
token is a semicolon, so there is one wherever a function or a media query is looked for, and what
comes after a value is a word or a mark. The last semicolon takes the machine back to its beginning,
where white space and comments are all that is left of the first text, and a line feed ends them.

* `Cuts.append` — the tokens of two texts are those of the first and those of the second.
-/

namespace StyleLedger.Source

open Text

/-! ## 1. Cuts -/

/-- A token without its place. -/
def Token.unplaced (t : Token) : Token :=
  { t with position := {} }

/-- A machine cuts a text into tokens; nothing is said about their places. -/
inductive Cuts : List Stack → List Char → List Token → Prop
  /-- The text is over and may be. -/
  | done {machine : List Stack} (finished : machine.any Stack.finished = true) : Cuts machine [] []
  /-- Ignored text stands in front. -/
  | pass {machine : List Stack} {cs : List Char} {l : Lexeme} {n : Nat} {ts : List Token}
      (first : Lexeme.first? (accepts machine) cs = some (l, n)) (ignored : ∀ t, l ≠ .token t)
      (rest : Cuts machine (cs.drop n) ts) : Cuts machine cs ts
  /-- A token stands in front. -/
  | token {machine : List Stack} {cs : List Char} {u : Token} {n : Nat} {ts : List Token}
      (first : Lexeme.first? (accepts machine) cs = some (.token u.kind, n))
      (text : u.text = String.ofList (cs.take n))
      (rest : Cuts (shift u.kind machine) (cs.drop n) ts) : Cuts machine cs (u :: ts)

section Scan

variable {machine : List Stack} {cs : List Char} {ts : List Token} {last here : Position}
  {l : Lexeme} {n : Nat}

theorem scan_skip : ∀ {n : Nat} {cs : List Char}, n ≤ cs.length →
    scan machine last here n cs = scan machine last here 0 (cs.drop n)
  | 0, _, _ => rfl
  | n + 1, c :: cs, h => by
    rw [scan, scan_skip (Nat.le_of_succ_le_succ h), List.drop_succ_cons]

/-- The scanner passes over ignored text. -/
theorem scan_pass (h : Lexeme.first? (accepts machine) cs = some (l, n))
    (hl : ∀ t, l ≠ .token t) :
    scan machine last here 0 cs = scan machine last (here.advance (cs.take n)) 0 (cs.drop n) := by
  obtain ⟨hn, hle⟩ := Lexeme.extent_of_first? h
  obtain ⟨m, rfl⟩ := Nat.exists_eq_succ_of_ne_zero hn
  cases cs with
  | nil => simp at hle
  | cons c cs =>
    rw [scan]
    simp only [h]
    cases l with
    | token t => exact absurd rfl (hl t)
    | separator | lineComment | blockComment =>
      exact scan_skip (Nat.le_of_succ_le_succ hle)

/-- The scanner takes a token. -/
theorem scan_token {t : Terminal} (h : Lexeme.first? (accepts machine) cs = some (.token t, n)) :
    scan machine last here 0 cs = .ok ts ↔ ∃ u us, ts = u :: us ∧ u.kind = t ∧
      u.text = String.ofList (cs.take n) ∧ u.position = here ∧
      scan (shift t machine) here (here.advance (cs.take n)) 0 (cs.drop n) = .ok us := by
  obtain ⟨hn, hle⟩ := Lexeme.extent_of_first? h
  obtain ⟨m, rfl⟩ := Nat.exists_eq_succ_of_ne_zero hn
  cases cs with
  | nil => simp at hle
  | cons c cs =>
    rw [scan]
    simp only [h]
    rw [scan_skip (Nat.le_of_succ_le_succ hle), List.drop_succ_cons]
    cases scan (shift t machine) here (here.advance ((c :: cs).take (m + 1))) 0 (cs.drop m) with
    | error p => simp
    | ok us =>
      constructor
      · rintro hts
        obtain rfl := Except.ok.inj hts
        exact ⟨_, _, rfl, rfl, rfl, rfl, rfl⟩
      · rintro ⟨⟨kind, text, position, hne⟩, us', rfl, rfl, rfl, rfl, hus⟩
        obtain rfl := Except.ok.inj hus
        rfl

theorem exists_first_of_scan (hcs : cs ≠ []) (h : scan machine last here 0 cs = .ok ts) :
    ∃ l n, Lexeme.first? (accepts machine) cs = some (l, n) := by
  cases cs with
  | nil => exact absurd rfl hcs
  | cons c cs =>
    rw [scan] at h
    cases hfirst : Lexeme.first? (accepts machine) (c :: cs) with
    | none => simp [hfirst] at h
    | some found => exact ⟨found.1, found.2, rfl⟩

/-- What the scanner gives is what the text is cut into. -/
theorem cuts_of_scan {machine : List Stack} {cs : List Char} {ts : List Token}
    {last here : Position} (h : scan machine last here 0 cs = .ok ts) : Cuts machine cs ts := by
  by_cases hcs : cs = []
  · subst hcs
    rw [scan] at h
    split_ifs at h with hfinished
    obtain rfl := Except.ok.inj h
    exact .done hfinished
  · obtain ⟨l, n, hfirst⟩ := exists_first_of_scan hcs h
    obtain ⟨hn, hle⟩ := Lexeme.extent_of_first? hfirst
    have hshorter : (cs.drop n).length < cs.length := by
      rw [List.length_drop]
      omega
    by_cases hl : ∃ t, l = .token t
    · obtain ⟨t, rfl⟩ := hl
      obtain ⟨u, us, rfl, rfl, htext, -, hrest⟩ := (scan_token hfirst).1 h
      exact .token hfirst htext (cuts_of_scan hrest)
    · rw [scan_pass hfirst fun t ht => hl ⟨t, ht⟩] at h
      exact .pass hfirst (fun t ht => hl ⟨t, ht⟩) (cuts_of_scan h)
termination_by cs.length

/-- What the text is cut into is what the scanner gives, wherever it begins. -/
theorem Cuts.exists_scan (h : Cuts machine cs ts) (last here : Position) :
    ∃ us, scan machine last here 0 cs = .ok us ∧
      us.map Token.unplaced = ts.map Token.unplaced := by
  induction h generalizing last here with
  | done hfinished => exact ⟨[], by simp [scan, hfinished], rfl⟩
  | pass hfirst hl _ ih =>
    rw [scan_pass hfirst hl]
    exact ih last _
  | @token machine cs u n ts hfirst htext _ ih =>
    obtain ⟨us, hus, hsame⟩ := ih here (here.advance (cs.take n))
    refine ⟨{ u with position := here } :: us, ?_, ?_⟩
    · exact (scan_token hfirst).2 ⟨_, us, rfl, rfl, htext, rfl, hus⟩
    · simp [hsame, Token.unplaced]

end Scan

/-! ## 2. What is left of a text -/

section Rest

variable {machine : List Stack} {cs : List Char} {ts : List Token}

/-- White space in front does not matter. -/
theorem cuts_dropWhile_isSeparator :
    Cuts machine (cs.dropWhile isSeparator) ts ↔ Cuts machine cs ts := by
  cases cs with
  | nil => rfl
  | cons c cs =>
    by_cases hc : isSeparator c = true
    · have hfirst : Lexeme.first? (accepts machine) (c :: cs) =
          some (.separator, separatorExtent (c :: cs)) :=
        Lexeme.first?_of_isSeparator hc
      rw [← drop_length_takeWhile]
      constructor
      · exact .pass hfirst (by simp)
      · intro h
        cases h with
        | pass hfirst' hl rest =>
          obtain ⟨-, rfl⟩ := Prod.mk.inj (Option.some.inj (hfirst.symm.trans hfirst'))
          exact rest
        | token hfirst' htext rest => simp [hfirst] at hfirst'
    · rw [List.dropWhile_cons_of_neg hc]

theorem cuts_separator {c : Char} (hc : isSeparator c = true) :
    Cuts machine (c :: cs) ts ↔ Cuts machine cs ts := by
  rw [← cuts_dropWhile_isSeparator, List.dropWhile_cons_of_pos hc, cuts_dropWhile_isSeparator]

/-- A machine without a stack is never content. -/
theorem not_cuts_nil : ¬Cuts [] cs ts := by
  intro h
  generalize hmachine : ([] : List Stack) = machine at h
  induction h with
  | done hfinished => simp [← hmachine] at hfinished
  | pass _ _ _ ih => exact ih hmachine
  | token _ _ _ ih =>
    refine ih ?_
    rw [← hmachine]
    rfl

/-- A semicolon that is cut out of a text stands in it. -/
theorem Cuts.semicolon_mem (h : Cuts machine cs ts) (hts : ∃ t ∈ ts, t.kind = .mark ';') :
    ';' ∈ cs := by
  induction h with
  | done => simp at hts
  | pass _ _ _ ih => exact List.mem_of_mem_drop (ih hts)
  | @token machine cs u n ts hfirst _ _ ih =>
    obtain ⟨t, ht, hkind⟩ := hts
    rcases List.mem_cons.1 ht with rfl | ht
    · rw [hkind] at hfirst
      obtain ⟨l, hchosen, -, rfl | ⟨-, k, hk, -⟩⟩ := Lexeme.exists_chosen_of_first? hfirst
      · have hfits := (Lexeme.chosen_spec hchosen).2.2
        simp only [Lexeme.extent, Terminal.extent] at hfits
        split_ifs at hfits with hhead
        · exact List.mem_of_mem_head? (by simpa using hhead)
        · exact absurd rfl hfits
      · simp at hk
    · exact List.mem_of_mem_drop (ih ⟨t, ht, hkind⟩)

end Rest

/-! ## 3. What comes after a value -/

/-- The code points of the blanks. -/
def blankCodes : List Nat :=
  [9, 10, 11, 12, 13, 28, 29, 30, 31, 32, 0x85, 0xA0, 0x1680, 0x2000, 0x2001, 0x2002, 0x2003,
   0x2004, 0x2005, 0x2006, 0x2007, 0x2008, 0x2009, 0x200A, 0x2028, 0x2029, 0x202F, 0x205F, 0x3000]

theorem mem_blankCodes {c : Char} (h : isBlank c = true) :
    c ∈ blankCodes.map Char.ofNat := by
  refine List.mem_map.2 ⟨c.toNat, ?_, Char.ofNat_toNat c⟩
  simp only [isBlank, Bool.or_eq_true, Bool.and_eq_true, decide_eq_true_eq, beq_iff_eq] at h
  simp only [blankCodes, List.mem_cons, List.not_mem_nil, or_false]
  omega

theorem isBlank_of_isSeparator {c : Char} (h : isSeparator c = true) : isBlank c = true := by
  simp only [isSeparator, Bool.or_eq_true, beq_iff_eq] at h
  rcases h with (((rfl | rfl) | rfl) | rfl) | rfl <;> rfl

/-- No word or mark that may follow a value begins with a blank or opens anything. -/
theorem not_opens_of_mem_valueFollow {t : Terminal} (ht : t ∈ valueFollow) {c : Char}
    (h : t.mayBegin c = true) : isBlank c = false ∧ opens c = false := by
  have hall : (['\'', '"', '('] ++ blankCodes.map Char.ofNat).all (fun c =>
      valueFollow.all fun t => !t.mayBegin c) = true := by
    decide +kernel
  have hnot : c ∉ ['\'', '"', '('] ++ blankCodes.map Char.ofNat := fun hc => by
    simpa [h] using List.all_eq_true.1 (List.all_eq_true.1 hall c hc) t ht
  constructor
  · by_contra hblank
    exact hnot (List.mem_append_right _ (mem_blankCodes (by simpa using hblank)))
  · by_contra hopens
    simp only [opens, Bool.not_eq_false, Bool.or_eq_true, beq_iff_eq, or_assoc] at hopens
    exact hnot (List.mem_append_left _ (by simpa using hopens))

/-- Whatever is cut out of a text where a value has ended, the text goes on, blanks aside, with
something that opens nothing. -/
theorem Cuts.exists_closed {machine : List Stack} {cs : List Char} {ts : List Token}
    (h : Cuts machine cs ts) (haccepts : ∀ t ∈ accepts machine, t ∈ valueFollow) (hts : ts ≠ []) :
    ∃ c rest, cs.dropWhile isBlank = c :: rest ∧ opens c = false := by
  induction h with
  | done => exact absurd rfl hts
  | @pass machine cs l n ts hfirst hl _ ih =>
    obtain ⟨l', hchosen, hn, hmade⟩ := Lexeme.exists_chosen_of_first? hfirst
    obtain rfl : l' = l := hmade.resolve_right fun ⟨_, k, hk, _⟩ => hl _ hk
    obtain ⟨-, -, hfits⟩ := Lexeme.chosen_spec hchosen
    cases l' with
    | separator =>
      obtain ⟨c, rest, hrest, hc⟩ := ih haccepts hts
      refine ⟨c, rest, ?_, hc⟩
      rw [← hn, Lexeme.extent, separatorExtent, drop_length_takeWhile] at hrest
      have hblanks : ∀ c ∈ cs.takeWhile isSeparator, isBlank c = true := fun c hc =>
        isBlank_of_isSeparator (List.mem_takeWhile_imp hc)
      rw [← List.takeWhile_append_dropWhile (p := isSeparator) (l := cs),
        List.dropWhile_append_of_pos hblanks, hrest]
    | lineComment =>
      obtain ⟨ds, rfl⟩ := exists_of_lineCommentExtent hfits
      exact ⟨'-', '-' :: ds, rfl, rfl⟩
    | blockComment =>
      obtain ⟨ds, rfl⟩ := exists_of_blockCommentExtent hfits
      exact ⟨'/', '*' :: ds, rfl, rfl⟩
    | token t => exact absurd rfl (hl t)
  | @token machine cs u n ts hfirst _ _ _ =>
    obtain ⟨l, hchosen, -, hmade⟩ := Lexeme.exists_chosen_of_first? hfirst
    obtain ⟨-, hadmitted, hfits⟩ := Lexeme.chosen_spec hchosen
    obtain ⟨c, rest, rfl⟩ := Lexeme.exists_cons_of_chosen hchosen
    have hl : ∃ t, l = .token t := hmade.elim (fun hl => ⟨_, hl⟩) fun hl => ⟨_, hl.1⟩
    obtain ⟨t, rfl⟩ := hl
    have ht : t ∈ valueFollow := haccepts t (by simpa [Lexeme.admitted] using hadmitted)
    obtain ⟨hblank, hopens⟩ := not_opens_of_mem_valueFollow ht (Terminal.mayBegin_of_extent hfits)
    exact ⟨c, rest, List.dropWhile_cons_of_neg (by simp [hblank]), hopens⟩

/-! ## 4. Two texts -/

section Append

variable {machine : List Stack} {cs ds : List Char} {ts us : List Token}

/-- A list of tokens ends with a semicolon, if it holds any. -/
def EndsClosed (ts : List Token) : Prop :=
  ∀ t ∈ ts.getLast?, t.kind = .mark ';'

theorem EndsClosed.tail {u : Token} (h : EndsClosed (u :: ts)) : EndsClosed ts := by
  intro t ht
  refine h t ?_
  cases ts with
  | nil => simp at ht
  | cons v ts => rwa [List.getLast?_cons_cons]

/-- Where a function or a media query is looked for, a semicolon is still to come. -/
theorem Cuts.semicolon_mem_of_accepts (h : Cuts machine cs ts) (hlast : EndsClosed ts)
    (hnone : ts = [] → machine = start) :
    ∀ t ∈ [Terminal.function, .media], t ∈ accepts machine → ';' ∈ cs := by
  intro t ht hmem
  cases hend : ts.getLast? with
  | none =>
    rw [hnone (List.getLast?_eq_none_iff.1 hend)] at hmem
    refine absurd hmem (not_mem_accepts List.mem_cons_self ?_)
    have hsub : ∀ t ∈ [Terminal.function, .media], t ∈ .mark ';' :: .function :: alone := by decide
    exact hsub t ht
  | some u => exact h.semicolon_mem ⟨u, List.mem_of_getLast? hend, hlast u hend⟩

/-- A value that something follows is not moved. -/
theorem Cuts.valueExtent_append {n : Nat} (hreached : isReached machine = true)
    (hfirst : Lexeme.first? (accepts machine) cs = some (.token .value, n))
    (hrest : Cuts (shift .value machine) (cs.drop n) ts) (hts : ts ≠ []) :
    valueExtent (cs ++ '\n' :: ds) = valueExtent cs := by
  obtain ⟨l, hchosen, rfl, rfl | ⟨-, k, hk, -⟩⟩ := Lexeme.exists_chosen_of_first? hfirst
  · obtain ⟨c, rest, hclosed, hc⟩ := hrest.exists_closed (mem_valueFollow hreached) hts
    exact valueExtent_append_of_closed (Lexeme.chosen_spec hchosen).2.2 hclosed hc
  · simp at hk

/-- No comment is opened by a media query that does not begin like one, or that nothing closes. -/
theorem blockCommentExtent_append_of_first? {u : Token} {n : Nat}
    (hfirst : Lexeme.first? (accepts machine) cs = some (.token u.kind, n))
    (htext : u.text = String.ofList (cs.take n)) (hkind : u.kind = .media)
    (hmedia : ¬['/', '*'] <+: u.text.toList ∨ ¬['*', '/'] <:+: ds) :
    blockCommentExtent (cs ++ '\n' :: ds) = blockCommentExtent cs := by
  rw [hkind] at hfirst
  obtain ⟨l, -, rfl, rfl | ⟨-, k, hk, -⟩⟩ := Lexeme.exists_chosen_of_first? hfirst
  · refine blockCommentExtent_append_feed (hmedia.imp_left fun hopen => ?_)
    rwa [htext, String.toList_ofList] at hopen
  · simp at hk

theorem dropWhile_dropWhile_append (p : Char → Bool) (cs x : List Char) :
    (cs.dropWhile p ++ x).dropWhile p = (cs ++ x).dropWhile p := by
  have hsplit := List.takeWhile_append_dropWhile (p := p) (l := cs)
  calc (cs.dropWhile p ++ x).dropWhile p
      = (cs.takeWhile p ++ (cs.dropWhile p ++ x)).dropWhile p :=
        (List.dropWhile_append_of_pos fun _ => List.mem_takeWhile_imp).symm
    _ = (cs ++ x).dropWhile p := by rw [← List.append_assoc, hsplit]

/-- What two texts are cut into, a line feed between them, if the first one ends with a semicolon or
holds no token at all. -/
theorem Cuts.append (h : Cuts machine cs ts) (hd : Cuts start ds us)
    (hreached : isReached machine = true) (hlast : EndsClosed ts)
    (hnone : ts = [] → machine = start)
    (hmedia : (∀ t ∈ ts, t.kind = .media → ¬['/', '*'] <+: t.text.toList) ∨
      ¬['*', '/'] <:+: ds) :
    Cuts machine (cs ++ '\n' :: ds) (ts ++ us) := by
  induction h with
  | done =>
    rw [hnone rfl]
    have hline : ('\n' :: ds).dropWhile isSeparator = ds.dropWhile isSeparator := rfl
    rwa [List.nil_append, List.nil_append, ← cuts_dropWhile_isSeparator, hline,
      cuts_dropWhile_isSeparator]
  | @pass machine cs l n ts hfirst hl rest ih =>
    have happend := ih hreached hlast hnone hmedia
    by_cases hseparator : l = .separator
    · subst hseparator
      obtain ⟨l', -, rfl, rfl | ⟨-, k, hk, -⟩⟩ := Lexeme.exists_chosen_of_first? hfirst
      · rw [Lexeme.extent, separatorExtent, drop_length_takeWhile] at happend
        rw [← cuts_dropWhile_isSeparator, ← dropWhile_dropWhile_append]
        exact cuts_dropWhile_isSeparator.2 happend
      · simp at hk
    · have hsame := Lexeme.first?_append (d := ds) hreached hfirst hseparator
        ((Cuts.pass hfirst hl rest).semicolon_mem_of_accepts hlast hnone)
        (fun htoken => absurd htoken (hl _)) (fun htoken => absurd htoken (hl _))
      refine .pass hsame hl ?_
      rwa [List.drop_append_of_le_length (Lexeme.extent_of_first? hfirst).2]
  | @token machine cs u n ts hfirst htext rest ih =>
    have hclosed : ts = [] → u.kind = .mark ';' := by
      rintro rfl
      exact hlast u rfl
    have happend : Cuts (shift u.kind machine) (cs.drop n ++ '\n' :: ds) (ts ++ us) := by
      refine ih (isReached_shift hreached u.kind) hlast.tail (fun hts => ?_)
        (hmedia.imp_left fun hopen t ht => hopen t (List.mem_cons_of_mem u ht))
      rw [hclosed hts] at rest ⊢
      refine (shift_semicolon hreached).resolve_left fun hnil => ?_
      exact not_cuts_nil (hnil ▸ rest)
    have hsame := Lexeme.first?_append (d := ds) hreached hfirst (by simp)
      ((Cuts.token hfirst htext rest).semicolon_mem_of_accepts hlast (by simp))
      (fun hvalue => by
        rw [Lexeme.token.inj hvalue] at hfirst rest hclosed
        exact rest.valueExtent_append hreached hfirst fun hts => by simpa using hclosed hts)
      (fun hkind => blockCommentExtent_append_of_first? hfirst htext (Lexeme.token.inj hkind)
        (hmedia.imp_left fun hopen => hopen u List.mem_cons_self (Lexeme.token.inj hkind)))
    have hle := (Lexeme.extent_of_first? hfirst).2
    refine .token hsame ?_ ?_
    · rwa [List.take_append_of_le_length hle]
    · rwa [List.drop_append_of_le_length hle]

end Append

end StyleLedger.Source
