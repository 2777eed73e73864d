import StyleLedger.Proofs.Source.Appended
import StyleLedger.Proofs.Source.Evaluation
import StyleLedger.Proofs.Source.Leads
import StyleLedger.Proofs.Source.Placed

/-!
Comments between tokens.

A comment with white space on both sides is put between two tokens of a text. The tokens before it
are found again, because white space sets them off (`Leads.exchange`), and where the machine then
stands the comment is passed over (`cuts_ignored`), so the tokens are those of the text as it was,
and with them the statements.

There are two places where a comment is not looked for: a media query goes on until the semicolon,
and what stands where a value may come is taken for the value's first word. A comment at such a place
is read as a part of the token.

* `parse_of_ignored` — a text of comments alone has no statements.
* `parse_commented` — anywhere else a comment changes nothing.
-/

namespace StyleLedger.Source

open Text Outcome

/-! ## 1. Ignored text -/

/-- A comment: to the end of its line, with the line feed, or between its marks. -/
inductive IsComment : List Char → Prop
  | line {body : List Char} (h : '\n' ∉ body) : IsComment ('-' :: '-' :: (body ++ ['\n']))
  | block {body : List Char} (h : ¬['*', '/'] <:+: body) :
      IsComment ('/' :: '*' :: (body ++ ['*', '/']))

/-- White space and comments. -/
inductive Ignored : List Char → Prop
  | nil : Ignored []
  | separator {c : Char} {g : List Char} (hc : isSeparator c = true) (rest : Ignored g) :
      Ignored (c :: g)
  | comment {k g : List Char} (hk : IsComment k) (rest : Ignored g) : Ignored (k ++ g)

/-- A comment with white space before and after it. -/
def IsSetOff (w : List Char) : Prop :=
  ∃ s k s', w = s ++ (k ++ s') ∧ s ≠ [] ∧ s' ≠ [] ∧ (∀ c ∈ s ++ s', isSeparator c = true) ∧
    IsComment k

section Ignored

variable {machine : List Stack} {g cs : List Char} {ts : List Token}

theorem ignored_of_separators {s : List Char} (hs : ∀ c ∈ s, isSeparator c = true)
    (hg : Ignored g) : Ignored (s ++ g) := by
  induction s with
  | nil => exact hg
  | cons c s ih =>
    exact .separator (hs c List.mem_cons_self) (ih fun c hc => hs c (List.mem_cons_of_mem _ hc))

theorem IsSetOff.ignored {w : List Char} (h : IsSetOff w) : Ignored w := by
  obtain ⟨s, k, s', rfl, -, -, hs, hk⟩ := h
  have hend : Ignored (s' ++ []) :=
    ignored_of_separators (fun c hc => hs c (List.mem_append_right _ hc)) .nil
  rw [List.append_nil] at hend
  exact ignored_of_separators (fun c hc => hs c (List.mem_append_left _ hc)) (.comment hk hend)

/-- The characters up to the nearest end of a block comment. -/
theorem blockCommentRest_body {body : List Char} (h : ¬['*', '/'] <:+: body) :
    blockCommentRest (body ++ '*' :: '/' :: cs) = some (body.length + 2) := by
  induction body with
  | nil => rfl
  | cons c body ih =>
    have hbody : ¬['*', '/'] <:+: body := fun hin => h (hin.trans (List.suffix_cons c body).isInfix)
    have hnot : ∀ d ds, body ++ '*' :: '/' :: cs = d :: ds → ¬(c = '*' ∧ d = '/') := by
      rintro d ds hd ⟨rfl, rfl⟩
      cases body with
      | nil => simp at hd
      | cons e body =>
        obtain ⟨rfl, -⟩ := List.cons.inj hd
        exact h ⟨[], body, rfl⟩
    cases hrest : body ++ '*' :: '/' :: cs with
    | nil => simp at hrest
    | cons d ds =>
      rw [List.cons_append, hrest, blockCommentRest, if_neg (by simpa using hnot d ds hrest),
        ← hrest, ih hbody]
      simp

/-- Where no value is looked for, nothing that is tried before a comment begins like it. -/
theorem chosen_comment (hvalue : Terminal.value ∉ accepts machine) {c : Char} {l : Lexeme}
    (hl : l = .lineComment ∧ c = '-' ∨ l = .blockComment ∧ c = '/')
    (hextent : l.extent (c :: cs) ≠ 0) :
    Lexeme.chosen (accepts machine) (c :: cs) = some l := by
  have hfound : ∀ n, Lexeme.inOrder[n]? = some l → l.admitted (accepts machine) = true →
      (∀ l' ∈ Lexeme.inOrder.take n, l' = .token .value ∨ l'.mayBegin c = false) →
      Lexeme.chosen (accepts machine) (c :: cs) = some l := by
    intro n hn hadmitted hbefore
    obtain ⟨hlt, hget⟩ := List.getElem?_eq_some_iff.1 hn
    refine List.find?_eq_some_iff_append.2 ⟨?_, Lexeme.inOrder.take n,
      Lexeme.inOrder.drop (n + 1), ?_, fun l' hl' => ?_⟩
    · rw [hadmitted, Bool.true_and, bne_iff_ne]
      exact hextent
    · rw [← hget, ← List.drop_eq_getElem_cons hlt, List.take_append_drop]
    · rcases hbefore l' hl' with rfl | hnot
      · simp [Lexeme.admitted, hvalue]
      · have hzero : l'.extent (c :: cs) = 0 := by
          by_contra hne
          simp [Lexeme.mayBegin_of_extent hne] at hnot
        simp [hzero]
  rcases hl with ⟨rfl, rfl⟩ | ⟨rfl, rfl⟩
  · exact hfound 8 rfl rfl (by decide)
  · exact hfound 5 rfl rfl (by decide)

/-- The lexeme in front is passed over, if it is no token. -/
theorem cuts_pass {x : List Char} {l : Lexeme}
    (hchosen : Lexeme.chosen (accepts machine) (x ++ cs) = some l) (hl : ∀ t, l ≠ .token t)
    (hx : l.extent (x ++ cs) = x.length) : Cuts machine (x ++ cs) ts ↔ Cuts machine cs ts := by
  have hfirst : Lexeme.first? (accepts machine) (x ++ cs) = some (l, x.length) := by
    rw [Lexeme.first?_eq, hchosen, Option.map_some, hx]
    cases l with
    | token t => exact absurd rfl (hl t)
    | separator | lineComment | blockComment => rfl
  constructor
  · intro h
    have hrest := h.of_pass hfirst hl
    rwa [List.drop_left] at hrest
  · intro h
    refine .pass hfirst hl ?_
    rwa [List.drop_left]

/-- Ignored text changes nothing where no value is looked for. -/
theorem cuts_ignored (hvalue : Terminal.value ∉ accepts machine) (hg : Ignored g) :
    Cuts machine (g ++ cs) ts ↔ Cuts machine cs ts := by
  induction hg with
  | nil => rfl
  | @separator c g hc _ ih =>
    rw [List.cons_append, cuts_separator hc]
    exact ih
  | @comment k g hk _ ih =>
    rw [List.append_assoc, ← ih]
    cases hk with
    | @line body hbody =>
      have hlines : '-' :: '-' :: (body ++ ['\n']) ++ (g ++ cs) =
          '-' :: '-' :: body ++ '\n' :: (g ++ cs) := by simp
      have hall : ∀ c ∈ body, (c != '\n') = true := by
        intro c hc
        rw [bne_iff_ne]
        rintro rfl
        exact hbody hc
      have hextent : Lexeme.extent .lineComment ('-' :: '-' :: body ++ '\n' :: (g ++ cs)) =
          ('-' :: '-' :: body).length := by
        show 2 + ((body ++ '\n' :: (g ++ cs)).takeWhile (· != '\n')).length = body.length + 1 + 1
        rw [takeWhile_append_of_head hall (by simp)]
        omega
      have hchosen : Lexeme.chosen (accepts machine) ('-' :: '-' :: body ++ '\n' :: (g ++ cs)) =
          some .lineComment :=
        chosen_comment hvalue (.inl ⟨rfl, rfl⟩) (hextent ▸ Nat.succ_ne_zero _)
      rw [hlines, cuts_pass hchosen (by simp) hextent, cuts_separator (by decide)]
    | @block body hbody =>
      have hwhole : '/' :: '*' :: (body ++ ['*', '/']) ++ (g ++ cs) =
          '/' :: '*' :: (body ++ '*' :: '/' :: (g ++ cs)) := by simp
      have hextent : Lexeme.extent .blockComment
          ('/' :: '*' :: (body ++ ['*', '/']) ++ (g ++ cs)) =
            ('/' :: '*' :: (body ++ ['*', '/'])).length := by
        rw [hwhole]
        show ((blockCommentRest (body ++ '*' :: '/' :: (g ++ cs))).map (· + 2)).getD 0 = _
        rw [blockCommentRest_body hbody]
        simp
      have hchosen : Lexeme.chosen (accepts machine)
          ('/' :: '*' :: (body ++ ['*', '/']) ++ (g ++ cs)) = some .blockComment :=
        chosen_comment hvalue (.inr ⟨rfl, rfl⟩) (hextent ▸ Nat.succ_ne_zero _)
      exact cuts_pass hchosen (by simp) hextent

/-- Nothing that a text is cut into begins with a value where none is looked for. -/
theorem Cuts.not_value (h : Cuts machine cs ts) (hvalue : Terminal.value ∉ accepts machine) :
    ∀ u ∈ ts.head?, u.kind ≠ .value := by
  induction h with
  | done => simp
  | pass _ _ _ ih => exact ih hvalue
  | @token machine cs u n ts hfirst _ _ _ =>
    intro v hv hkind
    obtain rfl : u = v := by simpa using hv
    rw [hkind] at hfirst
    obtain ⟨l, hchosen, -, rfl | ⟨-, k, hk, -⟩⟩ := Lexeme.exists_chosen_of_first? hfirst
    · exact hvalue (by simpa [Lexeme.admitted] using (Lexeme.chosen_spec hchosen).2.1)
    · simp at hk

/-- No value is looked for where a text goes on with something else, or ends. -/
theorem Cuts.value_not_mem (h : Cuts machine cs ts) (hreached : isReached machine = true)
    (hts : ∀ u ∈ ts.head?, u.kind ≠ .value) : Terminal.value ∉ accepts machine := by
  intro hvalue
  have haccepts := Lexeme.accepts_eq_of_mem hreached (by decide) hvalue
  induction h with
  | done hfinished =>
    obtain ⟨rest, rfl, -⟩ := eq_of_mem_accepts hreached (by decide) hvalue
    simp [Stack.finished] at hfinished
  | pass _ _ _ ih => exact ih hreached hts hvalue haccepts
  | @token machine cs u n ts hfirst _ _ _ =>
    obtain ⟨l, hchosen, -, rfl | ⟨-, k, -, hk⟩⟩ := Lexeme.exists_chosen_of_first? hfirst
    · obtain ⟨-, hadmitted, -⟩ := Lexeme.chosen_spec hchosen
      rw [haccepts] at hadmitted
      exact hts u rfl (by simpa [Lexeme.admitted] using hadmitted)
    · simp [haccepts] at hk

end Ignored

/-- Remarks, each to the end of its line. -/
theorem ignored_remarks {lines : List (List Char)} (h : ∀ l ∈ lines, '\n' ∉ l) :
    Ignored (lines.flatMap fun l => '-' :: '-' :: (l ++ ['\n'])) := by
  induction lines with
  | nil => exact .nil
  | cons l lines ih =>
    obtain ⟨hl, hlines⟩ := List.forall_mem_cons.1 h
    exact .comment (.line hl) (ih hlines)

/-- A text of white space and comments has no statements, and no semicolon is missing in it. -/
theorem parse_of_ignored {source : String} (h : Ignored source.toList) (strict : Bool) :
    parse source strict = .ok [] := by
  have hvalue : Terminal.value ∉ accepts start := by decide +kernel
  have hend : Cuts start [] [] := .done (by decide)
  have hcuts : Cuts start source.toList [] := by
    have hall : Cuts start (source.toList ++ []) [] := (cuts_ignored hvalue h).2 hend
    rwa [List.append_nil] at hall
  obtain ⟨tokens, htokens, hsame⟩ := hcuts.exists_scan {} {}
  obtain rfl : tokens = [] := List.map_eq_nil_iff.1 hsame
  exact parse_eq_ok.2 ⟨[], htokens, rfl, fun _ => Nat.zero_le _⟩

/-! ## 2. A place between two tokens -/

/-- What is cut up to one of the tokens, and from there on. -/
theorem Placed.split {machine : List Stack} {here : Position} {cs : List Char}
    {before after : List Token} {t : Token} (h : Placed machine here cs (before ++ t :: after))
    (hreached : isReached machine = true) :
    ∃ z q machine', cs = z ++ (t.text.toList ++ q) ∧ t.position = here.advance z ∧
      Leads (t.text.toList ++ q) machine z before machine' ∧ isReached machine' = true ∧
      Lexeme.first? (accepts machine') (t.text.toList ++ q) =
        some (.token t.kind, t.text.toList.length) ∧
      Cuts (shift t.kind machine') q after := by
  generalize hts : before ++ t :: after = ts at h
  induction h generalizing before with
  | done => simp at hts
  | @pass machine here cs l n ts hfirst hl _ ih =>
    obtain ⟨z, q, machine', hrest, hposition, hleads, hreached', hagain, hcuts⟩ := ih hreached hts
    have hle := (Lexeme.extent_of_first? hfirst).2
    have hcs : cs = cs.take n ++ (z ++ (t.text.toList ++ q)) := by
      rw [← hrest, List.take_append_drop]
    refine ⟨cs.take n ++ z, q, machine', ?_, ?_, .pass ?_ hl hleads, hreached', hagain, hcuts⟩
    · rw [List.append_assoc]
      exact hcs
    · rw [hposition, Position.advance_append]
    · rw [← hcs, List.length_take, Nat.min_eq_left hle]
      exact hfirst
  | @token machine here cs u n ts hfirst htext hposition' hplaced ih =>
    have hle := (Lexeme.extent_of_first? hfirst).2
    cases before with
    | nil =>
      obtain ⟨rfl, rfl⟩ := List.cons.inj hts
      have htake : t.text.toList = cs.take n := by rw [htext, String.toList_ofList]
      refine ⟨[], cs.drop n, machine, ?_, hposition', .done, hreached, ?_,
        cuts_of_scan (hplaced.scan_eq here)⟩
      · rw [htake, List.nil_append, List.take_append_drop]
      · rw [htake, List.take_append_drop, List.length_take, Nat.min_eq_left hle]
        exact hfirst
    | cons v before =>
      obtain ⟨rfl, hafter⟩ := List.cons.inj hts
      obtain ⟨z, q, machine', hrest, hposition, hleads, hreached', hagain, hcuts⟩ :=
        ih (isReached_shift hreached v.kind) hafter
      have hcs : cs = cs.take n ++ (z ++ (t.text.toList ++ q)) := by
        rw [← hrest, List.take_append_drop]
      refine ⟨cs.take n ++ z, q, machine', ?_, ?_, .token ?_ htext hleads, hreached', hagain, hcuts⟩
      · rw [List.append_assoc]
        exact hcs
      · rw [hposition, Position.advance_append]
      · rw [← hcs, List.length_take, Nat.min_eq_left hle]
        exact hfirst

/-- Two texts, put together, are cut into tokens; the first one ends between two of them, or after
the last one, with ignored text at most after the token. -/
structure IsBoundary (a b : String) (before : List Token) (t : Token) (after : List Token) : Prop
    where
  tokens : tokenize (a ++ b) = .ok (before ++ t :: after)
  front : ∃ x g, a.toList = x ++ (t.text.toList ++ g) ∧ t.position = Position.advance {} x ∧
    Ignored g

/-- A boundary, and the machine there. -/
theorem IsBoundary.exists_leads {a b : String} {before after : List Token} {t : Token}
    (h : IsBoundary a b before t after) :
    ∃ x g machine, a.toList = x ++ (t.text.toList ++ g) ∧ Ignored g ∧
      Leads (t.text.toList ++ (g ++ b.toList)) start x before machine ∧
      isReached machine = true ∧
      Lexeme.first? (accepts machine) (t.text.toList ++ (g ++ b.toList)) =
        some (.token t.kind, t.text.toList.length) ∧
      Cuts (shift t.kind machine) (g ++ b.toList) after := by
  obtain ⟨x, g, ha, hx, hg⟩ := h.front
  have hcs : (a ++ b).toList = x ++ (t.text.toList ++ (g ++ b.toList)) := by
    simp [ha]
  obtain ⟨z, q, machine, hz, hposition, hleads, hreached, hfirst, hcuts⟩ :=
    (placed_of_scan h.tokens).split isReached_start
  have hwhole : x ++ (t.text.toList ++ (g ++ b.toList)) = z ++ (t.text.toList ++ q) :=
    hcs.symm.trans hz
  have hlength : x.length = z.length := by
    have hplaces : Position.advance {} ((a ++ b).toList.take x.length) =
        Position.advance {} ((a ++ b).toList.take z.length) := by
      nth_rewrite 1 [hcs]
      rw [hz, List.take_left, List.take_left, ← hx, hposition]
    refine Position.advance_take_inj ?_ ?_ hplaces
    · rw [hcs, List.length_append]
      exact Nat.le_add_right _ _
    · rw [hz, List.length_append]
      exact Nat.le_add_right _ _
  obtain ⟨rfl, htail⟩ := List.append_inj hwhole hlength
  obtain rfl := List.append_cancel_left htail
  exact ⟨x, g, machine, ha, hg, hleads, hreached, hfirst, hcuts⟩

/-! ## 3. A comment at the boundary -/

/-- A closing mark in a text ends a block comment. -/
theorem blockCommentRest_ne_none : ∀ {cs : List Char}, ['*', '/'] <:+: cs →
    blockCommentRest cs ≠ none
  | [], h => by simp at h
  | [c], h => by simpa using h.length_le
  | c :: d :: cs, h => by
    rw [blockCommentRest]
    split
    · simp
    · next hnot =>
      rcases List.infix_cons_iff.1 h with hfront | hlater
      · simp only [List.cons_prefix_cons, List.nil_prefix, and_true] at hfront
        simp [← hfront.1, ← hfront.2] at hnot
      · simpa using blockCommentRest_ne_none hlater

/-- A closing mark does not go across another character. -/
theorem infix_append_cons {c : Char} (hc : c ≠ '*' ∧ c ≠ '/') {xs ys : List Char}
    (h : ['*', '/'] <:+: xs ++ c :: ys) : ['*', '/'] <:+: xs ∨ ['*', '/'] <:+: ys := by
  induction xs with
  | nil =>
    rcases List.infix_cons_iff.1 h with hfront | hlater
    · exact absurd (List.cons_prefix_cons.1 hfront).1.symm hc.1
    · exact .inr hlater
  | cons x xs ih =>
    rcases List.infix_cons_iff.1 h with hfront | hlater
    · obtain ⟨rfl, hsecond⟩ := List.cons_prefix_cons.1 hfront
      cases xs with
      | nil => exact absurd (List.cons_prefix_cons.1 hsecond).1.symm hc.2
      | cons e xs =>
        obtain ⟨rfl, -⟩ := List.cons_prefix_cons.1 hsecond
        exact .inl ⟨[], xs, rfl⟩
    · exact (ih hlater).imp_left fun hin => hin.trans (List.suffix_cons x xs).isInfix

namespace IsSetOff

variable {w g r : List Char}

theorem exists_ends (h : IsSetOff w) :
    ∃ c m d, w = c :: (m ++ [d]) ∧ isSeparator c = true ∧ isSeparator d = true := by
  obtain ⟨s, k, s', rfl, hs, hs', hall, -⟩ := h
  obtain ⟨c, s, rfl⟩ := List.exists_cons_of_ne_nil hs
  obtain ⟨s', d, rfl⟩ := (List.eq_nil_or_concat' s').resolve_left hs'
  exact ⟨c, s ++ (k ++ s'), d, by simp, hall c (by simp), hall d (by simp)⟩

/-- A comment that holds no closing mark closes nothing that is open before it. -/
theorem blockCommentRest_append (h : IsSetOff w) (hclosed : ¬['*', '/'] <:+: w) {p b : List Char}
    (hopen : blockCommentRest (p ++ b) = none) : blockCommentRest (p ++ (w ++ b)) = none := by
  have hapart : ∀ c, isSeparator c = true → c ≠ '*' ∧ c ≠ '/' := by
    intro c hc
    constructor
    · rintro rfl
      simp [isSeparator] at hc
    · rintro rfl
      simp [isSeparator] at hc
  have hboth : ¬['*', '/'] <:+: p ++ b := fun hin => blockCommentRest_ne_none hin hopen
  obtain ⟨c, m, d, rfl, hc, hd⟩ := h.exists_ends
  by_contra hsome
  have hin : ['*', '/'] <:+: p ++ c :: (m ++ d :: b) := by
    simpa using infix_of_blockCommentRest hsome
  rcases infix_append_cons (hapart c hc) hin with hp | hrest
  · exact hboth (hp.trans (List.prefix_append p b).isInfix)
  · rcases infix_append_cons (hapart d hd) hrest with hm | hb
    · exact hclosed (hm.trans ⟨[c], [d], by simp⟩)
    · exact hboth (hb.trans (List.suffix_append p b).isInfix)

end IsSetOff

theorem IsComment.opensComment_dropWhile {f : Char → Bool} (hmarks : f '-' = false ∧ f '/' = false)
    {k r : List Char} (h : IsComment k) : opensComment ((k ++ r).dropWhile f) = true := by
  cases h with
  | line => simp [opensComment, hmarks.1]
  | block => simp [opensComment, hmarks.2]

section Drop

variable {f : Char → Bool} (hf : ∀ c, isSeparator c = true → f c = true)
  (hmarks : f '-' = false ∧ f '/' = false)

include hf hmarks

/-- White space aside, a comment is the first thing in ignored text that a comment comes after. -/
theorem Ignored.opensComment_dropWhile {g cs : List Char} (hg : Ignored g)
    (hcs : opensComment (cs.dropWhile f) = true) :
    opensComment ((g ++ cs).dropWhile f) = true := by
  induction hg with
  | nil => exact hcs
  | separator hc _ ih =>
    rw [List.cons_append, List.dropWhile_cons_of_pos (hf _ hc)]
    exact ih
  | comment hk _ _ =>
    rw [List.append_assoc]
    exact hk.opensComment_dropWhile hmarks

theorem IsSetOff.opensComment_dropWhile {w g r : List Char} (h : IsSetOff w) (hg : Ignored g) :
    opensComment ((g ++ (w ++ r)).dropWhile f) = true := by
  obtain ⟨s, k, s', rfl, -, -, hall, hk⟩ := h
  refine hg.opensComment_dropWhile hf hmarks ?_
  have hs : ∀ c ∈ s, f c = true := fun c hc => hf c (hall c (List.mem_append_left _ hc))
  rw [List.append_assoc, List.append_assoc, List.dropWhile_append_of_pos hs]
  exact hk.opensComment_dropWhile hmarks

end Drop

/-- A comment sets off what stands before it. -/
theorem IsSetOff.setsOff {w g r : List Char} (h : IsSetOff w) (hg : Ignored g) :
    SetsOff (g ++ r) (g ++ (w ++ r)) where
  front := by
    cases hg with
    | nil =>
      obtain ⟨c, m, d, rfl, hc, -⟩ := h.exists_ends
      exact ⟨c, m ++ [d] ++ r, by simp, .inl hc⟩
    | @separator c g hc _ => exact ⟨c, g ++ (w ++ r), rfl, .inl hc⟩
    | @comment k g hk _ =>
      cases hk with
      | @line body _ =>
        exact ⟨'-', '-' :: (body ++ ['\n'] ++ g ++ (w ++ r)), by simp, .inr ⟨.inl rfl, rfl⟩⟩
      | @block body _ =>
        exact ⟨'/', '*' :: (body ++ ['*', '/'] ++ g ++ (w ++ r)), by simp, .inr ⟨.inr rfl, rfl⟩⟩
  comment := h.opensComment_dropWhile (fun _ => isBlank_of_isSeparator) ⟨rfl, rfl⟩ hg

section Boundary

variable {a b w : String} {before after : List Token} {t : Token}

/-- The tokens before a boundary are found again when a comment is put there, and so is the one right
before it, unless that is a media query. -/
theorem IsBoundary.exists_leads_commented (h : IsBoundary a b before t after)
    (hw : IsSetOff w.toList)
    (hclosed : (∀ v ∈ before, v.kind = .media → ¬['/', '*'] <+: v.text.toList) ∨
      ¬['*', '/'] <:+: w.toList) :
    ∃ x g machine, (a ++ w ++ b).toList = x ++ (t.text.toList ++ (g ++ (w.toList ++ b.toList))) ∧
      Ignored g ∧ isReached machine = true ∧
      Leads (t.text.toList ++ (g ++ (w.toList ++ b.toList))) start x before machine ∧
      Lexeme.first? (accepts machine) (t.text.toList ++ (g ++ b.toList)) =
        some (.token t.kind, t.text.toList.length) ∧
      (t.kind ≠ .media →
        Lexeme.first? (accepts machine) (t.text.toList ++ (g ++ (w.toList ++ b.toList))) =
          some (.token t.kind, t.text.toList.length)) ∧
      Cuts (shift t.kind machine) (g ++ b.toList) after := by
  obtain ⟨x, g, machine, ha, hg, hleads, hreached, hfirst, hcuts⟩ := h.exists_leads
  have hoff : SetsOff (g ++ b.toList) (g ++ (w.toList ++ b.toList)) := hw.setsOff hg
  have hagain : Leads (t.text.toList ++ (g ++ (w.toList ++ b.toList))) start x before machine := by
    refine hleads.exchange hoff hfirst isReached_start (hclosed.imp_right fun hclosed p hp => ?_)
    rw [← List.append_assoc] at hp ⊢
    exact hw.blockCommentRest_append hclosed hp
  refine ⟨x, g, machine, by simp [ha], hg, hreached, hagain, hfirst, fun hkind => ?_, hcuts⟩
  refine first?_exchange (y := []) hreached rfl hoff hfirst (fun _ => ⟨t.kind, rfl, hkind⟩)
    (fun hvalue => ?_) fun hmedia => absurd (Lexeme.token.inj hmedia) hkind
  rw [Lexeme.token.inj hvalue] at hfirst
  obtain ⟨hne, hextent⟩ := extent_of_first?_alone (by decide) hfirst
  have hends : pieceExtent (g ++ b.toList) = 0 ∧ nextWordExtent (g ++ b.toList) = 0 :=
    Terminal.ends_of_extent (t := .value) hne hextent
  exact ⟨hoff.pieceExtent_eq_zero hends.1, hoff.nextWordExtent_eq_zero⟩

/-- Places aside, the tokens are found again when a comment is put where it is looked for. -/
theorem IsBoundary.exists_tokenize_commented (h : IsBoundary a b before t after)
    (hw : IsSetOff w.toList)
    (hclosed : (∀ v ∈ before, v.kind = .media → ¬['/', '*'] <+: v.text.toList) ∨
      ¬['*', '/'] <:+: w.toList)
    (hkind : t.kind ≠ .media) (hafter : ∀ u ∈ after.head?, u.kind ≠ .value) :
    ∃ vs, tokenize (a ++ w ++ b) = .ok vs ∧
      vs.map Token.unplaced = (before ++ t :: after).map Token.unplaced := by
  obtain ⟨x, g, machine, hwhole, hg, hreached, hleads, -, hfirst, hcuts⟩ :=
    h.exists_leads_commented hw hclosed
  have hvalue : Terminal.value ∉ accepts (shift t.kind machine) :=
    hcuts.value_not_mem (isReached_shift hreached t.kind) hafter
  have hrest : Cuts (shift t.kind machine) (g ++ (w.toList ++ b.toList)) after := by
    rw [cuts_ignored hvalue hg, cuts_ignored hvalue hw.ignored]
    exact (cuts_ignored hvalue hg).1 hcuts
  have hall : Cuts start (a ++ w ++ b).toList (before ++ t :: after) := by
    rw [hwhole]
    refine hleads.cuts (.token (hfirst hkind) ?_ ?_)
    · rw [List.take_left, String.ofList_toList]
    · rw [List.drop_left]
      exact hrest
  exact hall.exists_scan {} {}

end Boundary

/-! ## 4. Where no comment is looked for -/

/-- A media query goes on into a comment that is put after it. -/
theorem media_goes_on {machine : List Stack} {x g w b : List Char}
    (hreached : isReached machine = true) (hg : Ignored g) (hw : IsSetOff w)
    (hfirst : Lexeme.first? (accepts machine) (x ++ (g ++ b)) = some (.token .media, x.length))
    (hclosed : ¬['/', '*'] <+: x ∨ ¬['*', '/'] <:+: w) :
    ∃ n, Lexeme.first? (accepts machine) (x ++ (g ++ (w ++ b))) = some (.token .media, n) ∧
      x.length < n ∧ n ≤ (x ++ (g ++ (w ++ b))).length := by
  obtain ⟨hx, hextent⟩ := extent_of_first?_alone (by decide) hfirst
  obtain ⟨hall, hend⟩ := takeWhile_eq_of_length hextent
  obtain rfl : g = [] := by
    have hhead : ∀ c r, g = c :: r → c = ';' := by
      rintro c r rfl
      simpa using hend c rfl
    cases hg with
    | nil => rfl
    | @separator c g hc _ =>
      rw [hhead c g rfl] at hc
      simp [isSeparator] at hc
    | comment hk _ =>
      cases hk with
      | line => exact absurd (hhead _ _ rfl) (by decide)
      | block => exact absurd (hhead _ _ rfl) (by decide)
  simp only [List.nil_append] at hfirst hextent ⊢
  have hoff : SetsOff b (w ++ b) := hw.setsOff .nil
  obtain ⟨c, m, d, hcut, hc, -⟩ := hw.exists_ends
  -- the query takes the first character of the comment's surroundings with it
  have hlonger : x.length < mediaExtent (x ++ (w ++ b)) := by
    have hne : (c != ';') = true := by
      rw [bne_iff_ne]
      rintro rfl
      simp [isSeparator] at hc
    rw [mediaExtent, List.takeWhile_append_of_pos hall, hcut, List.cons_append,
      List.takeWhile_cons, if_pos hne]
    simp
  have hcomment : blockCommentExtent (x ++ b) = 0 → blockCommentExtent (x ++ (w ++ b)) = 0 := by
    intro hzero
    by_contra hne
    obtain ⟨ds, hds⟩ := exists_of_blockCommentExtent hne
    rcases x with _ | ⟨e, _ | ⟨f, xs⟩⟩
    · exact absurd rfl hx
    · rw [hcut] at hds
      simp only [List.cons_append, List.nil_append, List.cons.injEq] at hds
      rw [hds.2.1] at hc
      simp [isSeparator] at hc
    · simp only [List.cons_append, List.cons.injEq] at hds
      obtain ⟨rfl, rfl, -⟩ := hds
      refine hclosed.elim (fun hopen => hopen ⟨xs, rfl⟩) fun hclosed => ?_
      have hnone : blockCommentRest (xs ++ b) = none := by
        by_contra hsome
        obtain ⟨n, hn⟩ := Option.ne_none_iff_exists'.1 hsome
        simp [blockCommentExtent, hn] at hzero
      simp [blockCommentExtent, hw.blockCommentRest_append hclosed hnone] at hne
  have hchosen : Lexeme.chosen (accepts machine) (x ++ b) = some (.token .media) := by
    obtain ⟨l, hchosen, -, rfl | ⟨-, k, hk, -⟩⟩ := Lexeme.exists_chosen_of_first? hfirst
    · exact hchosen
    · simp at hk
  have hmember : Terminal.media ∈ accepts machine := by
    simpa [Lexeme.admitted] using (Lexeme.chosen_spec hchosen).2.1
  have haccepts := Lexeme.accepts_eq_of_mem hreached (by decide) hmember
  have hagain : Lexeme.chosen (accepts machine) (x ++ (w ++ b)) = some (.token .media) := by
    obtain ⟨-, before, after, horder, hbefore⟩ := List.find?_eq_some_iff_append.1 hchosen
    refine List.find?_eq_some_iff_append.2 ⟨?_, before, after, horder, fun l hl => ?_⟩
    · rw [haccepts]
      have hne : mediaExtent (x ++ (w ++ b)) ≠ 0 := by omega
      simpa [Lexeme.admitted, Lexeme.extent, Terminal.extent] using hne
    · have hfails := hbefore l hl
      cases hadmitted : l.admitted (accepts machine) with
      | false => rfl
      | true =>
        have hzero : l.extent (x ++ b) = 0 := by
          simpa [hadmitted] using hfails
        have hagain := extent_eq_zero_exchange hreached (by simp [haccepts]) hx hoff hchosen
          (fun _ => hcomment) (horder ▸ List.mem_append_left _ hl) hadmitted hzero
        rw [hagain]
        rfl
  refine ⟨mediaExtent (x ++ (w ++ b)), ?_, hlonger, Terminal.extent_le_length .media _⟩
  rw [Lexeme.first?_eq, hagain]
  rfl

/-- A value that begins where a comment might is read from the mark of the comment on. -/
theorem Cuts.opensComment_text {machine : List Stack} {cs : List Char} {u : Token} {us : List Token}
    (h : Cuts machine cs (u :: us)) (haccepts : accepts machine = [.value])
    (hcs : opensComment (cs.dropWhile isSeparator) = true) :
    opensComment u.text.toList = true := by
  rw [← cuts_dropWhile_isSeparator] at h
  generalize cs.dropWhile isSeparator = cs at h hcs
  have hmarks : ∀ e f ds, pieceExtent (e :: f :: ds) = 1 → pieceExtent (f :: ds) = 1 →
      opensComment [e, f] = true → cs = e :: f :: ds →
      opensComment u.text.toList = true := by
    rintro e f ds he hf hopens rfl
    have hword : wordExtent (e :: f :: ds) = 1 + (1 + covered pieceExtent ds) := by
      rw [wordExtent, covered_of_ne_zero pieceExtent_le_length (by simp [he]), he, List.drop_one,
        List.tail_cons, covered_of_ne_zero pieceExtent_le_length (by simp [hf]), hf,
        List.drop_one, List.tail_cons]
    have hvalue : 2 ≤ valueExtent (e :: f :: ds) := by
      rw [valueExtent_eq, hword, if_neg (by omega)]
      omega
    have hfirst : Lexeme.first? (accepts machine) (e :: f :: ds) =
        some (.token .value, valueExtent (e :: f :: ds)) := by
      rw [Lexeme.first?_eq, Lexeme.chosen_value haccepts (by omega)]
      rfl
    obtain ⟨v, vs, hv, -, htext, -⟩ := h.exists_token hfirst
    obtain ⟨rfl, rfl⟩ := List.cons.inj hv
    obtain ⟨n, hn⟩ := Nat.exists_eq_add_of_le' hvalue
    rw [htext, String.toList_ofList, hn]
    rw [opensComment] at hopens ⊢
    simpa [List.isPrefixOf] using hopens
  rcases cs with _ | ⟨c, _ | ⟨d, ds⟩⟩
  · simp [opensComment] at hcs
  · simp [opensComment, List.isPrefixOf] at hcs
  · have hboth : '-' = c ∧ '-' = d ∨ '/' = c ∧ '*' = d := by
      simpa [opensComment, List.isPrefixOf] using hcs
    rcases hboth with ⟨rfl, rfl⟩ | ⟨rfl, rfl⟩
    · exact hmarks _ _ ds rfl rfl (by decide) rfl
    · exact hmarks _ _ ds rfl rfl (by decide) rfl

/-- Where a comment is not looked for, the tokens are not those of the text as it was. -/
theorem IsBoundary.looksForComment {a b w : String} {before after vs : List Token} {t : Token}
    (h : IsBoundary a b before t after) (hw : IsSetOff w.toList)
    (hclosed : (∀ v ∈ before ++ [t], v.kind = .media → ¬['/', '*'] <+: v.text.toList) ∨
      ¬['*', '/'] <:+: w.toList)
    (hvalue : ∀ u ∈ after.head?, u.kind = .value → opensComment u.text.toList = false)
    (hvs : tokenize (a ++ w ++ b) = .ok vs)
    (hsame : vs.map Token.unplaced = (before ++ t :: after).map Token.unplaced) :
    t.kind ≠ .media ∧ ∀ u ∈ after.head?, u.kind ≠ .value := by
  obtain ⟨x, g, machine, hwhole, hg, hreached, hleads, hfirst, hagain, hcuts⟩ :=
    h.exists_leads_commented hw
      (hclosed.imp_left fun hopen v hv => hopen v (List.mem_append_left _ hv))
  have hcuts' := cuts_of_scan hvs
  rw [hwhole] at hcuts'
  obtain ⟨us, hus, hall⟩ := hleads.exists_rest hcuts'
  have htail : us.map Token.unplaced = (t :: after).map Token.unplaced := by
    rw [hsame, List.map_append] at hall
    exact (List.append_cancel_left hall).symm
  obtain ⟨t', us', rfl⟩ : ∃ t' us', us = t' :: us' := by
    cases us with
    | nil => simp at htail
    | cons t' us' => exact ⟨t', us', rfl⟩
  obtain ⟨hfront, hrest⟩ := List.cons.inj htail
  have hkind : t.kind ≠ .media := by
    intro hmedia
    rw [hmedia] at hfirst
    obtain ⟨n, hlonger, hlt, hle⟩ := media_goes_on hreached hg hw hfirst
      (hclosed.imp_left fun hopen => hopen t (by simp) hmedia)
    obtain ⟨v, vs', hv, -, htext, -⟩ := hus.exists_token hlonger
    obtain ⟨rfl, rfl⟩ := List.cons.inj hv
    have hlength := congrArg (fun u : Token => u.text.toList.length) hfront
    simp only [Token.unplaced, htext, String.toList_ofList, List.length_take] at hlength
    omega
  refine ⟨hkind, fun u hu hvalue' => ?_⟩
  obtain ⟨after', rfl⟩ : ∃ after', after = u :: after' := List.head?_eq_some_iff.1 hu
  obtain ⟨v, vs', hv, -, -, hlater⟩ := hus.exists_token (hagain hkind)
  obtain ⟨rfl, rfl⟩ := List.cons.inj hv
  rw [List.drop_left] at hlater
  -- a value comes next, so the machine looks for nothing else
  have haccepts : accepts (shift t.kind machine) = [.value] := by
    refine Lexeme.accepts_eq_of_mem (isReached_shift hreached t.kind) (by decide) ?_
    by_contra hnot
    exact hcuts.not_value hnot u rfl hvalue'
  obtain ⟨u', us'', rfl⟩ : ∃ u' us'', us' = u' :: us'' := by
    cases us' with
    | nil => simp at hrest
    | cons u' us'' => exact ⟨u', us'', rfl⟩
  have hopens : opensComment u'.text.toList = true := hlater.opensComment_text haccepts
    (hw.opensComment_dropWhile (fun _ => id) ⟨rfl, rfl⟩ hg)
  have hplain : u'.unplaced = u.unplaced := (List.cons.inj hrest).1
  have htext : u'.text = u.text := (Token.mk.inj hplain).2.1
  rw [htext, hvalue u rfl hvalue'] at hopens
  exact absurd hopens (by decide)

/-! ## 5. Statements -/

/-- A comment with white space around it is put between two tokens, or after the last one. The
statements stay as they are, unless it comes right after a media query or where a value is to begin;
there the tokens change. (Nothing is said of a block comment that closes one which a media query
further in front begins to open, nor of what becomes of a value that itself begins with the mark of a
comment.) -/
theorem parse_commented {a b w : String} {before after : List Token} {t : Token} {strict : Bool}
    {ss : List Statement} (hss : parse (a ++ b) strict = .ok ss) (h : IsBoundary a b before t after)
    (hw : IsSetOff w.toList)
    (hclosed : (∀ v ∈ before ++ [t], v.kind = .media → ¬['/', '*'] <+: v.text.toList) ∨
      ¬['*', '/'] <:+: w.toList) :
    (t.kind ≠ .media → (∀ u ∈ after.head?, u.kind ≠ .value) →
      parse (a ++ w ++ b) strict = .ok ss) ∧
    ((∀ u ∈ after.head?, u.kind = .value → opensComment u.text.toList = false) →
      ((∃ vs, tokenize (a ++ w ++ b) = .ok vs ∧
          vs.map Token.unplaced = (before ++ t :: after).map Token.unplaced) ↔
        t.kind ≠ .media ∧ ∀ u ∈ after.head?, u.kind ≠ .value)) := by
  have hclosed' : (∀ v ∈ before, v.kind = .media → ¬['/', '*'] <+: v.text.toList) ∨
      ¬['*', '/'] <:+: w.toList :=
    hclosed.imp_left fun hopen v hv => hopen v (List.mem_append_left _ hv)
  obtain ⟨ts, hts, hmade, hcount⟩ := parse_eq_ok.1 hss
  obtain rfl := Except.ok.inj (h.tokens.symm.trans hts)
  refine ⟨fun hkind hafter => ?_, fun hvalue => ⟨?_, fun hlooks => ?_⟩⟩
  · obtain ⟨vs, hvs, hsame⟩ := h.exists_tokenize_commented hw hclosed' hkind hafter
    refine parse_eq_ok.2 ⟨vs, hvs, statementsOf_unplaced hmade hsame, fun hstrict => ?_⟩
    rw [← semicolons_map_unplaced, hsame, semicolons_map_unplaced]
    exact hcount hstrict
  · rintro ⟨vs, hvs, hsame⟩
    exact h.looksForComment hw hclosed hvalue hvs hsame
  · exact h.exists_tokenize_commented hw hclosed' hlooks.1 hlooks.2

/-- A comment right after a value, with a mark of its own in front of it and behind it. -/
theorem parse_commented_value : ∃ before t after ss,
    parse ("CREATE TOKEN 'a' VALUE 1px" ++ ";") true = .ok ss ∧ ss.length = 1 ∧
    IsBoundary "CREATE TOKEN 'a' VALUE 1px" ";" before t after ∧
    IsSetOff " /* ; -- */ ".toList ∧
    ((∀ v ∈ before ++ [t], v.kind = .media → ¬['/', '*'] <+: v.text.toList) ∨
      ¬['*', '/'] <:+: " /* ; -- */ ".toList) ∧
    (t.kind ≠ .media → (∀ u ∈ after.head?, u.kind ≠ .value) →
      parse ("CREATE TOKEN 'a' VALUE 1px" ++ " /* ; -- */ " ++ ";") true = .ok ss) ∧
    ((∀ u ∈ after.head?, u.kind = .value → opensComment u.text.toList = false) →
      ((∃ vs, tokenize ("CREATE TOKEN 'a' VALUE 1px" ++ " /* ; -- */ " ++ ";") = .ok vs ∧
          vs.map Token.unplaced = (before ++ t :: after).map Token.unplaced) ↔
        t.kind ≠ .media ∧ ∀ u ∈ after.head?, u.kind ≠ .value)) := by
  obtain ⟨ss, hss, hone⟩ := exists_ok_of_any (p := fun ss => ss.length == 1)
    (x := parse ("CREATE TOKEN 'a' VALUE 1px" ++ ";") true)
    (by
      rw [← String.ofList_append, parse_ofList]
      decide +kernel)
  have hboundary : IsBoundary "CREATE TOKEN 'a' VALUE 1px" ";"
      [⟨.word .create, "CREATE", {}, by decide⟩, ⟨.word .token, "TOKEN", ⟨1, 8⟩, by decide⟩,
        ⟨.quoted, "'a'", ⟨1, 14⟩, by decide⟩, ⟨.word .value, "VALUE", ⟨1, 18⟩, by decide⟩]
      ⟨.value, "1px", ⟨1, 24⟩, by decide⟩ [⟨.mark ';', ";", ⟨1, 27⟩, by decide⟩] :=
    { tokens := by
        rw [← String.ofList_append, tokenize_ofList]
        decide +kernel
      front := ⟨"CREATE TOKEN 'a' VALUE ".toList, [], by decide +kernel, by decide +kernel, .nil⟩ }
  have hsetOff : IsSetOff " /* ; -- */ ".toList :=
    ⟨[' '], "/* ; -- */".toList, [' '], by decide +kernel, by decide, by decide,
      List.all_eq_true.1 (by decide), .block (show ¬['*', '/'] <:+: " ; -- ".toList by decide +kernel)⟩
  have hclosed : ∀ v ∈ [(⟨.word .create, "CREATE", {}, by decide⟩ : Token),
      ⟨.word .token, "TOKEN", ⟨1, 8⟩, by decide⟩, ⟨.quoted, "'a'", ⟨1, 14⟩, by decide⟩,
      ⟨.word .value, "VALUE", ⟨1, 18⟩, by decide⟩] ++ [⟨.value, "1px", ⟨1, 24⟩, by decide⟩],
      v.kind = .media → ¬['/', '*'] <+: v.text.toList := by
    decide +kernel
  exact ⟨_, _, _, ss, hss, by simpa using hone, hboundary, hsetOff, .inl hclosed,
    parse_commented hss hboundary hsetOff (.inl hclosed)⟩

/-- The value of the token that a text creates, if this is all it does. -/
def tokenValue? : List Statement → Option String
  | [.createToken _ value] => some value
  | _ => none

/-- A comment where a value is to begin becomes a part of the value. -/
theorem not_parse_commented : ¬∀ (a b w : String) (before after : List Token) (t u : Token)
    (ss : List Statement), parse (a ++ b) false = .ok ss → IsBoundary a b before t (u :: after) →
      IsSetOff w.toList → parse (a ++ w ++ b) false = .ok ss := by
  intro h
  obtain ⟨ss, hss, hplain⟩ := exists_ok_of_any (p := fun ss => tokenValue? ss == some "1px")
    (x := parse ("CREATE TOKEN 'a' VALUE " ++ "1px;") false)
    (by
      rw [← String.ofList_append, parse_ofList]
      decide +kernel)
  obtain ⟨vs, hvs, hcommented⟩ := exists_ok_of_any
    (p := fun ss => tokenValue? ss == some "/* c */ 1px")
    (x := parse ("CREATE TOKEN 'a' VALUE " ++ " /* c */ " ++ "1px;") false)
    (by
      rw [← String.ofList_append, ← String.ofList_append, parse_ofList]
      decide +kernel)
  have hboundary : IsBoundary "CREATE TOKEN 'a' VALUE " "1px;"
      [⟨.word .create, "CREATE", {}, by decide⟩, ⟨.word .token, "TOKEN", ⟨1, 8⟩, by decide⟩,
        ⟨.quoted, "'a'", ⟨1, 14⟩, by decide⟩]
      ⟨.word .value, "VALUE", ⟨1, 18⟩, by decide⟩
      [⟨.value, "1px", ⟨1, 24⟩, by decide⟩, ⟨.mark ';', ";", ⟨1, 27⟩, by decide⟩] :=
    { tokens := by
        rw [← String.ofList_append, tokenize_ofList]
        decide +kernel
      front := ⟨"CREATE TOKEN 'a' ".toList, [' '], by decide +kernel, by decide +kernel,
        .separator (by decide) .nil⟩ }
  have hsetOff : IsSetOff " /* c */ ".toList :=
    ⟨[' '], "/* c */".toList, [' '], by decide +kernel, by decide, by decide,
      List.all_eq_true.1 (by decide), .block (show ¬['*', '/'] <:+: " c ".toList by decide +kernel)⟩
  obtain rfl := Except.ok.inj (hvs.symm.trans (h _ _ _ _ _ _ _ ss hss hboundary hsetOff))
  rw [beq_iff_eq] at hplain hcommented
  exact absurd (hplain.symm.trans hcommented) (by decide)

end StyleLedger.Source
