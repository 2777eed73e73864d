import StyleLedger.Proofs.Source.Drawn
import StyleLedger.Proofs.Source.Evaluation

/-!
What it means to insist on semicolons.

Semicolons are insisted on by counting: there must be as many as there are statements. The count says
something about each statement by itself, because every statement takes one semicolon at most and
ends with it (`closes_iff`), and all but three kinds of statements take one (`statement_draws`). What
stands inside quotes, comments, brackets, values or media queries is no token of its own, so it is
never counted.

* `parse_strict_iff` — a text is refused for its semicolons exactly when one of the statements that
  may stay open does.
-/

namespace StyleLedger.Source

open Outcome Reading

/-- Tokens that end with a semicolon. -/
def Closes (own : List Token) : Prop :=
  ∃ t ∈ own.getLast?, t.kind = .mark ';'

/-- The tokens are those of some statements, one after another. Each statement stands beside the
tokens it is read off, its own semicolon among them if it has one. -/
inductive Written : List Token → List (List Token × Statement) → Prop
  | nil : Written [] []
  | cons {own left : List Token} {d : Draft} {s : Statement} {parts : List (List Token × Statement)}
      (read : statement (own ++ left) = some (d, left)) (makes : d.toStatement = .ok s)
      (rest : Written left parts) : Written (own ++ left) ((own, s) :: parts)

section Statement

variable {own left : List Token} {d : Draft}

theorem semicolons_append (ts us : List Token) :
    semicolons (ts ++ us) = semicolons ts + semicolons us :=
  List.countP_append

/-- The semicolon of a statement is its last token, so it has one at most. -/
theorem closes_iff (h : statement (own ++ left) = some (d, left)) :
    (Closes own ↔ semicolons own = 1) ∧ semicolons own ≤ 1 := by
  have hspent := (spends_statement h).2.2
  rw [semicolons_append] at hspent
  refine ⟨⟨fun hcloses => ?_, fun hone => ?_⟩, by omega⟩
  · obtain ⟨t, ht, hkind⟩ := hcloses
    have hpos : 0 < semicolons own :=
      List.countP_pos_iff.2 ⟨t, List.mem_of_getLast? ht, by simpa using hkind⟩
    omega
  · have hne : own ≠ [] := by
      rintro rfl
      simp [semicolons] at hone
    have hlast := Chain.endsClosed_of_statement h (by omega)
    exact ⟨own.getLast hne, List.getLast?_eq_some_getLast hne,
      hlast _ (List.getLast?_eq_some_getLast hne)⟩

theorem mayStayOpen_toStatement {s : Statement} (h : d.toStatement = .ok s) :
    d.mayStayOpen = s.mayStayOpen := by
  cases d with
  | ready s' =>
    obtain rfl := Except.ok.inj h
    rfl
  | selector name term =>
    simp only [Draft.toStatement, bind_eq_ok, pure_eq_ok] at h
    obtain ⟨definition, -, rfl⟩ := h
    rfl

/-- A statement that may not stay open is closed. -/
theorem closes_of_mayStayOpen {s : Statement} (h : statement (own ++ left) = some (d, left))
    (hd : d.toStatement = .ok s) (hopen : s.mayStayOpen = false) : Closes own := by
  obtain ⟨-, hends, -⟩ := statement_draws (own ++ left) _ d left (List.suffix_refl _) h
  rw [mayStayOpen_toStatement hd, hopen, semicolons_append] at hends
  have hpos : semicolons left < semicolons own + semicolons left := hends.resolve_left (by simp)
  obtain ⟨hcloses, hle⟩ := closes_iff h
  exact hcloses.2 (by omega)

end Statement

namespace Written

variable {tokens : List Token} {parts : List (List Token × Statement)}

theorem semicolons_le (h : Written tokens parts) : semicolons tokens ≤ parts.length := by
  induction h with
  | nil => simp [semicolons]
  | cons hread _ _ ih =>
    have := (closes_iff hread).2
    rw [semicolons_append, List.length_cons]
    omega

/-- There are as many semicolons as statements when every statement that may stay open is closed. -/
theorem length_le_semicolons_iff (h : Written tokens parts) :
    parts.length ≤ semicolons tokens ↔ ∀ p ∈ parts, p.2.mayStayOpen = true → Closes p.1 := by
  induction h with
  | nil => simp
  | @cons own left d s parts hread hmakes hrest ih =>
    obtain ⟨hcloses, hle⟩ := closes_iff hread
    have hmore := hrest.semicolons_le
    have hcloses' : (s.mayStayOpen = true → Closes own) ↔ semicolons own = 1 := by
      cases hopen : s.mayStayOpen with
      | true => simpa using hcloses
      | false => simpa using hcloses.1 (closes_of_mayStayOpen hread hmakes hopen)
    rw [List.forall_mem_cons, ← ih, hcloses', semicolons_append, List.length_cons]
    omega

theorem of_chain {ts : List Token} {ds : List Draft} {ss : List Statement} (h : Chain ts ds)
    (hss : List.Forall₂ (fun d s => d.toStatement = .ok s) ds ss) :
    ∃ parts, Written ts parts ∧ parts.map Prod.snd = ss := by
  induction h generalizing ss with
  | nil =>
    obtain rfl := List.forall₂_nil_left_iff.1 hss
    exact ⟨[], .nil, rfl⟩
  | cons hfirst _ ih =>
    obtain ⟨s, ss', hs, hrest, rfl⟩ := List.forall₂_cons_left_iff.1 hss
    obtain ⟨parts, hparts, rfl⟩ := ih hrest
    obtain ⟨own, rfl⟩ := (spends_statement hfirst).1
    exact ⟨(own, s) :: parts, .cons hfirst hs hparts, rfl⟩

end Written

/-- Semicolons that are too few are the last thing that is found wrong. -/
theorem parse_strict_eq {source : String} {tokens : List Token} {ss : List Statement}
    (htokens : tokenize source = .ok tokens) (hss : statementsOf tokens = .ok ss) :
    parse source true =
      if semicolons tokens < ss.length then .error (.semicolons ss.length (semicolons tokens))
      else .ok ss := by
  have hparse : parse source true =
      (checkSemicolons (semicolons tokens) ss.length).bind fun _ => .ok ss := by
    simp only [parse, htokens, Except.mapError, if_true]
    show (statementsOf tokens).bind _ = _
    rw [hss]
    rfl
  rw [hparse, checkSemicolons]
  by_cases hlt : semicolons tokens < ss.length
  · rw [if_pos (by exact_mod_cast hlt), if_pos hlt]
    rfl
  · rw [if_neg (by exact_mod_cast hlt), if_neg hlt]
    rfl

/-- The semicolons of a source text never outnumber its statements. Where semicolons are insisted on,
the text is refused for them exactly when one of the statements that may stay open (a raw text, a
query or a request for a description) lacks its own; otherwise it has the same statements. -/
theorem parse_strict_iff {source : String} {ss : List Statement}
    (h : parse source false = .ok ss) :
    ∃ tokens parts, tokenize source = .ok tokens ∧ Written tokens parts ∧
      parts.map Prod.snd = ss ∧ semicolons tokens ≤ ss.length ∧
      (parse source true = .error (.semicolons ss.length (semicolons tokens)) ↔
        ∃ p ∈ parts, p.2.mayStayOpen = true ∧ ¬Closes p.1) ∧
      ((∀ p ∈ parts, p.2.mayStayOpen = true → Closes p.1) → parse source true = .ok ss) := by
  obtain ⟨tokens, htokens, hss, -⟩ := parse_eq_ok.1 h
  obtain ⟨ds, hchain, hmakes⟩ := statementsOf_eq_ok.1 hss
  obtain ⟨parts, hparts, hsame⟩ := Written.of_chain hchain hmakes
  have hlength : parts.length = ss.length := by
    rw [← hsame, List.length_map]
  have hcount := hparts.length_le_semicolons_iff
  have hstrict := parse_strict_eq htokens hss
  rw [hlength] at hcount
  refine ⟨tokens, parts, htokens, hparts, hsame, hlength ▸ hparts.semicolons_le, ?_, ?_⟩
  · rw [hstrict]
    have hnot : (∃ p ∈ parts, p.2.mayStayOpen = true ∧ ¬Closes p.1) ↔
        ¬ss.length ≤ semicolons tokens := by
      rw [hcount]
      push Not
      rfl
    rw [hnot, Nat.not_le]
    by_cases hlt : semicolons tokens < ss.length <;> simp [hlt]
  · intro hall
    rw [hstrict, if_neg (Nat.not_lt.2 (hcount.2 hall))]

/-- Semicolons inside quotes and comments, and two statements of three that stay open. -/
theorem parse_strict_iff_quotedSemicolon : ∃ ss,
    parse "RAW 'a;b' /* ; */ BEGIN; DESCRIBE SELECTOR x -- ;" false = .ok ss ∧ ss.length = 3 ∧
    ∃ tokens parts, tokenize "RAW 'a;b' /* ; */ BEGIN; DESCRIBE SELECTOR x -- ;" = .ok tokens ∧
      Written tokens parts ∧ parts.map Prod.snd = ss ∧ semicolons tokens ≤ ss.length ∧
      (parse "RAW 'a;b' /* ; */ BEGIN; DESCRIBE SELECTOR x -- ;" true =
          .error (.semicolons ss.length (semicolons tokens)) ↔
        ∃ p ∈ parts, p.2.mayStayOpen = true ∧ ¬Closes p.1) ∧
      ((∀ p ∈ parts, p.2.mayStayOpen = true → Closes p.1) →
        parse "RAW 'a;b' /* ; */ BEGIN; DESCRIBE SELECTOR x -- ;" true = .ok ss) := by
  obtain ⟨ss, hss, hlength⟩ := exists_ok_of_any (p := fun ss => ss.length == 3)
    (x := parse "RAW 'a;b' /* ; */ BEGIN; DESCRIBE SELECTOR x -- ;" false)
    (by
      rw [parse_ofList]
      decide +kernel)
  exact ⟨ss, hss, by simpa using hlength, parse_strict_iff hss⟩

end StyleLedger.Source
