import StyleLedger.Proofs.Source.Evaluation
import StyleLedger.Proofs.Source.Steady

/-!
Two source texts put together.

The statements of a text are read one after another until no token is left (`Chain`), each of them
takes one semicolon at most, and a text with as many semicolons as statements has one for each. So
its last token is a semicolon, its tokens stand unchanged in front of those of any other text that
comes after it on a line of its own, and each of its statements is read as before
(`Chain.append`).

There is one way in which a text can reach into the next line: a media query may begin like a block
comment that is never closed (`OpensComment`). Whatever closes it later makes a comment of it.

* `parse_append` — the statements of two texts are those of the first and those of the second.
-/

namespace StyleLedger.Source

open Outcome

namespace Reading

/-! ## 1. Statements one after another -/

/-- The tokens are those of some statements, one after another. -/
inductive Chain : List Token → List Draft → Prop
  | nil : Chain [] []
  | cons {ts left : List Token} {d : Draft} {ds : List Draft}
      (first : statement ts = some (d, left)) (rest : Chain left ds) : Chain ts (d :: ds)

/-- What a statement takes. -/
theorem spends_statement {ts left : List Token} {d : Draft} (h : statement ts = some (d, left)) :
    left <:+ ts ∧ left.length + 1 ≤ ts.length ∧ semicolons ts ≤ semicolons left + 1 :=
  (steady_statement []).spends ts d left (Nat.lt_succ_self _) h

theorem manyWithin_succ {α : Type} (r : Reading α) (n : Nat) (ts : List Token) :
    manyWithin r (n + 1) ts = (((r ts).bind fun found => (manyWithin r n found.2).bind fun more =>
      some (found.1 :: more.1, more.2)) <|> some ([], ts)) :=
  rfl

theorem chain_of_manyWithin : ∀ {n : Nat} {ts : List Token} {ds : List Draft},
    manyWithin statement n ts = some (ds, []) → Chain ts ds
  | 0, ts, ds, h => by
    obtain ⟨rfl, rfl⟩ : [] = ds ∧ ts = [] := Prod.mk.inj (Option.some.inj h)
    exact .nil
  | n + 1, ts, ds, h => by
    rw [manyWithin_succ] at h
    cases hfirst : statement ts with
    | none =>
      rw [hfirst] at h
      obtain ⟨rfl, rfl⟩ : [] = ds ∧ ts = [] := Prod.mk.inj (Option.some.inj h)
      exact .nil
    | some found =>
      cases hmore : manyWithin statement n found.2 with
      | none =>
        simp only [hfirst, Option.bind_some, hmore, Option.bind_none] at h
        obtain ⟨rfl, rfl⟩ : [] = ds ∧ ts = [] := Prod.mk.inj (Option.some.inj h)
        exact .nil
      | some more =>
        simp only [hfirst, Option.bind_some, hmore] at h
        obtain ⟨rfl, hleft⟩ : found.1 :: more.1 = ds ∧ more.2 = [] :=
          Prod.mk.inj (Option.some.inj h)
        refine .cons hfirst (chain_of_manyWithin (n := n) ?_)
        rw [hmore, ← hleft]

theorem Chain.manyWithin {ts : List Token} {ds : List Draft} (h : Chain ts ds) :
    ∀ {n : Nat}, ts.length ≤ n → manyWithin statement n ts = some (ds, []) := by
  induction h with
  | nil =>
    intro n _
    cases n with
    | zero => rfl
    | succ n =>
      have hnone : statement [] = none := by
        by_contra hsome
        obtain ⟨found, hfound⟩ := Option.ne_none_iff_exists'.1 hsome
        have := (spends_statement hfound).2.1
        simp at this
      rw [manyWithin_succ, hnone]
      rfl
  | cons hfirst _ ih =>
    intro n hn
    have hspent := (spends_statement hfirst).2.1
    obtain ⟨m, rfl⟩ : ∃ m, n = m + 1 := Nat.exists_eq_add_of_le' (by omega)
    rw [manyWithin_succ, hfirst, Option.bind_some, ih (by omega)]
    rfl

theorem program_eq_some {ts : List Token} {ds : List Draft} :
    program ts = some ds ↔ Chain ts ds := by
  constructor
  · intro h
    unfold program at h
    split at h
    · next ds' hmany =>
      obtain rfl := Option.some.inj h
      exact chain_of_manyWithin hmany
    · simp at h
  · intro h
    have hmany : many statement ts = some (ds, []) := h.manyWithin (Nat.le_refl _)
    simp [program, hmany]

namespace Chain

variable {ts us : List Token} {ds es : List Draft}

theorem semicolons_le (h : Chain ts ds) : semicolons ts ≤ ds.length := by
  induction h with
  | nil => simp [semicolons]
  | cons hfirst _ ih =>
    have := (spends_statement hfirst).2.2
    rw [List.length_cons]
    omega

/-- Statements with a semicolon each are read the same in front of others. -/
theorem elsewhere_append {rest : List Token} (h : Chain ts ds)
    (hguard : rest = [] ∨ ds.length ≤ semicolons ts) (hrest : Chain rest es) :
    Chain (elsewhere rest ts) (ds.map Draft.unplaced ++ es) := by
  induction h with
  | nil => exact hrest
  | @cons ts left d ds hfirst _ ih =>
    have hspent := (spends_statement hfirst).2.2
    rw [List.length_cons] at hguard
    have hsame := (steady_statement rest).same ts (Nat.lt_succ_self _)
      (hguard.imp_right fun hle => by omega)
    rw [hfirst] at hsame
    exact .cons hsame (ih (hguard.imp_right fun hle => by omega))

theorem unplaced (h : Chain ts ds) : Chain (ts.map Token.unplaced) (ds.map Draft.unplaced) := by
  have hplain : Chain (elsewhere [] ts) (ds.map Draft.unplaced ++ []) :=
    h.elsewhere_append (.inl rfl) .nil
  simpa [elsewhere] using hplain

/-- What is read off tokens without places is read off the tokens. -/
theorem of_unplaced (h : Chain us es) : ∀ {ts : List Token}, ts.map Token.unplaced = us →
    ∃ ds, Chain ts ds ∧ ds.map Draft.unplaced = es := by
  induction h with
  | nil =>
    intro ts hts
    obtain rfl := List.map_eq_nil_iff.1 hts
    exact ⟨[], .nil, rfl⟩
  | cons hfirst _ ih =>
    intro ts hts
    have hsame := (steady_statement []).same ts (Nat.lt_succ_self _) (.inl rfl)
    rw [elsewhere, List.append_nil, hts, hfirst] at hsame
    obtain ⟨⟨d, left⟩, hd, hfound⟩ := Option.map_eq_some_iff.1 hsame.symm
    obtain ⟨rfl, hleft⟩ := Prod.mk.inj hfound
    rw [elsewhere, List.append_nil] at hleft
    obtain ⟨ds, hds, rfl⟩ := ih hleft
    exact ⟨d :: ds, .cons hd hds, rfl⟩

/-- A statement with a semicolon among the tokens it takes ends with it. -/
theorem endsClosed_of_statement {left : List Token} {d : Draft}
    (h : statement (ts ++ left) = some (d, left)) (hsemicolon : 0 < semicolons ts) :
    EndsClosed ts := by
  obtain ⟨t, ht, hkind⟩ := List.countP_pos_iff.1 hsemicolon
  obtain ⟨before, after, rfl⟩ := List.append_of_mem ht
  -- the statement is read up to the semicolon, whatever comes after it
  have hwhole := (steady_statement []).same (before ++ t :: after ++ left) (Nat.lt_succ_self _)
    (.inl rfl)
  have hpart := (steady_statement ((after ++ left).map Token.unplaced)).same (before ++ [t])
    (Nat.lt_succ_self _) (.inr (List.countP_pos_iff.2 ⟨t, by simp, hkind⟩))
  have htokens : elsewhere ((after ++ left).map Token.unplaced) (before ++ [t]) =
      elsewhere [] (before ++ t :: after ++ left) := by
    simp [elsewhere]
  rw [htokens, hwhole, h] at hpart
  obtain ⟨⟨d', left'⟩, -, hfound⟩ := Option.map_eq_some_iff.1 hpart.symm
  have hlength := congrArg List.length (Prod.mk.inj hfound).2
  have hafter : after = [] := by
    simp only [elsewhere, List.length_append, List.length_map, List.length_nil] at hlength
    exact List.length_eq_zero_iff.1 (by omega)
  subst hafter
  intro u hu
  obtain rfl : t = u := by simpa using hu
  exact of_decide_eq_true hkind

/-- Statements with a semicolon each end with one. -/
theorem endsClosed (h : Chain ts ds) (hall : ds.length ≤ semicolons ts) : EndsClosed ts := by
  induction h with
  | nil => simp [EndsClosed]
  | @cons ts left d ds hfirst _ ih =>
    obtain ⟨⟨taken, rfl⟩, -, hspent⟩ := spends_statement hfirst
    rw [List.length_cons] at hall
    have hleft := ih (by omega)
    by_cases hnil : left = []
    · subst hnil
      rw [List.append_nil] at hall hspent ⊢
      exact endsClosed_of_statement hfirst (by omega)
    · intro t ht
      rw [List.getLast?_append_of_ne_nil _ hnil] at ht
      exact hleft t ht

end Chain

end Reading

/-! ## 2. Source texts -/

open Reading

theorem statementsOf_eq_ok {tokens : List Token} {ss : List Statement} :
    statementsOf tokens = .ok ss ↔
      ∃ ds, Chain tokens ds ∧ List.Forall₂ (fun d s => d.toStatement = .ok s) ds ss := by
  unfold statementsOf
  cases hprogram : program tokens with
  | none => simp [← program_eq_some, hprogram]
  | some drafts => simp [← program_eq_some, hprogram, mapM_eq_ok_iff]

theorem checkSemicolons_eq_ok {found statements : Nat} {u : Unit} :
    checkSemicolons found statements = .ok u ↔ statements ≤ found := by
  unfold checkSemicolons
  split <;> simp <;> omega

/-- Semicolons are insisted on by counting them. -/
theorem parse_eq_ok {source : String} {strict : Bool} {ss : List Statement} :
    parse source strict = .ok ss ↔ ∃ tokens, tokenize source = .ok tokens ∧
      statementsOf tokens = .ok ss ∧ (strict = true → ss.length ≤ semicolons tokens) := by
  simp only [parse, bind_eq_ok, mapError_eq_ok]
  refine exists_congr fun tokens => and_congr_right fun _ => ?_
  cases strict with
  | false => simp [pure_eq_ok]
  | true =>
    simp only [if_true, bind_eq_ok, pure_eq_ok, checkSemicolons_eq_ok, true_implies]
    constructor
    · rintro ⟨ss, hss, -, hcount, rfl⟩
      exact ⟨hss, hcount⟩
    · rintro ⟨hss, hcount⟩
      exact ⟨ss, hss, (), hcount, rfl⟩

theorem exists_parse_strict {source : String} {tokens : List Token} {ss : List Statement}
    (htokens : tokenize source = .ok tokens) (hss : statementsOf tokens = .ok ss) :
    (∃ vs, parse source true = .ok vs) ↔ ss.length ≤ semicolons tokens := by
  simp [parse_eq_ok, htokens, hss]

/-- A media query of a text begins like a block comment. -/
def OpensComment (source : String) : Prop :=
  ∃ tokens, tokenize source = .ok tokens ∧
    ∃ t ∈ tokens, t.kind = .media ∧ ['/', '*'] <+: t.text.toList

theorem semicolons_map_unplaced (ts : List Token) :
    semicolons (ts.map Token.unplaced) = semicolons ts := by
  rw [semicolons, List.countP_map]
  rfl

/-- The tokens of two texts, places aside, are those of the first and those of the second. -/
theorem exists_tokenize_append {a b : String} {ts us : List Token} (ha : tokenize a = .ok ts)
    (hb : tokenize b = .ok us) (hlast : EndsClosed ts)
    (hmedia : ¬OpensComment a ∨ ¬['*', '/'] <:+: b.toList) :
    ∃ vs, tokenize (a ++ "\n" ++ b) = .ok vs ∧
      vs.map Token.unplaced = ts.map Token.unplaced ++ us.map Token.unplaced := by
  have hopen : (∀ t ∈ ts, t.kind = .media → ¬['/', '*'] <+: t.text.toList) ∨
      ¬['*', '/'] <:+: b.toList :=
    hmedia.imp_left fun hnot t ht hkind hprefix => hnot ⟨ts, ha, t, ht, hkind, hprefix⟩
  have hcuts := (cuts_of_scan ha).append (cuts_of_scan hb) isReached_start hlast (fun _ => rfl)
    hopen
  have htext : (a ++ "\n" ++ b).toList = a.toList ++ '\n' :: b.toList := by
    simp
  rw [← List.map_append, tokenize, htext]
  exact hcuts.exists_scan {} {}

theorem forall₂_toStatement_unplaced {ds : List Draft} {ss : List Statement} :
    List.Forall₂ (fun d s => d.toStatement = .ok s) (ds.map Draft.unplaced) ss ↔
      List.Forall₂ (fun d s => d.toStatement = .ok s) ds ss := by
  simp only [List.forall₂_map_left_iff, Draft.toStatement_unplaced]

/-- Places play no part in what statements are made of tokens. -/
theorem statementsOf_unplaced {ts vs : List Token} {ss : List Statement}
    (hts : statementsOf ts = .ok ss) (hvs : vs.map Token.unplaced = ts.map Token.unplaced) :
    statementsOf vs = .ok ss := by
  obtain ⟨ds, hds, hss⟩ := statementsOf_eq_ok.1 hts
  obtain ⟨fs, hfs, hsame⟩ := hds.unplaced.of_unplaced hvs
  refine statementsOf_eq_ok.2 ⟨fs, hfs, ?_⟩
  rw [← forall₂_toStatement_unplaced, hsame]
  exact forall₂_toStatement_unplaced.2 hss

/-- The statements of two lists of tokens, the first with a semicolon for each of its own. -/
theorem statementsOf_append {ts us vs : List Token} {ss ss' : List Statement}
    (hts : statementsOf ts = .ok ss) (hus : statementsOf us = .ok ss')
    (hall : ss.length ≤ semicolons ts)
    (hvs : vs.map Token.unplaced = ts.map Token.unplaced ++ us.map Token.unplaced) :
    statementsOf vs = .ok (ss ++ ss') := by
  obtain ⟨ds, hds, hss⟩ := statementsOf_eq_ok.1 hts
  obtain ⟨es, hes, hss'⟩ := statementsOf_eq_ok.1 hus
  obtain ⟨fs, hfs, hsame⟩ :=
    (hds.elsewhere_append (.inr (hss.length_eq ▸ hall)) hes.unplaced).of_unplaced hvs
  refine statementsOf_eq_ok.2 ⟨fs, hfs, ?_⟩
  rw [← forall₂_toStatement_unplaced, hsame]
  exact List.rel_append (forall₂_toStatement_unplaced.2 hss) (forall₂_toStatement_unplaced.2 hss')

/-- The statements of two texts, the second one on a line of its own, are those of the first and
those of the second, if the first has a semicolon for each. The two together have one for each if
the second does. -/
theorem parse_append {a b : String} {ss us : List Statement} (ha : parse a true = .ok ss)
    (hb : parse b false = .ok us) (hmedia : ¬OpensComment a ∨ ¬['*', '/'] <:+: b.toList) :
    parse (a ++ "\n" ++ b) false = .ok (ss ++ us) ∧
      ((∃ vs, parse (a ++ "\n" ++ b) true = .ok vs) ↔ ∃ vs, parse b true = .ok vs) := by
  obtain ⟨ts, hts, hss, hall⟩ := parse_eq_ok.1 ha
  obtain ⟨ts', hts', hus, -⟩ := parse_eq_ok.1 hb
  replace hall := hall rfl
  obtain ⟨ds, hds, hlength⟩ := statementsOf_eq_ok.1 hss
  replace hlength := hlength.length_eq
  have hcount : semicolons ts = ss.length :=
    Nat.le_antisymm (hlength ▸ hds.semicolons_le) hall
  obtain ⟨vs, hvs, hsame⟩ :=
    exists_tokenize_append hts hts' (hds.endsClosed (hlength ▸ hall)) hmedia
  have hboth := statementsOf_append hss hus hall hsame
  have hcounts : semicolons vs = semicolons ts + semicolons ts' := by
    rw [← semicolons_map_unplaced, hsame, semicolons, List.countP_append]
    exact congrArg₂ (· + ·) (semicolons_map_unplaced ts) (semicolons_map_unplaced ts')
  refine ⟨parse_eq_ok.2 ⟨vs, hvs, hboth, by simp⟩, ?_⟩
  rw [exists_parse_strict hvs hboth, exists_parse_strict hts' hus, List.length_append]
  omega

/-- A comment after the last semicolon of the first text, and no semicolon in the second. -/
theorem parse_append_comment : ∃ ss us,
    parse "IMPORT CSS 'x' MEDIA screen; -- one" true = .ok ss ∧ parse "RAW 'y'" false = .ok us ∧
      ¬['*', '/'] <:+: "RAW 'y'".toList ∧ ss.length = 1 ∧ us.length = 1 ∧
      parse ("IMPORT CSS 'x' MEDIA screen; -- one" ++ "\n" ++ "RAW 'y'") false = .ok (ss ++ us) ∧
      ((∃ vs, parse ("IMPORT CSS 'x' MEDIA screen; -- one" ++ "\n" ++ "RAW 'y'") true = .ok vs) ↔
        ∃ vs, parse "RAW 'y'" true = .ok vs) := by
  obtain ⟨ss, hss, hone⟩ := exists_ok_of_any (p := fun ss => ss.length == 1)
    (x := parse "IMPORT CSS 'x' MEDIA screen; -- one" true)
    (by
      rw [parse_ofList]
      decide +kernel)
  obtain ⟨us, hus, hother⟩ := exists_ok_of_any (p := fun us => us.length == 1)
    (x := parse "RAW 'y'" false)
    (by
      rw [parse_ofList]
      decide +kernel)
  have hclosed : ¬['*', '/'] <:+: "RAW 'y'".toList := by decide +kernel
  exact ⟨ss, us, hss, hus, hclosed, by simpa using hone, by simpa using hother,
    parse_append hss hus (.inr hclosed)⟩

/-- A media query that begins like a block comment becomes one when the next line closes it: one
statement is left of two. -/
theorem not_parse_append_openComment : ¬∀ (a b : String) (ss us : List Statement),
    parse a true = .ok ss → parse b false = .ok us →
      parse (a ++ "\n" ++ b) false = .ok (ss ++ us) ∧
        ((∃ vs, parse (a ++ "\n" ++ b) true = .ok vs) ↔ ∃ vs, parse b true = .ok vs) := by
  intro h
  obtain ⟨ss, hss, hone⟩ := exists_ok_of_any (p := fun ss => ss.length == 1)
    (x := parse "IMPORT CSS 'x' MEDIA /* ;" true)
    (by
      rw [parse_ofList]
      decide +kernel)
  obtain ⟨us, hus, hother⟩ := exists_ok_of_any (p := fun us => us.length == 1)
    (x := parse "RAW '*/ screen';" false)
    (by
      rw [parse_ofList]
      decide +kernel)
  obtain ⟨vs, hvs, hboth⟩ := exists_ok_of_any (p := fun vs => vs.length == 1)
    (x := parse ("IMPORT CSS 'x' MEDIA /* ;" ++ "\n" ++ "RAW '*/ screen';") false)
    (by
      rw [← String.ofList_append, ← String.ofList_append, parse_ofList]
      decide +kernel)
  have hall := (h _ _ ss us hss hus).1
  obtain rfl := Except.ok.inj (hvs.symm.trans hall)
  simp only [beq_iff_eq, List.length_append] at hone hother hboth
  omega

end StyleLedger.Source
