import StyleLedger.Proofs.Source.Cuts

/-!
What a text is cut into, and where the tokens begin.

`Placed machine here cs ts` says all that the scanner does (`placed_of_scan`, `Placed.scan_eq`): the
text begins at a place, and each token is given the place it begins at. No two characters of a text
have the same place (`Position.advance_take_inj`), so the place of a token tells where it stands.
-/

namespace StyleLedger.Source

/-! ## 1. Places -/

namespace Position

/-- A place that some characters do not move is one they do not come after. -/
theorem advance_eq_self {p : Position} {cs : List Char} (h : p.advance cs = p) : cs = [] := by
  have hline : ∀ (cs : List Char) (p : Position),
      (p.advance cs).line = p.line + cs.count '\n' := by
    intro cs
    induction cs with
    | nil => intro p; rfl
    | cons c cs ih =>
      intro p
      show ((p.next c).advance cs).line = _
      rw [ih, next, List.count_cons]
      by_cases hc : c = '\n'
      · simp [hc]
        omega
      · simp [hc]
  have hcolumn : ∀ (cs : List Char) (p : Position), cs.count '\n' = 0 →
      (p.advance cs).column = p.column + cs.length := by
    intro cs
    induction cs with
    | nil => intro p _; rfl
    | cons c cs ih =>
      intro p hcount
      rw [List.count_cons] at hcount
      show ((p.next c).advance cs).column = _
      rw [ih _ (by omega), next]
      by_cases hc : c = '\n'
      · simp [hc] at hcount
      · simp [hc]
        omega
  have hnone : cs.count '\n' = 0 := by
    have := hline cs p
    rw [h] at this
    omega
  have hlength := hcolumn cs p hnone
  rw [h] at hlength
  exact List.length_eq_zero_iff.1 (by omega)

/-- Each place of a text is reached once. -/
theorem advance_take_inj {p : Position} {cs : List Char} {m n : Nat} (hm : m ≤ cs.length)
    (hn : n ≤ cs.length) (h : p.advance (cs.take m) = p.advance (cs.take n)) : m = n := by
  have hle : ∀ {m n : Nat}, m ≤ n → n ≤ cs.length →
      p.advance (cs.take m) = p.advance (cs.take n) → m = n := by
    intro m n hmn hn h
    obtain ⟨k, rfl⟩ := Nat.exists_eq_add_of_le hmn
    rw [List.take_add, advance_append] at h
    have hnil := congrArg List.length (advance_eq_self h.symm)
    simp only [List.length_take, List.length_drop, List.length_nil] at hnil
    omega
  rcases Nat.le_total m n with hmn | hnm
  · exact hle hmn hn h
  · exact (hle hnm hm h.symm).symm

end Position

/-! ## 2. Cutting -/

/-- A machine cuts a text that begins at a place into tokens. -/
inductive Placed : List Stack → Position → List Char → List Token → Prop
  /-- The text is over and may be. -/
  | done {machine : List Stack} {here : Position} (finished : machine.any Stack.finished = true) :
      Placed machine here [] []
  /-- Ignored text stands in front. -/
  | pass {machine : List Stack} {here : Position} {cs : List Char} {l : Lexeme} {n : Nat}
      {ts : List Token} (first : Lexeme.first? (accepts machine) cs = some (l, n))
      (ignored : ∀ t, l ≠ .token t)
      (rest : Placed machine (here.advance (cs.take n)) (cs.drop n) ts) :
      Placed machine here cs ts
  /-- A token stands in front. -/
  | token {machine : List Stack} {here : Position} {cs : List Char} {u : Token} {n : Nat}
      {ts : List Token} (first : Lexeme.first? (accepts machine) cs = some (.token u.kind, n))
      (text : u.text = String.ofList (cs.take n)) (position : u.position = here)
      (rest : Placed (shift u.kind machine) (here.advance (cs.take n)) (cs.drop n) ts) :
      Placed machine here cs (u :: ts)

theorem placed_of_scan {machine : List Stack} {cs : List Char} {ts : List Token}
    {last here : Position} (h : scan machine last here 0 cs = .ok ts) :
    Placed machine here cs ts := by
  by_cases hcs : cs = []
  · subst hcs
    rw [scan] at h
    split_ifs at h with hfinished
    obtain rfl := Except.ok.inj h
    exact .done hfinished
  · obtain ⟨l, n, hfirst⟩ := exists_first_of_scan hcs h
    obtain ⟨hn, hle⟩ := Lexeme.extent_of_first? hfirst
    have hshorter : (cs.drop n).length < cs.length := by
      rw [List.length_drop]
      omega
    by_cases hl : ∃ t, l = .token t
    · obtain ⟨t, rfl⟩ := hl
      obtain ⟨u, us, rfl, rfl, htext, hposition, hrest⟩ := (scan_token hfirst).1 h
      exact .token hfirst htext hposition (placed_of_scan hrest)
    · rw [scan_pass hfirst fun t ht => hl ⟨t, ht⟩] at h
      exact .pass hfirst (fun t ht => hl ⟨t, ht⟩) (placed_of_scan h)
termination_by cs.length

namespace Placed

variable {machine : List Stack} {here : Position} {cs : List Char} {ts : List Token}

theorem scan_eq (h : Placed machine here cs ts) (last : Position) :
    scan machine last here 0 cs = .ok ts := by
  induction h generalizing last with
  | done hfinished => simp [scan, hfinished]
  | pass hfirst hl _ ih =>
    rw [scan_pass hfirst hl]
    exact ih last
  | @token machine here cs u n ts hfirst htext hposition _ ih =>
    exact (scan_token hfirst).2 ⟨u, ts, rfl, rfl, htext, hposition, ih here⟩

/-- Each token begins somewhere in the text. -/
theorem exists_take (h : Placed machine here cs ts) :
    ∀ t ∈ ts, ∃ m ≤ cs.length, t.position = here.advance (cs.take m) := by
  have hlater : ∀ {here : Position} {cs : List Char} {n : Nat} {t : Token}, n ≤ cs.length →
      (∃ m ≤ (cs.drop n).length,
        t.position = (here.advance (cs.take n)).advance ((cs.drop n).take m)) →
      ∃ m ≤ cs.length, t.position = here.advance (cs.take m) := by
    rintro here cs n t hn ⟨m, hm, hposition⟩
    rw [List.length_drop] at hm
    exact ⟨n + m, by omega, by rw [hposition, List.take_add, Position.advance_append]⟩
  induction h with
  | done => simp
  | pass hfirst _ _ ih =>
    intro t ht
    exact hlater (Lexeme.extent_of_first? hfirst).2 (ih t ht)
  | token hfirst _ hposition _ ih =>
    intro t ht
    rcases List.mem_cons.1 ht with rfl | ht
    · exact ⟨0, Nat.zero_le _, hposition⟩
    · exact hlater (Lexeme.extent_of_first? hfirst).2 (ih t ht)

end Placed

end StyleLedger.Source
