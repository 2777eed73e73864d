import StyleLedger.Proofs.Source.Appended
import StyleLedger.Proofs.Source.Drawn
import StyleLedger.Proofs.Source.Leads

/-!
What the conditions of a source text are made of.

The readers look at kinds of tokens only, and the text of a token says little about where it stood:
`width` is a reserved word at the beginning of a test and a name elsewhere. So the readers of
conditions are followed along the machine that cut the text (`Follows`): a name that is read as a
feature was cut where the words that open other tests were looked for, too, and a value, a group or a
name is all of what was found there (`Terminal.IsWhole`).

A condition is read right after `WHERE`, or after `AND` in a filter. The machine asks for a condition
there or for something that no condition begins with, because every stack goes on after these words
as the grammar says (`Stack.isLinked`).

* `isWritten_of_parse` — what the conditions of a text are made of, and how they are nested.
-/

namespace StyleLedger

open Source

/-! ## 1. Written conditions -/

/-- A text is all of what a terminal covers at the front of some text. -/
def Source.Terminal.IsWhole (t : Terminal) (x : String) : Prop :=
  x ≠ "" ∧ ∃ r, t.extent (x.toList ++ r) = x.toList.length

/-- The words that open tests other than those of a feature. -/
def Source.testWords : List Keyword :=
  [.width, .container, .supports]

/-- The terminals that begin a condition, but for a name. -/
def Source.conditionOpeners : List Terminal :=
  .mark '(' :: testWords.map .word

/-- A test as it is written: its name, its values and its group are read as such. -/
inductive Atom.IsWritten : Atom → Prop
  | between {lo hi : String} (hlo : Terminal.value.IsWhole lo) (hhi : Terminal.value.IsWhole hi) :
      IsWritten (.width (.text lo) (.text hi))
  | width {atLeast : Bool} {v : String} (hv : Terminal.value.IsWhole v) :
      IsWritten (if atLeast then .width (.text v) .null else .width .null (.text v))
  | feature {name v : String} (hname : Terminal.ident.IsWhole name)
      (hfree : ∀ k ∈ testWords, k.isSpelledBy name.toList = false)
      (hv : Terminal.value.IsWhole v) : IsWritten (.feature (.text name) (.text v))
  | container (inline : Option Unit) {atLeast : Bool} {name v : String}
      (hname : Terminal.ident.IsWhole name) (hv : Terminal.value.IsWhole v) :
      IsWritten (if atLeast
        then .container (.text name) (.text v) .null (.textOrNull (inline.map fun _ => "inline"))
        else .container (.text name) .null (.text v) (.textOrNull (inline.map fun _ => "inline")))
  | containerStyle {name group : String} (hname : Terminal.ident.IsWhole name)
      (hgroup : Terminal.group.IsWhole group) :
      IsWritten (.containerStyle (.text name) (.text group))
  | supports {group : String} (hgroup : Terminal.group.IsWhole group) :
      IsWritten (.supports (.text group))

namespace Condition

/-- Whether a condition is a conjunction. -/
def isAll : Condition → Bool
  | all _ => true
  | _ => false

/-- Whether a condition is a disjunction. -/
def isAny : Condition → Bool
  | any _ => true
  | _ => false

/-- A condition as it is written. Each compound has two parts at least, and the first part of a
compound is no compound of the same kind. -/
inductive IsWritten : Condition → Prop
  | atom {a : Atom} (h : a.IsWritten) : IsWritten (.atom a)
  | all {p : Condition} {ps : List Condition} (hp : p.isAll = false) (hps : ps ≠ [])
      (h : ∀ q ∈ p :: ps, IsWritten q) : IsWritten (.all (p :: ps))
  | any {p : Condition} {ps : List Condition} (hp : p.isAny = false) (hps : ps ≠ [])
      (h : ∀ q ∈ p :: ps, IsWritten q) : IsWritten (.any (p :: ps))

end Condition

namespace Source

open Reading

theorem conjoin_isWritten {c d : Condition} (hc : c.IsWritten) (hd : d.IsWritten) :
    (conjoin c d).IsWritten := by
  cases hc with
  | atom h =>
    exact .all rfl (by simp) (by simp [Condition.IsWritten.atom h, hd])
  | @all p ps hp hps h =>
    refine .all hp (by simp) fun q hq => ?_
    rcases List.mem_append.1 (List.cons_append ▸ hq) with hq | hq
    · exact h q hq
    · obtain rfl := List.mem_singleton.1 hq
      exact hd
  | any hp hps h =>
    exact .all rfl (by simp) (by simp [Condition.IsWritten.any hp hps h, hd])

theorem disjoin_isWritten {c d : Condition} (hc : c.IsWritten) (hd : d.IsWritten) :
    (disjoin c d).IsWritten := by
  cases hc with
  | atom h =>
    exact .any rfl (by simp) (by simp [Condition.IsWritten.atom h, hd])
  | all hp hps h =>
    exact .any rfl (by simp) (by simp [Condition.IsWritten.all hp hps h, hd])
  | @any p ps hp hps h =>
    refine .any hp (by simp) fun q hq => ?_
    rcases List.mem_append.1 (List.cons_append ▸ hq) with hq | hq
    · exact h q hq
    · obtain rfl := List.mem_singleton.1 hq
      exact hd

/-! ## 2. The tokens of a text -/

section Tokens

variable {machine : List Stack} {cs : List Char} {ts us : List Token} {u : Token}

/-- The first token of a text, and what is cut after it. -/
theorem Cuts.exists_first (h : Cuts machine cs (u :: us)) :
    ∃ r, Lexeme.first? (accepts machine) (u.text.toList ++ r) =
        some (.token u.kind, u.text.toList.length) ∧ Cuts (shift u.kind machine) r us := by
  generalize hts : u :: us = ts at h
  induction h with
  | done => simp at hts
  | pass _ _ _ ih => exact ih hts
  | @token machine cs v n ts hfirst htext hrest _ =>
    obtain ⟨rfl, rfl⟩ := List.cons.inj hts
    have hle := (Lexeme.extent_of_first? hfirst).2
    refine ⟨cs.drop n, ?_, hrest⟩
    rw [htext, String.toList_ofList, List.take_append_drop, List.length_take, Nat.min_eq_left hle]
    exact hfirst

/-- What is found alone is whole. -/
theorem isWhole_of_first? {accept : List Terminal} {x : String} {r : List Char} {t : Terminal}
    (ht : t ∈ alone)
    (h : Lexeme.first? accept (x.toList ++ r) = some (.token t, x.toList.length)) :
    t.IsWhole x := by
  obtain ⟨hne, hextent⟩ := extent_of_first?_alone ht h
  refine ⟨?_, r, hextent⟩
  rintro rfl
  exact hne rfl

/-- A name that is found is whole, and none of the words that are looked for. -/
theorem isWhole_ident_of_first? {accept : List Terminal} {x : String} {r : List Char}
    (h : Lexeme.first? accept (x.toList ++ r) = some (.token .ident, x.toList.length)) :
    Terminal.ident.IsWhole x ∧ ∀ k, .word k ∈ accept → k.isSpelledBy x.toList = false := by
  obtain ⟨l, hchosen, hn, hmade⟩ := Lexeme.exists_chosen_of_first? h
  obtain rfl : l = .token .ident := by
    refine hmade.resolve_right ?_
    rintro ⟨-, k, hk, -⟩
    exact absurd hk (by simp)
  have hfits := (Lexeme.chosen_spec hchosen).2.2
  refine ⟨⟨?_, r, hn⟩, fun k hk => ?_⟩
  · rintro rfl
    exact hfits hn
  · rw [Lexeme.first?_eq, hchosen, Option.map_some, hn, List.take_left] at h
    obtain ⟨hkind, -⟩ := Prod.mk.inj (Option.some.inj h)
    have hnone : Lexeme.promote accept x.toList .ident = .ident := Lexeme.token.inj hkind
    by_contra hspelled
    rcases Option.getD_eq_iff.1 hnone with hfound | ⟨hfound, -⟩
    · simpa using List.find?_some hfound
    · exact List.find?_eq_none.1 hfound _ hk (by simpa using hspelled)

end Tokens

/-! ## 3. Readers along the machine -/

namespace Reading

/-- One part of a condition: a test, or a condition in brackets. -/
def partWithin (n : Nat) : Reading Condition :=
  (do return .atom (← atom)) <|>
  (do
    mark '('
    let c ← conditionWithin n
    mark ')'
    return c)

/-- Parts with a word between them, joined from left to right. -/
def joined (part : Reading Condition) (k : Keyword)
    (combine : Condition → Condition → Condition) : Reading Condition := do
  let first ← part
  let more ← many (do word k; part)
  return more.foldl combine first

theorem conditionWithin_succ (n : Nat) : conditionWithin (n + 1) =
    joined (joined (partWithin n) .and conjoin) .or disjoin :=
  rfl

section Follows

variable {α β : Type} {machine machine' machine'' : List Stack} {P : α → Prop} {Q : β → Prop}

/-- Where one machine cuts the tokens that a reader is given, another one cuts those that it leaves,
and what it gives has a property. -/
def Follows (machine machine' : List Stack) (P : α → Prop) (r : Reading α) : Prop :=
  ∀ cs ts a left, Cuts machine cs ts → r ts = some (a, left) → P a ∧ ∃ cs', Cuts machine' cs' left

theorem follows_nil {r : Reading α} : Follows [] machine' P r :=
  fun _ _ _ _ hcuts _ => absurd hcuts not_cuts_nil

theorem follows_pure {a : α} (h : P a) : Follows machine machine P (pure a) := by
  intro cs ts b left hcuts hread
  obtain ⟨rfl, rfl⟩ : a = b ∧ ts = left := Prod.mk.inj (Option.some.inj hread)
  exact ⟨h, cs, hcuts⟩

theorem follows_failure : Follows machine machine' P (failure : Reading α) :=
  fun _ _ _ _ _ h => nomatch h

theorem follows_bind {r : Reading α} {f : α → Reading β} (h : Follows machine machine' P r)
    (hf : ∀ a, P a → Follows machine' machine'' Q (f a)) :
    Follows machine machine'' Q (r >>= f) := by
  intro cs ts b left hcuts hread
  obtain ⟨⟨a, between⟩, ha, hb⟩ := Option.bind_eq_some_iff.1 hread
  obtain ⟨hPa, cs', hcuts'⟩ := h cs ts a between hcuts ha
  exact hf a hPa cs' between b left hcuts' hb

theorem follows_orElse {r s : Reading α} (hr : Follows machine machine' P r)
    (hs : Follows machine machine' P s) : Follows machine machine' P (r <|> s) := by
  intro cs ts a left hcuts hread
  have hread : (r ts <|> s ts) = some (a, left) := hread
  cases hfirst : r ts with
  | none =>
    rw [hfirst] at hread
    exact hs cs ts a left hcuts hread
  | some found =>
    rw [hfirst] at hread
    exact hr cs ts a left hcuts (hfirst.trans hread)

theorem follows_oneOf {readers : List (Reading α)}
    (h : ∀ r ∈ readers, Follows machine machine' P r) :
    Follows machine machine' P (oneOf readers) := by
  induction readers with
  | nil => exact follows_failure
  | cons r readers ih =>
    exact follows_orElse (h r List.mem_cons_self) (ih fun s hs => h s (List.mem_cons_of_mem r hs))

/-- Something that may be there, and what comes after it. -/
theorem follows_maybe {r : Reading α} {f : Option α → Reading β}
    (h : Follows machine machine' P r)
    (hsome : ∀ a, P a → Follows machine' machine'' Q (f (some a)))
    (hnone : Follows machine machine'' Q (f none)) :
    Follows machine machine'' Q (maybe r >>= f) := by
  intro cs ts b left hcuts hread
  obtain ⟨⟨found, between⟩, hfound, hb⟩ := Option.bind_eq_some_iff.1 hread
  have hfound : (((r ts).bind fun x => some (some x.1, x.2)) <|> some (none, ts)) =
      some (found, between) := hfound
  cases hr : r ts with
  | none =>
    rw [hr] at hfound
    obtain ⟨rfl, rfl⟩ : none = found ∧ ts = between := Prod.mk.inj (Option.some.inj hfound)
    exact hnone cs ts b left hcuts hb
  | some x =>
    rw [hr] at hfound
    obtain ⟨rfl, rfl⟩ : some x.1 = found ∧ x.2 = between := Prod.mk.inj (Option.some.inj hfound)
    obtain ⟨hPa, cs', hcuts'⟩ := h cs ts x.1 x.2 hcuts hr
    exact hsome x.1 hPa cs' x.2 b left hcuts' hb

theorem follows_manyWithin {r : Reading α} (h : Follows machine machine P r) : ∀ n,
    Follows machine machine (fun as => ∀ a ∈ as, P a) (manyWithin r n)
  | 0 => follows_pure (by simp)
  | n + 1 => by
    refine follows_orElse (follows_bind h fun a ha => ?_) (follows_pure (by simp))
    exact follows_bind (follows_manyWithin h n) fun as has =>
      follows_pure (List.forall_mem_cons.2 ⟨ha, has⟩)

theorem follows_many {r : Reading α} (h : Follows machine machine P r) :
    Follows machine machine (fun as => ∀ a ∈ as, P a) (many r) :=
  fun cs ts as left => follows_manyWithin h ts.length cs ts as left

/-- A token is taken where it was found. -/
theorem follows_take (kind : Terminal) : Follows machine (shift kind machine)
    (fun t => ∃ r, Lexeme.first? (accepts machine) (t.text.toList ++ r) =
      some (.token kind, t.text.toList.length)) (take kind) := by
  intro cs ts t left hcuts hread
  cases ts with
  | nil => simp [take] at hread
  | cons u us =>
    simp only [take] at hread
    split_ifs at hread with hkind
    obtain ⟨rfl, rfl⟩ := Prod.mk.inj (Option.some.inj hread)
    obtain ⟨r, hfirst, hrest⟩ := hcuts.exists_first
    rw [hkind] at hfirst hrest
    exact ⟨⟨r, hfirst⟩, r, hrest⟩

end Follows

section Parts

variable {machine : List Stack}

theorem follows_word (k : Keyword) :
    Follows machine (shift (.word k) machine) (fun _ => True) (word k) :=
  follows_bind (follows_take _) fun _ _ => follows_pure trivial

theorem follows_words (ks : List Keyword) :
    Follows machine (ks.foldl (fun machine k => shift (.word k) machine) machine)
      (fun _ => True) (words ks) := by
  induction ks generalizing machine with
  | nil => exact follows_pure trivial
  | cons k ks ih => exact follows_bind (follows_word k) fun _ _ => ih

theorem follows_mark (c : Char) :
    Follows machine (shift (.mark c) machine) (fun _ => True) (mark c) :=
  follows_bind (follows_take _) fun _ _ => follows_pure trivial

theorem follows_ident : Follows machine (shift .ident machine)
    (fun x => Terminal.ident.IsWhole x ∧
      ∀ k, .word k ∈ accepts machine → k.isSpelledBy x.toList = false) ident :=
  follows_bind (follows_take _) fun _ hfirst =>
    follows_pure (isWhole_ident_of_first? hfirst.choose_spec)

theorem follows_value :
    Follows machine (shift .value machine) (Terminal.IsWhole .value) value :=
  follows_bind (follows_take _) fun _ hfirst =>
    follows_pure (isWhole_of_first? (by decide) hfirst.choose_spec)

theorem follows_group :
    Follows machine (shift .group machine) (Terminal.IsWhole .group) group :=
  follows_bind (follows_take _) fun _ hfirst =>
    follows_pure (isWhole_of_first? (by decide) hfirst.choose_spec)

theorem follows_comparison : Follows machine (shift .value (shift .comparison machine))
    (fun c => Terminal.value.IsWhole c.2) comparison :=
  follows_bind (follows_take _) fun _ _ => follows_bind follows_value fun _ hv => follows_pure hv

/-! ## 4. Conditions along the machine -/

variable {rest : Stack}

theorem follows_containerTest {name : String} (hname : Terminal.ident.IsWhole name) :
    Follows [.goal .containerTest :: rest] [rest] Atom.IsWritten (containerTest name) := by
  refine follows_orElse ?_ ?_
  · exact follows_bind (follows_word .style) fun _ _ => follows_bind follows_group fun _ hgroup =>
      follows_pure (.containerStyle hname hgroup)
  · refine follows_maybe (follows_word .inline) (fun axis _ => ?_) ?_
    · exact follows_bind follows_comparison fun _ hv =>
        follows_pure (.container (some axis) hname hv)
    · exact follows_bind follows_comparison fun _ hv =>
        follows_pure (.container none hname hv)

/-- A test, read where one is asked for. -/
theorem follows_atom : Follows [.goal .condition :: rest] [.goal .moreConditions :: rest]
    Atom.IsWritten atom := by
  refine follows_oneOf ?_
  simp only [List.forall_mem_cons, List.not_mem_nil, false_implies, implies_true, and_true]
  refine ⟨?_, ?_, ?_, ?_, ?_⟩
  · exact follows_bind (follows_words _) fun _ _ => follows_bind follows_value fun _ hlo =>
      follows_bind (follows_word _) fun _ _ => follows_bind follows_value fun _ hhi =>
        follows_pure (.between hlo hhi)
  · exact follows_bind (follows_word _) fun _ _ => follows_bind follows_comparison fun _ hv =>
      follows_pure (.width hv)
  · exact follows_bind (follows_word _) fun _ _ => follows_bind follows_ident fun _ hname =>
      follows_containerTest hname.1
  · exact follows_bind (follows_word _) fun _ _ => follows_bind follows_group fun _ hgroup =>
      follows_pure (.supports hgroup)
  · refine follows_bind follows_ident fun name hname => follows_bind (follows_mark _) fun _ _ =>
      follows_bind follows_value fun _ hv => follows_pure (.feature hname.1 (fun k hk => ?_) hv)
    have hopens : ∀ k ∈ testWords, .word k ∈ Goal.heads .condition := by decide
    exact hname.2 k (List.mem_flatMap.2
      ⟨_, List.mem_cons_self, List.mem_append_left _ (hopens k hk)⟩)

theorem follows_joined {machine' : List Stack} {r : Reading Condition}
    {P : Condition → Prop} {combine : Condition → Condition → Condition} (k : Keyword)
    (hfirst : Follows machine machine' P r)
    (hmore : Follows (shift (.word k) machine') machine' P r)
    (hcombine : ∀ {c d}, P c → P d → P (combine c d)) :
    Follows machine machine' P (joined r k combine) := by
  refine follows_bind hfirst fun first hP =>
    follows_bind (follows_many (P := P) ?_) fun more hall => follows_pure ?_
  · exact follows_bind (follows_word k) fun _ _ => hmore
  · exact List.foldlRecOn more combine hP fun c hc d hd => hcombine hc (hall d hd)

/-- After a part of a condition a further one comes after its word. -/
theorem shift_joinWord {k : Keyword} (hk : k = .and ∨ k = .or)
    (hrest : Stack.isProper (.goal .moreConditions :: rest) = true) :
    shift (.word k) [.goal .moreConditions :: rest] = [.goal .condition :: rest] := by
  have hnone : Stack.step (.word k) rest = [] := by
    refine List.eq_nil_iff_forall_not_mem.2 fun s hs => ?_
    have hadmits := (Stack.isProper_cons.1 hrest).1 _ (Stack.mem_firsts_of_mem_step hs)
    rcases hk with rfl | rfl
    · exact absurd hadmits (by decide)
    · exact absurd hadmits (by decide)
  have hstep : shift (.word k) [.goal .moreConditions :: rest] =
      (.goal .condition :: rest) :: (Stack.step (.word k) rest ++ []) := by
    rcases hk with rfl | rfl <;> rfl
  rw [hstep, hnone]
  rfl

/-- What comes after a bracketed condition fits it. -/
theorem isProper_bracketed (hrest : Stack.isProper (.goal .moreConditions :: rest) = true) :
    Stack.isProper (.goal .moreConditions :: .terminal (.mark ')') ::
      .goal .moreConditions :: rest) = true := by
  refine Stack.isProper_cons.2 ⟨?_, by simp [Symbol.rest?], Stack.isProper_cons.2
    ⟨fun t _ => rfl, by simp [Symbol.rest?], hrest⟩⟩
  intro t ht
  obtain rfl : t = .mark ')' := by simpa [Stack.firsts] using ht
  decide

/-- A condition, read where one is asked for. -/
theorem follows_conditionWithin : ∀ (n : Nat) {rest : Stack},
    Stack.isProper (.goal .moreConditions :: rest) = true →
      Follows [.goal .condition :: rest] [.goal .moreConditions :: rest] Condition.IsWritten
        (conditionWithin n)
  | 0, _, _ => follows_failure
  | n + 1, rest, hrest => by
    have hpart : Follows [.goal .condition :: rest] [.goal .moreConditions :: rest]
        Condition.IsWritten (partWithin n) := by
      refine follows_orElse ?_ ?_
      · exact follows_bind follows_atom fun a ha => follows_pure (.atom ha)
      · exact follows_bind (follows_mark _) fun _ _ =>
          follows_bind (follows_conditionWithin n (isProper_bracketed hrest)) fun c hc =>
            follows_bind (follows_mark _) fun _ _ => follows_pure hc
    have hmore : ∀ k, k = .and ∨ k = .or → ∀ {r : Reading Condition},
        Follows [.goal .condition :: rest] [.goal .moreConditions :: rest] Condition.IsWritten r →
        Follows (shift (.word k) [.goal .moreConditions :: rest]) [.goal .moreConditions :: rest]
          Condition.IsWritten r := by
      intro k hk r hr
      rwa [shift_joinWord hk hrest]
    have hconjunction := follows_joined .and hpart (hmore .and (.inl rfl) hpart) conjoin_isWritten
    exact follows_joined .or hconjunction (hmore .or (.inr rfl) hconjunction) disjoin_isWritten

/-- No condition is read where nothing that begins one is looked for, or only a name that no equals
sign comes after. -/
theorem not_follows_conditionWithin {machine : List Stack}
    (hnone : ∀ t ∈ conditionOpeners, shift t machine = [])
    (hident : shift (.mark '=') (shift .ident machine) = []) :
    ∀ n, Follows machine [] (fun _ => False) (conditionWithin n)
  | 0 => follows_failure
  | n + 1 => by
    have hword : ∀ k ∈ testWords, Follows machine [] (fun _ => True) (word k) := by
      intro k hk
      have hall : ∀ k ∈ testWords, Terminal.word k ∈ conditionOpeners := by decide
      rw [← hnone _ (hall k hk)]
      exact follows_word k
    have hbracket : Follows machine [] (fun _ => True) (mark '(') := by
      rw [← hnone (.mark '(') List.mem_cons_self]
      exact follows_mark '('
    have hsign : Follows (shift .ident machine) [] (fun _ => True) (mark '=') := by
      rw [← hident]
      exact follows_mark '='
    have hatom : Follows machine [] (fun _ => False) atom := by
      refine follows_oneOf ?_
      simp only [List.forall_mem_cons, List.not_mem_nil, false_implies, implies_true, and_true]
      refine ⟨?_, ?_, ?_, ?_, ?_⟩
      · have hboth : Follows machine [] (fun _ => True) (words [.width, .between]) :=
          follows_bind (hword .width (by decide)) fun _ _ => follows_nil
        exact follows_bind hboth fun _ _ => follows_nil
      · exact follows_bind (hword .width (by decide)) fun _ _ => follows_nil
      · exact follows_bind (hword .container (by decide)) fun _ _ => follows_nil
      · exact follows_bind (hword .supports (by decide)) fun _ _ => follows_nil
      · exact follows_bind follows_ident fun _ _ => follows_bind hsign fun _ _ => follows_nil
    have hpart : Follows machine [] (fun _ => False) (partWithin n) :=
      follows_orElse (follows_bind hatom fun _ ha => ha.elim)
        (follows_bind hbracket fun _ _ => follows_nil)
    exact follows_joined .or (follows_joined .and hpart follows_nil fun hc _ => hc) follows_nil
      fun hc _ => hc

end Parts

end Reading

/-! ## 5. Where a condition is asked for -/

/-- The words after which conditions are read. -/
def askingWords : List Terminal :=
  [.word .whereWord, .word .and]

namespace Stack

/-- A stack asks for a condition, or for something that no condition begins with. -/
def asks : Stack → Bool
  | .goal .condition :: _ => true
  | .goal .definition :: .terminal (.word .onWord) :: _ => true
  | .terminal t :: _ => [.word .name, .word .selector, .word .prop, .value].contains t
  | _ => false

/-- The words after which conditions are read are followed by what they ask for. -/
def isLinked : Stack → Bool
  | [] => true
  | s :: rest =>
    (!([.terminal (.word .whereWord), .terminal (.word .and), .goal .joinKind].contains s) ||
      asks rest) && isLinked rest

theorem isLinked_cons {s : Symbol} {rest : Stack} : isLinked (s :: rest) = true ↔
    (s ∈ [.terminal (.word .whereWord), .terminal (.word .and), .goal .joinKind] →
      asks rest = true) ∧ isLinked rest = true := by
  simp only [isLinked, Bool.and_eq_true, Bool.or_eq_true, Bool.not_eq_true',
    List.contains_eq_mem, decide_eq_false_iff_not]
  exact and_congr_left fun _ => ⟨fun h hs => h.resolve_left (not_not_intro hs), fun h =>
    or_iff_not_imp_left.2 fun hs => h (not_not.1 hs)⟩

theorem asks_append {s : Stack} (h : asks s = true) (rest : Stack) : asks (s ++ rest) = true := by
  match s, h with
  | .goal .condition :: _, _ => rfl
  | .goal .definition :: .terminal (.word .onWord) :: _, _ => rfl
  | .terminal _ :: _, h => exact h

theorem isLinked_append {rest : Stack} (hrest : isLinked rest = true) :
    ∀ {s : Stack}, isLinked s = true → isLinked (s ++ rest) = true
  | [], _ => hrest
  | _ :: s, h => by
    obtain ⟨hasks, hs⟩ := isLinked_cons.1 h
    exact isLinked_cons.2 ⟨fun hword => asks_append (hasks hword) rest, isLinked_append hrest hs⟩

/-- Every production is linked, and so is what comes after the words that it begins with. -/
theorem isLinked_productions (g : Goal) : ∀ p ∈ g.productions, isLinked p.tail = true ∧
    (p.head ∈ askingWords → asks p.tail = true ∨ g = .joinKind ∧ p.tail = []) := by
  have hall : ∀ g ∈ Goal.all, ∀ p ∈ g.productions, isLinked p.tail = true ∧
      (p.head ∈ askingWords → asks p.tail = true ∨ g = .joinKind ∧ p.tail = []) := by
    decide +kernel
  exact hall g g.mem_all

/-- A linked stack stays linked, and after the words that ask for a condition it asks for one or for
something else. -/
theorem isLinked_step {t : Terminal} : ∀ {s : Stack}, isLinked s = true → ∀ s' ∈ step t s,
    isLinked s' = true ∧ (t ∈ askingWords → asks s' = true)
  | .terminal u :: rest, h, s', hs' => by
    obtain ⟨hasks, hrest⟩ := isLinked_cons.1 h
    simp only [step] at hs'
    split at hs'
    · next hu =>
      obtain rfl := List.mem_singleton.1 hs'
      refine ⟨hrest, fun ht => hasks ?_⟩
      rw [← hu] at ht
      simp only [askingWords, List.mem_cons, List.not_mem_nil, or_false] at ht
      rcases ht with rfl | rfl <;> simp
    · simp at hs'
  | .goal g :: rest, h, s', hs' => by
    obtain ⟨hasks, hrest⟩ := isLinked_cons.1 h
    simp only [step, List.mem_append, List.mem_map, List.mem_filter, decide_eq_true_eq] at hs'
    rcases hs' with ⟨p, ⟨hp, rfl⟩, rfl⟩ | hs'
    · obtain ⟨htail, hhead⟩ := isLinked_productions g p hp
      refine ⟨isLinked_append hrest htail, fun ht => ?_⟩
      rcases hhead ht with hfound | ⟨rfl, hnil⟩
      · exact asks_append hfound rest
      · rw [hnil]
        exact hasks (by simp)
    · split at hs'
      · exact isLinked_step hrest s' hs'
      · simp at hs'

end Stack

section Asked

variable {machine : List Stack} {cs : List Char} {ts us : List Token} {t : Token}

/-- Any token of a text was found by a machine that can be reached and whose stacks are linked. -/
theorem Cuts.exists_suffix (h : Cuts machine cs ts) (hreached : isReached machine = true)
    (hlinked : ∀ s ∈ machine, s.isLinked = true) (hts : t :: us <:+ ts) :
    ∃ machine' cs', Cuts machine' cs' (t :: us) ∧ isReached machine' = true ∧
      ∀ s ∈ machine', s.isLinked = true := by
  induction h with
  | done => simp at hts
  | pass _ _ _ ih => exact ih hreached hlinked hts
  | @token machine cs u n ts hfirst htext hrest ih =>
    rcases List.suffix_cons_iff.1 hts with heq | hlater
    · rw [heq]
      exact ⟨machine, cs, .token hfirst htext hrest, hreached, hlinked⟩
    · refine ih (isReached_shift hreached u.kind) (fun s' hs' => ?_) hlater
      obtain ⟨s, hs, hstep⟩ := List.mem_flatMap.1 hs'
      exact (Stack.isLinked_step (hlinked s hs) s' hstep).1

/-- A condition that is read where a stack asks for something is asked for, and as it is written. -/
theorem isWritten_of_asks {s : Stack} {c : Condition} {left : List Token} {n : Nat}
    (hproper : s.isProper = true) (hasks : s.asks = true) (hcuts : Cuts [s] cs ts)
    (hread : conditionWithin n ts = some (c, left)) : c.IsWritten := by
  have hnever : ∀ {s : Stack}, Cuts [s] cs ts →
      (∀ t ∈ conditionOpeners, shift t [s] = []) →
      shift (.mark '=') (shift .ident [s]) = [] → c.IsWritten :=
    fun hcuts hnone hident =>
      (not_follows_conditionWithin hnone hident n cs ts c left hcuts hread).1.elim
  match s, hasks, hproper, hcuts with
  | .goal .condition :: rest, _, hproper, hcuts =>
    have hrest : Stack.isProper (.goal .moreConditions :: rest) = true :=
      Stack.isProper_cons.2 (Stack.isProper_cons.1 hproper)
    exact (follows_conditionWithin n hrest cs ts c left hcuts hread).1
  | .goal .definition :: .terminal (.word .onWord) :: rest, _, _, hcuts =>
    refine hnever hcuts (fun t ht => shift_eq_nil fun hmem => ?_) rfl
    have hnot : ∀ t ∈ conditionOpeners, t ∉ Goal.heads .definition := by decide
    exact hnot t ht (by simpa [accepts, Stack.firsts, Goal.optional, Goal.heads] using hmem)
  | .terminal u :: rest, hasks, _, hcuts =>
    have hnot : ∀ u ∈ [Terminal.word .name, .word .selector, .word .prop, .value],
        ∀ t ∈ conditionOpeners ++ [.ident], t ≠ u := by
      decide
    have hnone : ∀ t ∈ conditionOpeners ++ [.ident],
        shift t [.terminal u :: rest] = [] := by
      refine fun t ht => shift_eq_nil fun hmem => ?_
      exact hnot u (by simpa [Stack.asks] using hasks) t ht
        (by simpa [accepts, Stack.firsts] using hmem)
    refine hnever hcuts (fun t ht => hnone t (List.mem_append_left _ ht)) ?_
    rw [hnone .ident (by simp)]
    rfl

/-- After the first words of a statement no condition is asked for. -/
theorem openings_ask : ∀ machine ∈ openings, ∃ s ∈ machine, s.asks = false := by
  decide +kernel

/-- A condition among the tokens of a text is as it is written. -/
theorem Reading.IsAsked.isWritten {source : String} {tokens : List Token} {c : Condition}
    (htokens : tokenize source = .ok tokens) (h : IsAsked tokens c) : c.IsWritten := by
  obtain ⟨t, ts, left, hsuffix, hkind, hread⟩ := h
  obtain ⟨machine, cs, hcuts, hreached, hlinked⟩ :=
    (cuts_of_scan htokens).exists_suffix isReached_start (by decide) hsuffix
  obtain ⟨r, -, hrest⟩ := hcuts.exists_first
  have hasking : t.kind ∈ askingWords := by
    simpa [askingWords] using hkind
  have hasks : ∀ s ∈ shift t.kind machine, s.asks = true := by
    intro s' hs'
    obtain ⟨s, hs, hstep⟩ := List.mem_flatMap.1 hs'
    exact (Stack.isLinked_step (hlinked s hs) s' hstep).2 hasking
  rcases isReached_cases (isReached_shift hreached t.kind) with hnone | ⟨s, hone, hs⟩ | hopening
  · rw [hnone] at hrest
    exact absurd hrest not_cuts_nil
  · rw [hone] at hrest hasks
    exact isWritten_of_asks hs (hasks s List.mem_cons_self) hrest hread
  · obtain ⟨s, hs, hnot⟩ := openings_ask _ hopening
    rw [hasks s hs] at hnot
    exact absurd hnot (by decide)

end Asked

/-! ## 6. Statements -/

theorem condition?_toStatement {d : Draft} {s : Statement} (h : d.toStatement = .ok s) :
    d.condition? = s.condition? := by
  cases d with
  | ready s' =>
    obtain rfl := Except.ok.inj h
    rfl
  | selector name term =>
    simp only [Draft.toStatement, Outcome.bind_eq_ok, Outcome.pure_eq_ok] at h
    obtain ⟨definition, -, rfl⟩ := h
    rfl

theorem Reading.Chain.isAsked {whole ts : List Token} {ds : List Draft} (h : Chain ts ds)
    (hts : ts <:+ whole) : ∀ d ∈ ds, ∀ c ∈ d.condition?, IsAsked whole c := by
  induction h with
  | nil => simp
  | cons hfirst _ ih =>
    obtain ⟨hleft, -, hcondition⟩ := statement_draws whole _ _ _ hts hfirst
    intro d hd
    rcases List.mem_cons.1 hd with rfl | hd
    · exact hcondition
    · exact ih (hleft.trans hts) d hd

/-- The conditions in a source text are as they are written. -/
theorem isWritten_of_parse {source : String} {strict : Bool} {ss : List Statement}
    (h : parse source strict = .ok ss) : ∀ s ∈ ss, ∀ c ∈ s.condition?, c.IsWritten := by
  obtain ⟨tokens, htokens, hss, -⟩ := parse_eq_ok.1 h
  obtain ⟨ds, hchain, hmakes⟩ := statementsOf_eq_ok.1 hss
  intro s hs c hc
  obtain ⟨i, hi, rfl⟩ := List.getElem_of_mem hs
  have hlt : i < ds.length := hmakes.length_eq ▸ hi
  have hmade : ds[i].toStatement = .ok ss[i] := (List.forall₂_iff_get.1 hmakes).2 i hlt hi
  rw [← condition?_toStatement hmade] at hc
  exact (hchain.isAsked (List.suffix_refl tokens) _ (List.getElem_mem _) c hc).isWritten htokens

end Source

end StyleLedger
