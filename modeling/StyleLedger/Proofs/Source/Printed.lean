import StyleLedger.Proofs.Source.Asked
import StyleLedger.Proofs.Source.Evaluation

/-!
Conditions that are printed and read again.

A condition is printed with a blank between its tokens and with brackets around compound parts. Each
token of the printed text is found where the machine looks for it: the words and marks are spelled
out, and the names, values and groups end there as they ended where they were written
(`first?_value`, `first?_group`, `first?_ident`). The readers then put the same condition together,
because a compound never begins with a compound of its own kind.

* `parse_describe` — a condition of a text is the condition of the query that it is printed for.
-/

namespace StyleLedger

/-! ## 1. Tests in words -/

namespace Atom

variable (name v group : String) (axis : Json)

@[simp]
theorem describe_between (lo hi : String) : (width (.text lo) (.text hi)).describe =
    "width BETWEEN " ++ lo ++ " AND " ++ hi := rfl

@[simp]
theorem describe_width_atLeast : (width (.text v) .null).describe = "width >= " ++ v := rfl

@[simp]
theorem describe_width_atMost : (width .null (.text v)).describe = "width <= " ++ v := rfl

@[simp]
theorem describe_feature : (feature (.text name) (.text v)).describe = name ++ " = " ++ v := rfl

@[simp]
theorem describe_container_atLeast : (container (.text name) (.text v) .null axis).describe =
    "container " ++ name ++ (if axis.isTrue then " inline" else "") ++ " " ++ ">=" ++ " " ++ v := rfl

@[simp]
theorem describe_container_atMost : (container (.text name) .null (.text v) axis).describe =
    "container " ++ name ++ (if axis.isTrue then " inline" else "") ++ " " ++ "<=" ++ " " ++ v := rfl

@[simp]
theorem describe_containerStyle : (containerStyle (.text name) (.text group)).describe =
    "container " ++ name ++ " style" ++ group := rfl

@[simp]
theorem describe_supports : (supports (.text group)).describe = "supports" ++ group := rfl

end Atom

namespace Source

open Reading Text

/-! ## 2. Tokens that are spelled out -/

/-- A token without a place. -/
def said (t : Terminal) (x : String) (hx : x ≠ "") : Token :=
  { kind := t, text := x, position := {}, nonempty := hx }

/-- Right after a text of this kind a value ends. -/
def EndsValue (cs : List Char) : Prop :=
  pieceExtent cs = 0 ∧ nextWordExtent cs = 0

section Said

variable {machine : List Stack} {accept : List Terminal} {rest : Stack} {cs : List Char}
  {ts : List Token} {t : Terminal} {x : String}

theorem cuts_said (hx : x ≠ "")
    (hfirst : Lexeme.first? (accepts machine) (x.toList ++ cs) = some (.token t, x.toList.length))
    (hrest : Cuts (shift t machine) cs ts) : Cuts machine (x.toList ++ cs) (said t x hx :: ts) := by
  refine .token (n := x.toList.length) hfirst ?_ ?_
  · rw [List.take_left, String.ofList_toList]
    rfl
  · rw [List.drop_left]
    exact hrest

/-- What is whole is as long wherever something ends it. -/
theorem Terminal.IsWhole.extent_eq (h : t.IsWhole x) (hends : t.Ends x.toList cs) :
    t.extent (x.toList ++ cs) = x.toList.length ∧ x.toList.length ≠ 0 := by
  obtain ⟨hne, r, hr⟩ := h
  have hx : x.toList ≠ [] := by simpa using hne
  exact ⟨t.extent_exchange hx hr hends, mt List.length_eq_zero_iff.1 hx⟩

theorem first?_value (h : Terminal.value.IsWhole x) (hcs : EndsValue cs) :
    Lexeme.first? (accepts [.terminal .value :: rest]) (x.toList ++ cs) =
      some (.token .value, x.toList.length) := by
  obtain ⟨hextent, hne⟩ := h.extent_eq (t := .value) hcs
  have hlength : Lexeme.extent (.token .value) (x.toList ++ cs) = x.toList.length := hextent
  have hchosen : Lexeme.chosen (accepts [.terminal .value :: rest]) (x.toList ++ cs) =
      some (.token .value) := Lexeme.chosen_value rfl (hlength.trans_ne hne)
  rw [Lexeme.first?_eq, hchosen, Option.map_some, hlength]
  rfl

theorem first?_group (h : Terminal.group.IsWhole x) :
    Lexeme.first? (accepts [.terminal .group :: rest]) (x.toList ++ cs) =
      some (.token .group, x.toList.length) := by
  have hends : Terminal.Ends .group x.toList cs := trivial
  obtain ⟨hextent, hne⟩ := h.extent_eq hends
  have hlength : Lexeme.extent (.token .group) (x.toList ++ cs) = x.toList.length := hextent
  have hchosen : Lexeme.chosen (accepts [.terminal .group :: rest]) (x.toList ++ cs) =
      some (.token .group) := by
    refine List.find?_eq_some_iff_append.2 ⟨?_, Lexeme.inOrder.take 2, Lexeme.inOrder.drop 3, rfl,
      fun l hl => ?_⟩
    · rw [Bool.and_eq_true, bne_iff_ne]
      exact ⟨rfl, hlength.trans_ne hne⟩
    · have hall : ∀ l ∈ Lexeme.inOrder.take 2, l.admitted [.group] = false := by decide
      rw [show accepts [.terminal .group :: rest] = [.group] from rfl, hall l hl]
      rfl
  rw [Lexeme.first?_eq, hchosen, Option.map_some, hlength]
  rfl

/-- A name is found where nothing is looked for that is tried before names, unless it is one of the
words that are looked for. -/
theorem first?_ident (h : Terminal.ident.IsWhole x) (hident : .ident ∈ accept)
    (hnone : ∀ t ∈ [Terminal.function, .value, .group, .quoted], t ∉ accept)
    (hfree : ∀ k, .word k ∈ accept → k.isSpelledBy x.toList = false)
    (hcs : ∀ c ∈ cs.head?, isNameChar c = false) :
    Lexeme.first? accept (x.toList ++ cs) = some (.token .ident, x.toList.length) := by
  obtain ⟨hextent, hne⟩ := h.extent_eq (t := .ident) hcs
  have hlength : Lexeme.extent (.token .ident) (x.toList ++ cs) = x.toList.length := hextent
  have hchosen : Lexeme.chosen accept (x.toList ++ cs) = some (.token .ident) := by
    refine List.find?_eq_some_iff_append.2 ⟨?_, Lexeme.inOrder.take 4, Lexeme.inOrder.drop 5, rfl,
      fun l hl => ?_⟩
    · rw [Bool.and_eq_true, bne_iff_ne]
      exact ⟨by simpa [Lexeme.admitted] using hident, hlength.trans_ne hne⟩
    · have hall : ∀ l ∈ Lexeme.inOrder.take 4,
          ∃ t ∈ [Terminal.function, .value, .group, .quoted], l = .token t := by decide
      obtain ⟨t, ht, rfl⟩ := hall l hl
      simp [Lexeme.admitted, hnone t ht]
  have hname : Lexeme.promote accept x.toList .ident = .ident := by
    rcases Lexeme.promote_cases accept x.toList .ident with hsame | ⟨-, k, hk, hmem⟩
    · exact hsame
    · rcases Option.getD_eq_iff.1 hk with hfound | ⟨-, hsame⟩
      · have hspelled : k.isSpelledBy x.toList = true := by simpa using List.find?_some hfound
        rw [hfree k hmem] at hspelled
        exact absurd hspelled (by decide)
      · simp at hsame
  rw [Lexeme.first?_eq, hchosen, Option.map_some]
  simp only [hlength, List.take_left, hname]

theorem isNameChar_blank : ∀ c ∈ (' ' :: cs).head?, isNameChar c = false := by
  intro c hc
  obtain rfl : ' ' = c := by simpa using hc
  rfl

/-- Where only a name is looked for, any name is found. -/
theorem first?_name (h : Terminal.ident.IsWhole x) :
    Lexeme.first? (accepts [.terminal .ident :: rest]) (x.toList ++ ' ' :: cs) =
      some (.token .ident, x.toList.length) := by
  have haccepts : accepts [.terminal .ident :: rest] = [.ident] := rfl
  rw [haccepts]
  exact first?_ident h (by simp) (by decide) (by simp) isNameChar_blank

end Said

/-! ## 3. Tests -/

section Atoms

variable {rest : Stack} {cs : List Char} {ts : List Token}

/-- A word stands before the word that follows a value. -/
theorem endsValue_and : EndsValue (' ' :: 'A' :: 'N' :: 'D' :: ' ' :: cs) :=
  ⟨rfl, rfl⟩

/-- A group begins with its bracket. -/
theorem Terminal.IsWhole.exists_bracket {x : String} (h : Terminal.group.IsWhole x) :
    ∃ y, x.toList = '(' :: y := by
  obtain ⟨hne, r, hr⟩ := h
  cases hx : x.toList with
  | nil => exact absurd (String.toList_inj.1 hx) hne
  | cons c y =>
    rw [hx, List.cons_append] at hr
    have hc : Terminal.group.mayBegin c = true :=
      Terminal.mayBegin_of_extent (hr.trans_ne (Nat.succ_ne_zero _))
    exact ⟨y, by simpa [Terminal.mayBegin] using hc⟩

/-- The sign of a bound. -/
def signText (atLeast : Bool) : String :=
  if atLeast then ">=" else "<="

theorem signText_ne (atLeast : Bool) : signText atLeast ≠ "" := by
  cases atLeast <;> decide

/-- A sign is found where comparisons are looked for in a test. -/
theorem first?_sign {test : Stack} (h : accepts [test] = [.word .between, .comparison] ∨
      accepts [test] = [.word .inline, .comparison, .word .style] ∨ accepts [test] = [.comparison])
    (atLeast : Bool) :
    Lexeme.first? (accepts [test]) ((signText atLeast).toList ++ ' ' :: cs) =
      some (.token .comparison, (signText atLeast).toList.length) := by
  rcases h with h | h | h <;> rw [h] <;> cases atLeast <;> rfl

/-- A bound: a sign and a value. -/
theorem cuts_bound {test : Stack} {v : String} (h : accepts [test] = [.word .between, .comparison] ∨
      accepts [test] = [.word .inline, .comparison, .word .style] ∨ accepts [test] = [.comparison])
    (hshift : shift .comparison [test] = [.terminal .value :: rest]) (atLeast : Bool)
    (hv : Terminal.value.IsWhole v) (hcs : EndsValue cs) (hcuts : Cuts [rest] cs ts) :
    Cuts [test] ((signText atLeast).toList ++ ' ' :: (v.toList ++ cs))
      (said .comparison (signText atLeast) (signText_ne atLeast) :: said .value v hv.1 :: ts) := by
  refine cuts_said _ (first?_sign h atLeast) ((cuts_separator rfl).2 ?_)
  rw [hshift]
  exact cuts_said _ (first?_value hv hcs) hcuts

/-- The name of a container, after its word. -/
theorem cuts_container {name : String} (hname : Terminal.ident.IsWhole name)
    (hcuts : Cuts [.goal .containerTest :: .goal .moreConditions :: rest] cs ts) :
    Cuts [.goal .condition :: rest] ("container".toList ++ ' ' :: (name.toList ++ ' ' :: cs))
      (said (.word .container) "container" (by decide) :: said .ident name hname.1 :: ts) := by
  refine cuts_said _ rfl ((cuts_separator rfl).2 ?_)
  show Cuts [.terminal .ident :: .goal .containerTest :: .goal .moreConditions :: rest] _ _
  exact cuts_said _ (first?_name hname) ((cuts_separator rfl).2 hcuts)

end Atoms

/-- What is left of a filter or of brackets after a condition. -/
def Host (rest : Stack) : Prop :=
  Stack.isProper (.goal .moreConditions :: rest) = true ∧
    (rest = [.goal .closing, .goal .program] ∨ ∃ rest', rest = .terminal (.mark ')') :: rest')

/-- A text is cut into tokens where a condition is asked for, and then the condition may go on. -/
def Says (y : String) (us : List Token) : Prop :=
  ∀ {rest : Stack} {cs : List Char} {ts : List Token}, Host rest → EndsValue cs →
    Cuts [.goal .moreConditions :: rest] cs ts →
      Cuts [.goal .condition :: rest] (y.toList ++ cs) (us ++ ts)

/-- A test that is printed is cut into tokens off which the same test is read. -/
def IsKeptTest (a : Atom) : Prop :=
  ∃ us, Says a.describe us ∧ ∀ left, Reading.atom (us ++ left) = some (a, left)

section Tests

variable {name v group : String}

theorem isKeptTest_between {lo hi : String} (hlo : Terminal.value.IsWhole lo)
    (hhi : Terminal.value.IsWhole hi) : IsKeptTest (.width (.text lo) (.text hi)) := by
  refine ⟨[said (.word .width) "width" (by decide), said (.word .between) "BETWEEN" (by decide),
    said .value lo hlo.1, said (.word .and) "AND" (by decide), said .value hi hhi.1],
    fun {rest cs ts} _ hcs hcuts => ?_, fun _ => rfl⟩
  have htext : (Atom.width (.text lo) (.text hi)).describe.toList ++ cs = "width".toList ++
      ' ' :: ("BETWEEN".toList ++ ' ' :: (lo.toList ++ ' ' :: ("AND".toList ++
        ' ' :: (hi.toList ++ cs)))) := by
    simp
  rw [htext]
  refine cuts_said _ rfl ((cuts_separator rfl).2 ?_)
  show Cuts [.goal .widthTest :: .goal .moreConditions :: rest] _ _
  refine cuts_said _ rfl ((cuts_separator rfl).2 ?_)
  show Cuts [.terminal .value :: .terminal (.word .and) :: .terminal .value ::
    .goal .moreConditions :: rest] _ _
  refine cuts_said _ (first?_value hlo endsValue_and) ((cuts_separator rfl).2 ?_)
  show Cuts [.terminal (.word .and) :: .terminal .value :: .goal .moreConditions :: rest] _ _
  refine cuts_said _ rfl ((cuts_separator rfl).2 ?_)
  exact cuts_said _ (first?_value hhi hcs) hcuts

theorem isKeptTest_width (atLeast : Bool) (hv : Terminal.value.IsWhole v) :
    IsKeptTest (if atLeast then .width (.text v) .null else .width .null (.text v)) := by
  refine ⟨[said (.word .width) "width" (by decide),
    said .comparison (signText atLeast) (signText_ne atLeast), said .value v hv.1],
    fun {rest cs ts} _ hcs hcuts => ?_, fun _ => by cases atLeast <;> rfl⟩
  have htext : (if atLeast then Atom.width (.text v) .null
      else .width .null (.text v)).describe.toList ++ cs =
      "width".toList ++ ' ' :: ((signText atLeast).toList ++ ' ' :: (v.toList ++ cs)) := by
    cases atLeast <;> simp [signText]
  rw [htext]
  refine cuts_said _ rfl ((cuts_separator rfl).2 ?_)
  show Cuts [.goal .widthTest :: .goal .moreConditions :: rest] _ _
  exact cuts_bound (.inl rfl) rfl atLeast hv hcs hcuts

theorem isKeptTest_feature (hname : Terminal.ident.IsWhole name)
    (hfree : ∀ k ∈ testWords, k.isSpelledBy name.toList = false) (hv : Terminal.value.IsWhole v) :
    IsKeptTest (.feature (.text name) (.text v)) := by
  refine ⟨[said .ident name hname.1, said (.mark '=') "=" (by decide), said .value v hv.1],
    fun {rest cs ts} _ hcs hcuts => ?_, fun _ => rfl⟩
  have htext : (Atom.feature (.text name) (.text v)).describe.toList ++ cs =
      name.toList ++ ' ' :: ("=".toList ++ ' ' :: (v.toList ++ cs)) := by
    simp
  -- the words that are looked for where a name may open a test are none of the name's spellings
  have hfirst : Lexeme.first? (accepts [.goal .condition :: rest])
      (name.toList ++ ' ' :: ("=".toList ++ ' ' :: (v.toList ++ cs))) =
        some (.token .ident, name.toList.length) := by
    have haccepts : accepts [.goal .condition :: rest] = Goal.heads .condition := rfl
    have hwords : ∀ k ∈ Keyword.byLength, .word k ∈ Goal.heads .condition → k ∈ testWords := by
      decide
    rw [haccepts]
    exact first?_ident hname (by decide) (by decide)
      (fun k hk => hfree k (hwords k k.mem_byLength hk)) isNameChar_blank
  rw [htext]
  refine cuts_said _ hfirst ((cuts_separator rfl).2 ?_)
  show Cuts [.terminal (.mark '=') :: .terminal .value :: .goal .moreConditions :: rest] _ _
  refine cuts_said _ rfl ((cuts_separator rfl).2 ?_)
  exact cuts_said _ (first?_value hv hcs) hcuts

/-- A bound on a container, of either sign. -/
theorem isKeptTest_container (atLeast : Bool) (hname : Terminal.ident.IsWhole name)
    (hv : Terminal.value.IsWhole v) :
    IsKeptTest (if atLeast then .container (.text name) (.text v) .null .null
      else .container (.text name) .null (.text v) .null) := by
  refine ⟨[said (.word .container) "container" (by decide), said .ident name hname.1,
    said .comparison (signText atLeast) (signText_ne atLeast), said .value v hv.1],
    fun {rest cs ts} _ hcs hcuts => ?_, fun _ => by cases atLeast <;> rfl⟩
  have htext : (if atLeast then Atom.container (.text name) (.text v) .null .null
      else .container (.text name) .null (.text v) .null).describe.toList ++ cs =
      "container".toList ++ ' ' :: (name.toList ++ ' ' :: ((signText atLeast).toList ++
        ' ' :: (v.toList ++ cs))) := by
    cases atLeast <;> simp [Json.isTrue, signText]
  rw [htext]
  exact cuts_container hname (cuts_bound (.inr (.inl rfl)) rfl atLeast hv hcs hcuts)

/-- A bound on the inline size of a container, of either sign. -/
theorem isKeptTest_inline (atLeast : Bool) (hname : Terminal.ident.IsWhole name)
    (hv : Terminal.value.IsWhole v) :
    IsKeptTest (if atLeast then .container (.text name) (.text v) .null (.text "inline")
      else .container (.text name) .null (.text v) (.text "inline")) := by
  refine ⟨[said (.word .container) "container" (by decide), said .ident name hname.1,
    said (.word .inline) "inline" (by decide),
    said .comparison (signText atLeast) (signText_ne atLeast), said .value v hv.1],
    fun {rest cs ts} _ hcs hcuts => ?_, fun _ => by cases atLeast <;> rfl⟩
  have htext : (if atLeast then Atom.container (.text name) (.text v) .null (.text "inline")
      else .container (.text name) .null (.text v) (.text "inline")).describe.toList ++ cs =
      "container".toList ++ ' ' :: (name.toList ++ ' ' :: ("inline".toList ++
        ' ' :: ((signText atLeast).toList ++ ' ' :: (v.toList ++ cs)))) := by
    cases atLeast <;> simp [Json.isTrue, signText]
  rw [htext]
  refine cuts_container hname (cuts_said _ rfl ((cuts_separator rfl).2 ?_))
  show Cuts [.terminal .comparison :: .terminal .value :: .goal .moreConditions :: rest] _ _
  exact cuts_bound (.inr (.inr rfl)) rfl atLeast hv hcs hcuts

theorem isKeptTest_containerStyle (hname : Terminal.ident.IsWhole name)
    (hgroup : Terminal.group.IsWhole group) :
    IsKeptTest (.containerStyle (.text name) (.text group)) := by
  refine ⟨[said (.word .container) "container" (by decide), said .ident name hname.1,
    said (.word .style) "style" (by decide), said .group group hgroup.1],
    fun {rest cs ts} _ hcs hcuts => ?_, fun _ => rfl⟩
  have htext : (Atom.containerStyle (.text name) (.text group)).describe.toList ++ cs =
      "container".toList ++ ' ' :: (name.toList ++ ' ' :: ("style".toList ++
        (group.toList ++ cs))) := by
    simp
  rw [htext]
  refine cuts_container hname (cuts_said _ rfl ?_)
  exact cuts_said _ (first?_group hgroup) hcuts

theorem isKeptTest_supports (hgroup : Terminal.group.IsWhole group) :
    IsKeptTest (.supports (.text group)) := by
  refine ⟨[said (.word .supports) "supports" (by decide), said .group group hgroup.1],
    fun {rest cs ts} _ hcs hcuts => ?_, fun _ => rfl⟩
  have htext : (Atom.supports (.text group)).describe.toList ++ cs =
      "supports".toList ++ (group.toList ++ cs) := by
    simp
  have hfirst : Lexeme.first? (accepts [.goal .condition :: rest])
      ("supports".toList ++ (group.toList ++ cs)) =
        some (.token (.word .supports), "supports".toList.length) := by
    obtain ⟨y, hy⟩ := hgroup.exists_bracket
    rw [hy]
    rfl
  rw [htext]
  exact cuts_said _ hfirst (cuts_said _ (first?_group hgroup) hcuts)

end Tests

end Source

open Source

theorem Atom.IsWritten.isKeptTest {a : Atom} (h : a.IsWritten) : IsKeptTest a := by
  cases h with
  | between hlo hhi => exact isKeptTest_between hlo hhi
  | @width atLeast _ hv => exact isKeptTest_width atLeast hv
  | feature hname hfree hv => exact isKeptTest_feature hname hfree hv
  | @container inline atLeast _ _ hname hv =>
    cases inline with
    | none => exact isKeptTest_container atLeast hname hv
    | some _ => exact isKeptTest_inline atLeast hname hv
  | containerStyle hname hgroup => exact isKeptTest_containerStyle hname hgroup
  | supports hgroup => exact isKeptTest_supports hgroup

/-! ## 4. Parts with a word between them -/

namespace Source.Reading

section Joined

variable {α : Type} {left : List Token} {k : Keyword} {w : Token}

theorem word_bind_eq_none {f : Unit → Reading α} (hleft : ∀ t ∈ left.head?, t.kind ≠ .word k) :
    (word k >>= f) left = none := by
  cases left with
  | nil => rfl
  | cons t ts =>
    have htake : take (.word k) (t :: ts) = none := if_neg (hleft t rfl)
    show (((take (.word k) (t :: ts)).bind fun x => some ((), x.2)).bind fun x => f x.1 x.2) = none
    rw [htake]
    rfl

theorem word_bind_cons {f : Unit → Reading α} (hw : w.kind = .word k) (ts : List Token) :
    (word k >>= f) (w :: ts) = f () ts := by
  have htake : take (.word k) (w :: ts) = some (w, ts) := if_pos hw
  show (((take (.word k) (w :: ts)).bind fun x => some ((), x.2)).bind fun x => f x.1 x.2) = f () ts
  rw [htake]
  rfl

variable {r : Reading Condition} {G : List Token → Prop}

/-- What comes after a part is asked for, whether a further part comes next or not. -/
theorem guard_blocks (hword : ∀ ts, G (w :: ts)) (hG : G left)
    (blocks : List (List Token × Condition)) : G (blocks.flatMap (fun b => w :: b.1) ++ left) := by
  cases blocks with
  | nil => exact hG
  | cons b blocks => exact hword _

/-- Parts, each after its word, are read one after another. `G` is asked of what comes after a
part. -/
theorem manyWithin_blocks (hw : w.kind = .word k) (hword : ∀ ts, G (w :: ts))
    (hleft : ∀ t ∈ left.head?, t.kind ≠ .word k) (hG : G left) :
    ∀ (blocks : List (List Token × Condition)) {n : Nat}, blocks.length ≤ n →
      (∀ b ∈ blocks, ∀ left, G left → r (b.1 ++ left) = some (b.2, left)) →
      manyWithin (do word k; r) n (blocks.flatMap (fun b => w :: b.1) ++ left) =
        some (blocks.map Prod.snd, left)
  | [], 0, _, _ => rfl
  | [], n + 1, _, _ => by
    rw [List.flatMap_nil, List.nil_append, manyWithin_succ, word_bind_eq_none hleft]
    rfl
  | b :: blocks, n + 1, hn, hread => by
    have hrest := manyWithin_blocks hw hword hleft hG blocks (Nat.le_of_succ_le_succ hn)
      fun b hb => hread b (List.mem_cons_of_mem _ hb)
    rw [manyWithin_succ, List.flatMap_cons, List.append_assoc, List.cons_append,
      word_bind_cons hw, hread b List.mem_cons_self _ (guard_blocks hword hG blocks),
      Option.bind_some, hrest]
    rfl

theorem length_le_flatMap (w : Token) (blocks : List (List Token × Condition)) :
    blocks.length ≤ (blocks.flatMap fun b => w :: b.1).length := by
  induction blocks with
  | nil => exact Nat.zero_le _
  | cons b blocks ih =>
    rw [List.flatMap_cons, List.length_append, List.length_cons, List.length_cons]
    omega

/-- Parts with a word between them are read and joined from left to right. -/
theorem joined_blocks {combine : Condition → Condition → Condition} {us : List Token}
    {c : Condition} (blocks : List (List Token × Condition)) (hw : w.kind = .word k)
    (hword : ∀ ts, G (w :: ts)) (hfirst : ∀ left, G left → r (us ++ left) = some (c, left))
    (hmore : ∀ b ∈ blocks, ∀ left, G left → r (b.1 ++ left) = some (b.2, left))
    (hleft : ∀ t ∈ left.head?, t.kind ≠ .word k) (hG : G left) :
    joined r k combine (us ++ (blocks.flatMap (fun b => w :: b.1) ++ left)) =
      some ((blocks.map Prod.snd).foldl combine c, left) := by
  have hmany : many (do word k; r) (blocks.flatMap (fun b => w :: b.1) ++ left) =
      some (blocks.map Prod.snd, left) := by
    refine manyWithin_blocks hw hword hleft hG blocks ?_ hmore
    rw [List.length_append]
    exact Nat.le_trans (length_le_flatMap w blocks) (Nat.le_add_right _ _)
  show ((r (us ++ (blocks.flatMap (fun b => w :: b.1) ++ left))).bind fun x =>
    (many (do word k; r) x.2).bind fun y => some (y.1.foldl combine x.1, y.2)) = _
  rw [hfirst _ (guard_blocks hword hG blocks), Option.bind_some, hmany]
  rfl

end Joined

end Source.Reading

/-! ## 5. Conditions -/

namespace Condition

/-- A condition as it stands inside a compound. -/
def inner : Condition → String
  | atom a => a.describe
  | all parts => "(" ++ (all parts).describe ++ ")"
  | any parts => "(" ++ (any parts).describe ++ ")"

theorem describeParts_eq : ∀ ps : List Condition, describeParts ps = ps.map inner
  | [] => rfl
  | atom a :: ps => by rw [describeParts, describeParts_eq ps]; rfl
  | all parts :: ps => by rw [describeParts, describeParts_eq ps]; rfl
  | any parts :: ps => by rw [describeParts, describeParts_eq ps]; rfl

theorem describe_all (ps : List Condition) :
    (all ps).describe = " AND ".intercalate (ps.map inner) := by
  rw [describe, describeParts_eq]

theorem describe_any (ps : List Condition) :
    (any ps).describe = " OR ".intercalate (ps.map inner) := by
  rw [describe, describeParts_eq]

end Condition

namespace Source

open Reading

theorem toList_intercalate (separator x : String) (xs : List String) :
    (separator.intercalate (x :: xs)).toList =
      x.toList ++ xs.flatMap fun y => separator.toList ++ y.toList := by
  induction xs generalizing x with
  | nil => simp
  | cons y ys ih => simp [String.intercalate_cons_cons, ih]

theorem foldl_conjoin {p : Condition} (hp : p.isAll = false) {ps : List Condition} (hps : ps ≠ []) :
    ps.foldl conjoin p = .all (p :: ps) := by
  have hmore : ∀ (ps qs : List Condition), ps.foldl conjoin (.all qs) = .all (qs ++ ps) := by
    intro ps
    induction ps with
    | nil => simp
    | cons q ps ih => simp [conjoin, ih]
  obtain ⟨q, ps, rfl⟩ := List.exists_cons_of_ne_nil hps
  have hfirst : conjoin p q = .all [p, q] := by
    cases p with
    | all parts => simp [Condition.isAll] at hp
    | atom a | any parts => rfl
  rw [List.foldl_cons, hfirst, hmore]
  rfl

theorem foldl_disjoin {p : Condition} (hp : p.isAny = false) {ps : List Condition} (hps : ps ≠ []) :
    ps.foldl disjoin p = .any (p :: ps) := by
  have hmore : ∀ (ps qs : List Condition), ps.foldl disjoin (.any qs) = .any (qs ++ ps) := by
    intro ps
    induction ps with
    | nil => simp
    | cons q ps ih => simp [disjoin, ih]
  obtain ⟨q, ps, rfl⟩ := List.exists_cons_of_ne_nil hps
  have hfirst : disjoin p q = .any [p, q] := by
    cases p with
    | any parts => simp [Condition.isAny] at hp
    | atom a | all parts => rfl
  rw [List.foldl_cons, hfirst, hmore]
  rfl

/-- The word that joins the parts of a compound, in capitals. -/
def joinToken (k : Keyword) (hk : k = .and ∨ k = .or) : Token :=
  said (.word k) k.spelling (by rcases hk with rfl | rfl <;> decide)

section Parts

variable {rest : Stack} {cs : List Char} {ts : List Token} {k : Keyword}

/-- A value ends before a word that joins. -/
theorem endsValue_joinWord (hk : k = .and ∨ k = .or) :
    EndsValue (' ' :: (k.spelling.toList ++ ' ' :: cs)) := by
  rcases hk with rfl | rfl
  · exact ⟨rfl, rfl⟩
  · exact ⟨rfl, rfl⟩

/-- A word that joins is found where a condition may go on. -/
theorem first?_joinWord (hk : k = .and ∨ k = .or) (hrest : Host rest) :
    Lexeme.first? (accepts [.goal .moreConditions :: rest]) (k.spelling.toList ++ ' ' :: cs) =
      some (.token (.word k), k.spelling.toList.length) := by
  rcases hrest.2 with rfl | ⟨rest', rfl⟩
  · rcases hk with rfl | rfl <;> exact (Lexeme.quickFirst?_eq _ _ _).symm.trans rfl
  · rcases hk with rfl | rfl <;> exact (Lexeme.quickFirst?_eq _ _ _).symm.trans rfl

/-- Further parts of a compound, each after its word. -/
theorem cuts_blocks (hk : k = .and ∨ k = .or) (hrest : Host rest) (hcs : EndsValue cs)
    (hcuts : Cuts [.goal .moreConditions :: rest] cs ts) :
    ∀ {blocks : List (List Token × Condition)}, (∀ b ∈ blocks, Says b.2.inner b.1) →
      EndsValue
        (blocks.flatMap (fun b => (" " ++ k.spelling ++ " ").toList ++ b.2.inner.toList) ++ cs) ∧
      Cuts [.goal .moreConditions :: rest]
        (blocks.flatMap (fun b => (" " ++ k.spelling ++ " ").toList ++ b.2.inner.toList) ++ cs)
        (blocks.flatMap (fun b => joinToken k hk :: b.1) ++ ts)
  | [], _ => ⟨hcs, hcuts⟩
  | b :: blocks, h => by
    obtain ⟨hends, hmore⟩ := cuts_blocks hk hrest hcs hcuts fun b hb =>
      h b (List.mem_cons_of_mem _ hb)
    have htext : ∀ rest : List Char, (" " ++ k.spelling ++ " ").toList ++ b.2.inner.toList ++ rest =
        ' ' :: (k.spelling.toList ++ ' ' :: (b.2.inner.toList ++ rest)) := by
      simp
    rw [List.flatMap_cons, List.flatMap_cons, List.append_assoc, htext, List.append_assoc]
    refine ⟨endsValue_joinWord hk, (cuts_separator rfl).2 ?_⟩
    refine cuts_said _ (first?_joinWord hk hrest) ((cuts_separator rfl).2 ?_)
    rw [shift_joinWord hk hrest.1]
    exact h b List.mem_cons_self hrest hends hmore

/-- A compound is cut into the tokens of its parts and the words between them. -/
theorem says_compound (hk : k = .and ∨ k = .or) {p : Condition} {us : List Token}
    {blocks : List (List Token × Condition)} (hp : Says p.inner us)
    (hblocks : ∀ b ∈ blocks, Says b.2.inner b.1) :
    Says ((" " ++ k.spelling ++ " ").intercalate ((p :: blocks.map Prod.snd).map Condition.inner))
      (us ++ blocks.flatMap fun b => joinToken k hk :: b.1) := by
  intro rest cs ts hrest hcs hcuts
  obtain ⟨hends, hmore⟩ := cuts_blocks hk hrest hcs hcuts hblocks
  have hwhole := hp hrest hends hmore
  rw [List.map_cons, toList_intercalate]
  simpa [List.flatMap_map] using hwhole

/-- Brackets around what is printed. -/
theorem says_bracketed {y : String} {us : List Token} (h : Says y us) :
    Says ("(" ++ y ++ ")") (said (.mark '(') "(" (by decide) :: us ++
      [said (.mark ')') ")" (by decide)]) := by
  intro rest cs ts hrest hcs hcuts
  have htext : ("(" ++ y ++ ")").toList ++ cs =
      "(".toList ++ (y.toList ++ (")".toList ++ cs)) := by
    simp
  rw [htext]
  simp only [List.cons_append, List.append_assoc]
  refine cuts_said _ rfl ?_
  show Cuts [.goal .condition :: .terminal (.mark ')') :: .goal .moreConditions :: rest] _ _
  refine h ⟨isProper_bracketed hrest.1, .inr ⟨_, rfl⟩⟩ ⟨rfl, rfl⟩ ?_
  refine cuts_said _ rfl ?_
  exact hcuts

end Parts

/-- No further part of a condition comes next. -/
def IsOver (left : List Token) : Prop :=
  ∀ t ∈ left.head?, t.kind ≠ .word .and ∧ t.kind ≠ .word .or

/-- A condition that is printed is cut into tokens off which the same condition is read. -/
def IsKept (c : Condition) : Prop :=
  ∃ us, Says c.describe us ∧ ∀ n left, us.length < n → IsOver left →
    conditionWithin n (us ++ left) = some (c, left)

/-- A condition that is printed inside a compound is cut into tokens off which the same condition is
read as a part. -/
def IsKeptInside (c : Condition) : Prop :=
  ∃ us, Says c.inner us ∧ ∀ n left, us.length ≤ n → partWithin n (us ++ left) = some (c, left)

section Kept

variable {c p : Condition} {ps : List Condition} {n : Nat} {us left : List Token}

/-- No further part of a conjunction comes next. -/
def IsOverWithin (left : List Token) : Prop :=
  ∀ t ∈ left.head?, t.kind ≠ .word .and

theorem isOverWithin_or (ts : List Token) : IsOverWithin (joinToken .or (.inr rfl) :: ts) := by
  intro t ht
  obtain rfl : joinToken .or (.inr rfl) = t := by simpa using ht
  simp [joinToken, said]

/-- A part by itself is a conjunction of one part. -/
theorem conjunction_of_part (hpart : ∀ left, partWithin n (us ++ left) = some (c, left))
    (hleft : IsOverWithin left) :
    joined (partWithin n) .and conjoin (us ++ left) = some (c, left) :=
  joined_blocks (w := joinToken .and (.inl rfl)) (G := fun _ => True) [] rfl
    (fun _ => trivial) (fun left _ => hpart left) (by simp) hleft trivial

/-- A conjunction by itself is a condition. -/
theorem condition_of_conjunction
    (hread : ∀ left, IsOverWithin left →
      joined (partWithin n) .and conjoin (us ++ left) = some (c, left))
    (hleft : IsOver left) : conditionWithin (n + 1) (us ++ left) = some (c, left) := by
  rw [conditionWithin_succ]
  exact joined_blocks (w := joinToken .or (.inr rfl)) (G := IsOverWithin) [] rfl
    isOverWithin_or hread (by simp) (fun t ht => (hleft t ht).2) fun t ht => (hleft t ht).1

theorem isKept_atom {a : Atom} (h : a.IsWritten) : IsKept (.atom a) ∧ IsKeptInside (.atom a) := by
  obtain ⟨us, hcut, hreads⟩ := h.isKeptTest
  have hpart : ∀ n left, partWithin n (us ++ left) = some (.atom a, left) := by
    intro n left
    show (((atom (us ++ left)).bind fun x => some (Condition.atom x.1, x.2)) <|> _) = _
    rw [hreads]
    rfl
  refine ⟨⟨us, hcut, fun n left hn hleft => ?_⟩, us, hcut, fun n left _ => hpart n left⟩
  obtain ⟨m, rfl⟩ := Nat.exists_eq_succ_of_ne_zero (Nat.ne_zero_of_lt hn)
  exact condition_of_conjunction (fun left => conjunction_of_part (hpart m)) hleft

/-- A compound is kept inside another one, because brackets keep it together. -/
theorem IsKept.isKeptInside (h : IsKept c) (hinner : c.inner = "(" ++ c.describe ++ ")") :
    IsKeptInside c := by
  obtain ⟨us, hcut, hreads⟩ := h
  refine ⟨_, hinner ▸ says_bracketed hcut, fun n left hn => ?_⟩
  have hwithin : conditionWithin n (us ++ (said (.mark ')') ")" (by decide) :: left)) =
      some (c, said (.mark ')') ")" (by decide) :: left) := by
    refine hreads n _ ?_ fun t ht => ?_
    · simp only [List.length_append, List.length_cons, List.length_nil] at hn
      omega
    · obtain rfl : said (.mark ')') ")" (by decide) = t := by simpa using ht
      simp [said]
  simp only [List.cons_append, List.append_assoc, List.nil_append]
  show ((conditionWithin n (us ++ (said (.mark ')') ")" (by decide) :: left))).bind fun x =>
    (mark ')' x.2).bind fun y => some (x.1, y.2)) = _
  rw [hwithin]
  rfl

/-- The tokens of some parts. -/
theorem exists_blocks (h : ∀ q ∈ ps, IsKeptInside q) :
    ∃ blocks : List (List Token × Condition), blocks.map Prod.snd = ps ∧
      ∀ b ∈ blocks, Says b.2.inner b.1 ∧
        ∀ n left, b.1.length ≤ n → partWithin n (b.1 ++ left) = some (b.2, left) := by
  induction ps with
  | nil => exact ⟨[], rfl, by simp⟩
  | cons p ps ih =>
    obtain ⟨us, hus⟩ := h p List.mem_cons_self
    obtain ⟨blocks, rfl, hblocks⟩ := ih fun q hq => h q (List.mem_cons_of_mem p hq)
    exact ⟨(us, p) :: blocks, rfl, List.forall_mem_cons.2 ⟨hus, hblocks⟩⟩

/-- The tokens of a compound outnumber those of a part. -/
theorem length_le_of_mem_blocks {w : Token} {blocks : List (List Token × Condition)}
    {b : List Token × Condition} (hb : b ∈ blocks) :
    b.1.length ≤ (blocks.flatMap fun b => w :: b.1).length := by
  rw [List.flatMap_def]
  have hsub := List.sublist_flatten_of_mem (List.mem_map_of_mem (f := fun b => w :: b.1) hb)
  exact Nat.le_trans (Nat.le_succ _) hsub.length_le

theorem isKept_all (hp : p.isAll = false) (hps : ps ≠ []) (h : ∀ q ∈ p :: ps, IsKeptInside q) :
    IsKept (.all (p :: ps)) := by
  obtain ⟨us, hcut, hreads⟩ := h p List.mem_cons_self
  obtain ⟨blocks, rfl, hblocks⟩ := exists_blocks fun q hq => h q (List.mem_cons_of_mem p hq)
  refine ⟨us ++ blocks.flatMap fun b => joinToken .and (.inl rfl) :: b.1, ?_,
    fun n left hn hleft => ?_⟩
  · rw [Condition.describe_all]
    exact says_compound (.inl rfl) hcut fun b hb => (hblocks b hb).1
  · obtain ⟨m, rfl⟩ := Nat.exists_eq_succ_of_ne_zero (Nat.ne_zero_of_lt hn)
    rw [List.length_append] at hn
    refine condition_of_conjunction (fun left hleft => ?_) hleft
    rw [List.append_assoc, joined_blocks (G := fun _ => True) blocks rfl (fun _ => trivial)
      (fun left _ => hreads m left (by omega)) (fun b hb left _ => (hblocks b hb).2 m left ?_) hleft
      trivial, foldl_conjoin hp hps]
    have := length_le_of_mem_blocks (w := joinToken .and (.inl rfl)) hb
    omega

theorem isKept_any (hp : p.isAny = false) (hps : ps ≠ []) (h : ∀ q ∈ p :: ps, IsKeptInside q) :
    IsKept (.any (p :: ps)) := by
  obtain ⟨us, hcut, hreads⟩ := h p List.mem_cons_self
  obtain ⟨blocks, rfl, hblocks⟩ := exists_blocks fun q hq => h q (List.mem_cons_of_mem p hq)
  refine ⟨us ++ blocks.flatMap fun b => joinToken .or (.inr rfl) :: b.1, ?_,
    fun n left hn hleft => ?_⟩
  · rw [Condition.describe_any]
    exact says_compound (.inr rfl) hcut fun b hb => (hblocks b hb).1
  · obtain ⟨m, rfl⟩ := Nat.exists_eq_succ_of_ne_zero (Nat.ne_zero_of_lt hn)
    rw [List.length_append] at hn
    rw [conditionWithin_succ, List.append_assoc, joined_blocks (G := IsOverWithin) blocks rfl
      isOverWithin_or (fun left => conjunction_of_part fun left => hreads m left (by omega))
      (fun b hb left => conjunction_of_part fun left => (hblocks b hb).2 m left ?_)
      (fun t ht => (hleft t ht).2) fun t ht => (hleft t ht).1, foldl_disjoin hp hps]
    have := length_le_of_mem_blocks (w := joinToken .or (.inr rfl)) hb
    omega

end Kept

end Source

/-- A condition as it is written is kept when it is printed. -/
theorem Condition.IsWritten.isKept {c : Condition} (h : c.IsWritten) :
    IsKept c ∧ IsKeptInside c := by
  induction h with
  | atom ha => exact isKept_atom ha
  | all hp hps _ ih =>
    have hkept := isKept_all hp hps fun q hq => (ih q hq).2
    exact ⟨hkept, hkept.isKeptInside rfl⟩
  | any hp hps _ ih =>
    have hkept := isKept_any hp hps fun q hq => (ih q hq).2
    exact ⟨hkept, hkept.isKeptInside rfl⟩

/-! ## 6. A query with a printed condition -/

namespace Source

open Reading Outcome

/-- The words of a query before its condition. -/
def queryWords : List Token :=
  [said (.word .select) "SELECT" (by decide), said (.word .styleProps) "style_props" (by decide),
    said (.word .whereWord) "WHERE" (by decide), said (.word .selector) "selector" (by decide),
    said (.mark '=') "=" (by decide), said .ident "x" (by decide),
    said (.word .and) "AND" (by decide)]

theorem host_query : Host [.goal .closing, .goal .program] :=
  ⟨by decide, .inl rfl⟩

theorem cuts_query {cs : List Char} {ts : List Token}
    (h : Cuts [[.goal .condition, .goal .closing, .goal .program]] cs ts) :
    Cuts start ("SELECT style_props WHERE selector = x AND ".toList ++ cs) (queryWords ++ ts) := by
  have htext : "SELECT style_props WHERE selector = x AND ".toList ++ cs =
      "SELECT".toList ++ ' ' :: ("style_props".toList ++ ' ' :: ("WHERE".toList ++
        ' ' :: ("selector".toList ++ ' ' :: ("=".toList ++ ' ' :: ("x".toList ++
          ' ' :: ("AND".toList ++ ' ' :: cs)))))) := by
    simp
  rw [htext]
  refine cuts_said _ rfl ((cuts_separator rfl).2 ?_)
  show Cuts [[.terminal (.word .styleProps), .terminal (.word .whereWord),
    .terminal (.word .selector), .terminal (.mark '='), .terminal .ident, .goal .filterCondition,
    .goal .closing, .goal .program]] _ _
  refine cuts_said _ rfl ((cuts_separator rfl).2 (cuts_said _ rfl ((cuts_separator rfl).2 ?_)))
  refine cuts_said _ rfl ((cuts_separator rfl).2 (cuts_said _ rfl ((cuts_separator rfl).2 ?_)))
  show Cuts [[.terminal .ident, .goal .filterCondition, .goal .closing, .goal .program]] _ _
  refine cuts_said _ rfl ((cuts_separator rfl).2 ?_)
  show Cuts [[.goal .filterCondition, .goal .closing, .goal .program]] _ _
  exact cuts_said _ rfl ((cuts_separator rfl).2 h)

theorem oneOf_append_of_none {α : Type} {rs rs' : List (Reading α)} {ts : List Token}
    (h : ∀ r ∈ rs, r ts = none) : oneOf (rs ++ rs') ts = oneOf rs' ts := by
  induction rs with
  | nil => rfl
  | cons r rs ih =>
    show (r ts <|> oneOf (rs ++ rs') ts) = _
    rw [h r List.mem_cons_self, ih fun r hr => h r (List.mem_cons_of_mem _ hr)]
    rfl

/-- No other statement begins like a query. -/
theorem not_query (us : List Token) : ∀ r ∈ tokenStatements ++ selectorStatements ++
    styleStatements ++ settingStatements ++ ruleCreations ++ ruleRemovals,
    r (queryWords ++ us) = none := by
  simp only [tokenStatements, selectorStatements, styleStatements, settingStatements,
    ruleCreations, ruleRemovals, List.cons_append, List.nil_append, List.forall_mem_cons,
    List.not_mem_nil, false_implies, implies_true, and_true]
  and_intros <;> rfl

/-- A query is read with the condition that is read after its words. -/
theorem statement_query {us : List Token} {c : Condition} (h : condition us = some (c, [])) :
    statement (queryWords ++ us) = some (.ready (.selectStyles "x" (some c)), []) := by
  have hasked : maybe (do word .and; condition) (said (.word .and) "AND" (by decide) :: us) =
      some (some c, []) := by
    show (((condition us).bind fun x => some (some x.1, x.2)) <|> _) = _
    rw [h]
    rfl
  have hfilter : filter (queryWords.drop 2 ++ us) = some (("x", some c), []) := by
    show ((maybe (do word .and; condition) (said (.word .and) "AND" (by decide) :: us)).bind
      fun x => some (("x", x.1), x.2)) = _
    rw [hasked]
    rfl
  rw [statement, oneOf_append_of_none (not_query us)]
  show (((filter (queryWords.drop 2 ++ us)).bind fun x => (optionalSemicolon x.2).bind fun y =>
    some (Draft.ready (.selectStyles x.1.1 x.1.2), y.2)) <|> _) = _
  rw [hfilter]
  rfl

/-- A condition of a source text, printed as the condition of a query, is the condition of the query
that is read. -/
theorem parse_describe {source : String} {strict : Bool} {ss : List Statement} {s : Statement}
    {c : Condition} (h : parse source strict = .ok ss) (hs : s ∈ ss) (hc : s.condition? = some c) :
    parse ("SELECT style_props WHERE selector = x AND " ++ c.describe) false =
      .ok [.selectStyles "x" (some c)] := by
  obtain ⟨us, hcut, hreads⟩ := (isWritten_of_parse h s hs c hc).isKept.1
  have hread : condition us = some (c, []) := by
    have hwhole := hreads (us.length + 1) [] (Nat.lt_succ_self _) (by simp [IsOver])
    rwa [List.append_nil] at hwhole
  have hend : Cuts [[.goal .moreConditions, .goal .closing, .goal .program]] [] [] :=
    .done rfl
  have hcuts := cuts_query (hcut host_query ⟨rfl, rfl⟩ hend)
  rw [List.append_nil, List.append_nil, ← String.toList_append] at hcuts
  obtain ⟨vs, hvs, hsame⟩ := hcuts.exists_scan {} {}
  have hchain : Chain (queryWords ++ us) [.ready (.selectStyles "x" (some c))] :=
    .cons (statement_query hread) .nil
  refine parse_eq_ok.2 ⟨vs, hvs, statementsOf_unplaced ?_ hsame, by simp⟩
  exact statementsOf_eq_ok.2 ⟨_, hchain, .cons rfl .nil⟩

/-- Brackets within brackets, a value that begins with a word, and one that begins like a comment. -/
theorem parse_describe_nested : ∃ ss s c,
    parse "CREATE STYLE SELECTOR card () WHERE a = and b AND (width < --w OR (c = 'd)' AND e = f));"
      true = .ok ss ∧ s ∈ ss ∧ s.condition? = some c ∧
    c.describe = "a = and b AND (width <= --w OR (c = 'd)' AND e = f))" ∧
    parse ("SELECT style_props WHERE selector = x AND " ++ c.describe) false =
      .ok [.selectStyles "x" (some c)] := by
  obtain ⟨ss, hss, hshape⟩ := exists_ok_of_any
    (p := fun ss => ss.any fun s => s.condition?.map Condition.describe ==
      some "a = and b AND (width <= --w OR (c = 'd)' AND e = f))")
    (x := parse
      "CREATE STYLE SELECTOR card () WHERE a = and b AND (width < --w OR (c = 'd)' AND e = f));" true)
    (by
      rw [parse_ofList]
      decide +kernel)
  obtain ⟨s, hs, hshown⟩ := List.any_eq_true.1 hshape
  obtain ⟨c, hc, hdescribe⟩ := Option.map_eq_some_iff.1 (beq_iff_eq.1 hshown)
  exact ⟨ss, s, c, hss, hs, hc, hdescribe, parse_describe hss hs hc⟩

end Source

end StyleLedger
