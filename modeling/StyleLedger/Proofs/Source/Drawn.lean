import StyleLedger.Source.Parse
import StyleLedger.Proofs.Source.Appended

/-!
What statements are drawn from.

A reader takes tokens from the front, so what it leaves is the rest of its tokens, and a part of a
statement is read off tokens of the whole list. This is followed through the ways in which readers
are put together (`Draws`), as far as two things need it: how a statement ends, and where its
condition stands.

* `statement_draws` — a statement that may not stay open takes a semicolon, and a condition is read
  off the tokens right after a word that introduces one.
-/

namespace StyleLedger

/-- Whether a statement may go without its semicolon. -/
def Statement.mayStayOpen : Statement → Bool
  | raw _ | selectStyles .. | describeSelector _ => true
  | _ => false

/-- The condition of a statement. -/
def Statement.condition? : Statement → Option Condition
  | createStyle target _ | alterStyle target .. => target.condition
  | selectStyles _ condition => condition
  | _ => none

namespace Source

namespace Reading

/-! ## 1. Ways to put readers together -/

section Ways

variable {α β : Type} {whole : List Token} {P : α → Prop} {Q : β → Prop}

/-- On the rests of a list of tokens a reader leaves a rest, and what it gives has a property. -/
def Draws (whole : List Token) (P : α → Prop) (r : Reading α) : Prop :=
  ∀ ts a left, ts <:+ whole → r ts = some (a, left) → left <:+ ts ∧ P a

theorem Draws.imp {P' : α → Prop} {r : Reading α} (h : Draws whole P r)
    (himp : ∀ a, P a → P' a) : Draws whole P' r := by
  intro ts a left hts hread
  obtain ⟨hleft, ha⟩ := h ts a left hts hread
  exact ⟨hleft, himp a ha⟩

theorem draws_pure {a : α} (h : P a) : Draws whole P (pure a) := by
  intro ts b left _ hread
  obtain ⟨rfl, rfl⟩ : a = b ∧ ts = left := Prod.mk.inj (Option.some.inj hread)
  exact ⟨List.suffix_refl ts, h⟩

theorem draws_bind {r : Reading α} {f : α → Reading β} (h : Draws whole P r)
    (hf : ∀ a, P a → Draws whole Q (f a)) : Draws whole Q (r >>= f) := by
  intro ts b left hts hread
  obtain ⟨⟨a, between⟩, ha, hb⟩ := Option.bind_eq_some_iff.1 hread
  obtain ⟨hbetween, hPa⟩ := h ts a between hts ha
  obtain ⟨hleft, hb⟩ := hf a hPa between b left (hbetween.trans hts) hb
  exact ⟨hleft.trans hbetween, hb⟩

/-- A part whose result does not matter. -/
theorem draws_after {r : Reading α} {f : α → Reading β} (h : Draws whole (fun _ => True) r)
    (hf : ∀ a, Draws whole Q (f a)) : Draws whole Q (r >>= f) :=
  draws_bind h fun a _ => hf a

theorem draws_failure : Draws whole P (failure : Reading α) :=
  fun _ _ _ _ h => nomatch h

theorem draws_orElse {r s : Reading α} (hr : Draws whole P r) (hs : Draws whole P s) :
    Draws whole P (r <|> s) := by
  intro ts a left hts hread
  have hread : (r ts <|> s ts) = some (a, left) := hread
  cases hfirst : r ts with
  | none =>
    rw [hfirst] at hread
    exact hs ts a left hts hread
  | some found =>
    rw [hfirst] at hread
    exact hr ts a left hts (hfirst.trans hread)

theorem draws_oneOf {readers : List (Reading α)} (h : ∀ r ∈ readers, Draws whole P r) :
    Draws whole P (oneOf readers) := by
  induction readers with
  | nil => exact draws_failure
  | cons r readers ih =>
    exact draws_orElse (h r List.mem_cons_self)
      (ih fun s hs => h s (List.mem_cons_of_mem r hs))

theorem draws_maybe {r : Reading α} (h : Draws whole P r) :
    Draws whole (fun a => ∀ b ∈ a, P b) (maybe r) :=
  draws_orElse (draws_bind h fun a ha => draws_pure (by simpa using ha)) (draws_pure (by simp))

theorem draws_manyWithin {r : Reading α} (h : Draws whole P r) : ∀ n,
    Draws whole (fun as => ∀ a ∈ as, P a) (manyWithin r n)
  | 0 => draws_pure (by simp)
  | n + 1 => by
    refine draws_orElse (draws_bind h fun a ha => ?_) (draws_pure (by simp))
    refine draws_bind (draws_manyWithin h n) fun as has => draws_pure ?_
    exact List.forall_mem_cons.2 ⟨ha, has⟩

theorem draws_many {r : Reading α} (h : Draws whole P r) :
    Draws whole (fun as => ∀ a ∈ as, P a) (many r) :=
  fun ts => draws_manyWithin h ts.length ts

/-- A token that is taken is one of the list, and of the kind that is looked for. -/
theorem draws_take (kind : Terminal) :
    Draws whole (fun t => t ∈ whole ∧ t.kind = kind) (take kind) := by
  intro ts t left hts hread
  cases ts with
  | nil => simp [take] at hread
  | cons u us =>
    simp only [take] at hread
    split_ifs at hread with hkind
    obtain ⟨rfl, rfl⟩ := Prod.mk.inj (Option.some.inj hread)
    exact ⟨List.suffix_cons u us, hts.subset List.mem_cons_self, hkind⟩

end Ways

/-! ## 2. Parts -/

section Parts

variable {α : Type} {whole : List Token}

/-- A reader leaves a rest of the tokens. -/
abbrev Trims (whole : List Token) (r : Reading α) : Prop :=
  Draws whole (fun _ => True) r

theorem trims_take (kind : Terminal) : Trims whole (take kind) :=
  (draws_take kind).imp fun _ _ => trivial

theorem trims_maybe {r : Reading α} (h : Trims whole r) : Trims whole (maybe r) :=
  (draws_maybe h).imp fun _ _ => trivial

theorem trims_many {r : Reading α} (h : Trims whole r) : Trims whole (many r) :=
  (draws_many h).imp fun _ _ => trivial

theorem trims_word (k : Keyword) : Trims whole (word k) :=
  draws_after (trims_take _) fun _ => draws_pure trivial

theorem trims_words (ks : List Keyword) : Trims whole (words ks) := by
  induction ks with
  | nil => exact draws_pure trivial
  | cons k ks ih => exact draws_after (trims_word k) fun _ => ih

theorem trims_mark (c : Char) : Trims whole (mark c) :=
  draws_after (trims_take _) fun _ => draws_pure trivial

theorem trims_ident : Trims whole ident :=
  draws_after (trims_take _) fun _ => draws_pure trivial

theorem trims_value : Trims whole value :=
  draws_after (trims_take _) fun _ => draws_pure trivial

theorem trims_quoted : Trims whole quoted :=
  draws_after (trims_take _) fun _ => draws_pure trivial

theorem trims_group : Trims whole group :=
  draws_after (trims_take _) fun _ => draws_pure trivial

theorem trims_name : Trims whole name :=
  draws_orElse trims_quoted trims_ident

theorem trims_commaList {r : Reading α} (h : Trims whole r) : Trims whole (commaList r) :=
  draws_after h fun _ => draws_after (trims_many (draws_after (trims_mark _) fun _ => h)) fun _ =>
    draws_pure trivial

theorem trims_declarations : Trims whole declarations :=
  trims_commaList <| draws_after trims_ident fun _ => draws_after (trims_mark _) fun _ =>
    draws_after trims_value fun _ => draws_pure trivial

theorem trims_block : Trims whole block :=
  draws_after (trims_mark _) fun _ => draws_after (trims_maybe trims_declarations) fun _ =>
    draws_after (trims_mark _) fun _ => draws_pure trivial

theorem trims_joinWord : Trims whole joinWord := by
  refine draws_after (draws_oneOf fun r hr => ?_) fun _ => draws_pure trivial
  obtain ⟨k, -, rfl⟩ := List.mem_map.1 hr
  exact trims_take _

theorem trims_termWithin : ∀ n, Trims whole (termWithin n)
  | 0 => draws_failure
  | n + 1 => by
    have ih : Trims whole (termWithin n) := trims_termWithin n
    refine draws_oneOf ?_
    simp only [List.forall_mem_cons, List.not_mem_nil, false_implies, implies_true, and_true]
    refine ⟨?function, ?join, ?name⟩
    case function =>
      refine draws_after (trims_take _) fun _ => draws_after (trims_maybe ?_) fun _ =>
        draws_after (trims_mark _) fun _ => draws_pure trivial
      exact trims_commaList
        (draws_orElse (draws_after trims_quoted fun _ => draws_pure trivial) ih)
    case join =>
      exact draws_after (trims_word _) fun _ => draws_after trims_joinWord fun _ =>
        draws_after ih fun _ => draws_after (trims_word _) fun _ => draws_after ih fun _ =>
          draws_pure trivial
    case name => exact draws_after trims_ident fun _ => draws_pure trivial

theorem trims_term : Trims whole term :=
  fun ts => trims_termWithin (ts.length + 1) ts

theorem trims_comparison : Trims whole comparison :=
  draws_after (trims_take _) fun _ => draws_after trims_value fun _ => draws_pure trivial

theorem trims_containerTest (name : String) : Trims whole (containerTest name) := by
  refine draws_orElse ?_ ?_
  · exact draws_after (trims_word _) fun _ => draws_after trims_group fun _ => draws_pure trivial
  · exact draws_after (trims_maybe (trims_word _)) fun _ => draws_after trims_comparison fun _ =>
      draws_pure trivial

theorem trims_atom : Trims whole atom := by
  refine draws_oneOf ?_
  simp only [List.forall_mem_cons, List.not_mem_nil, false_implies, implies_true, and_true]
  refine ⟨?between, ?width, ?container, ?supports, ?feature⟩
  case between =>
    exact draws_after (trims_words _) fun _ => draws_after trims_value fun _ =>
      draws_after (trims_word _) fun _ => draws_after trims_value fun _ => draws_pure trivial
  case width =>
    exact draws_after (trims_word _) fun _ => draws_after trims_comparison fun _ =>
      draws_pure trivial
  case container =>
    exact draws_after (trims_word _) fun _ => draws_after trims_ident fun name =>
      trims_containerTest name
  case supports =>
    exact draws_after (trims_word _) fun _ => draws_after trims_group fun _ => draws_pure trivial
  case feature =>
    exact draws_after trims_ident fun _ => draws_after (trims_mark _) fun _ =>
      draws_after trims_value fun _ => draws_pure trivial

/-- Parts with a word between them. -/
theorem trims_joined {part : Reading Condition} (h : Trims whole part) (k : Keyword)
    (combine : Condition → Condition → Condition) :
    Trims whole (do
      let first ← part
      let more ← many (do word k; part)
      return more.foldl combine first) :=
  draws_after h fun _ => draws_after (trims_many (draws_after (trims_word k) fun _ => h)) fun _ =>
    draws_pure trivial

theorem trims_conditionWithin : ∀ n, Trims whole (conditionWithin n)
  | 0 => draws_failure
  | n + 1 => by
    refine trims_joined (trims_joined (draws_orElse ?_ ?_) .and conjoin) .or disjoin
    · exact draws_after trims_atom fun _ => draws_pure trivial
    · exact draws_after (trims_mark _) fun _ => draws_after (trims_conditionWithin n) fun _ =>
        draws_after (trims_mark _) fun _ => draws_pure trivial

theorem trims_condition : Trims whole condition :=
  fun ts => trims_conditionWithin (ts.length + 1) ts

/-- A condition is read off tokens of a list right after a word that introduces conditions. -/
def IsAsked (whole : List Token) (c : Condition) : Prop :=
  ∃ t ts left, t :: ts <:+ whole ∧ (t.kind = .word .whereWord ∨ t.kind = .word .and) ∧
    condition ts = some (c, left)

/-- A condition after the word that introduces it. -/
theorem draws_asked {k : Keyword} (hk : k = .whereWord ∨ k = .and) :
    Draws whole (IsAsked whole) (do word k; condition) := by
  intro ts c left hts hread
  refine ⟨((draws_after (trims_word k) fun _ => trims_condition) ts c left hts hread).1, ?_⟩
  obtain ⟨⟨_, rest⟩, hword, hcondition⟩ := Option.bind_eq_some_iff.1 hread
  obtain ⟨⟨t, between⟩, htake, hbetween⟩ := Option.bind_eq_some_iff.1 hword
  obtain ⟨-, rfl⟩ := Prod.mk.inj (Option.some.inj hbetween)
  cases ts with
  | nil => simp [take] at htake
  | cons u us =>
    simp only [take] at htake
    split_ifs at htake with hkind
    obtain ⟨-, rfl⟩ := Prod.mk.inj (Option.some.inj htake)
    refine ⟨u, us, left, hts, ?_, hcondition⟩
    rcases hk with rfl | rfl
    · exact .inl hkind
    · exact .inr hkind

theorem draws_conditionClause :
    Draws whole (fun c => ∀ c' ∈ c, IsAsked whole c') conditionClause :=
  draws_maybe (draws_asked (.inl rfl))

theorem draws_filter :
    Draws whole (fun f => ∀ c ∈ f.2, IsAsked whole c) filter :=
  draws_after (trims_words _) fun _ => draws_after (trims_mark _) fun _ =>
    draws_after trims_ident fun _ => draws_bind (draws_maybe (draws_asked (.inr rfl))) fun _ hc =>
      draws_pure hc

theorem trims_scope : Trims whole scope := by
  refine draws_after (trims_maybe ?_) fun _ => draws_pure trivial
  exact draws_after (trims_words _) fun _ => draws_after trims_ident fun _ =>
    draws_after (trims_maybe (draws_after (trims_word _) fun _ => trims_ident)) fun _ =>
      draws_pure trivial

theorem trims_styleName (opening : List Keyword) : Trims whole (styleName opening) :=
  draws_after (trims_words _) fun _ => trims_ident

theorem trims_action : Trims whole action :=
  draws_orElse (draws_after (trims_word _) fun _ => draws_pure trivial)
    (draws_after (trims_word _) fun _ => draws_pure trivial)

/-- The offset of a keyframe. -/
theorem trims_offset : Trims whole (oneOf [
    quoted,
    do return (← take .percentage).text,
    do word .fromWord; return "from",
    do word .toWord; return "to"]) := by
  refine draws_oneOf ?_
  simp only [List.forall_mem_cons, List.not_mem_nil, false_implies, implies_true, and_true]
  refine ⟨trims_quoted, ?_, ?_, ?_⟩
  · exact draws_after (trims_take _) fun _ => draws_pure trivial
  · exact draws_after (trims_word _) fun _ => draws_pure trivial
  · exact draws_after (trims_word _) fun _ => draws_pure trivial

theorem trims_frame : Trims whole frame :=
  draws_after trims_offset fun _ => draws_after trims_block fun _ => draws_pure trivial

theorem trims_optionalSemicolon : Trims whole optionalSemicolon :=
  draws_after (trims_maybe (trims_mark _)) fun _ => draws_pure trivial

end Parts

/-! ## 3. Statements -/

end Reading

/-- The condition of a draft's statement. -/
def Draft.condition? : Draft → Option Condition
  | ready s => s.condition?
  | selector .. => none

/-- Whether a draft's statement may go without its semicolon. -/
def Draft.mayStayOpen : Draft → Bool
  | ready s => s.mayStayOpen
  | selector .. => false

namespace Reading

section Statements

variable {whole : List Token}

/-- A reader of statements leaves a rest of the tokens. It takes a semicolon unless the statement
may stay open, and the statement's condition is asked for among the tokens. -/
def DrawsStatement (whole : List Token) (r : Reading Draft) : Prop :=
  ∀ ts d left, ts <:+ whole → r ts = some (d, left) →
    left <:+ ts ∧ (d.mayStayOpen = true ∨ semicolons left < semicolons ts) ∧
      ∀ c ∈ d.condition?, IsAsked whole c

theorem semicolons_le_of_suffix {ts left : List Token} (h : left <:+ ts) :
    semicolons left ≤ semicolons ts :=
  h.sublist.countP_le

/-- A semicolon that is taken counts. -/
theorem semicolons_of_semicolon {ts left : List Token} {u : Unit}
    (h : semicolon ts = some (u, left)) : semicolons ts = semicolons left + 1 := by
  obtain ⟨⟨t, between⟩, htake, hbetween⟩ := Option.bind_eq_some_iff.1 h
  obtain ⟨-, rfl⟩ := Prod.mk.inj (Option.some.inj hbetween)
  cases ts with
  | nil => simp [take] at htake
  | cons t' ts =>
    simp only [take] at htake
    split_ifs at htake with hkind
    obtain ⟨-, rfl⟩ := Prod.mk.inj (Option.some.inj htake)
    rw [semicolons_cons, if_pos hkind]

/-- A part with the rest of its statement. -/
theorem drawsStatement_bind {α : Type} {P : α → Prop} {r : Reading α} {f : α → Reading Draft}
    (h : Draws whole P r) (hf : ∀ a, P a → DrawsStatement whole (f a)) :
    DrawsStatement whole (r >>= f) := by
  intro ts d left hts hread
  obtain ⟨⟨a, between⟩, ha, hd⟩ := Option.bind_eq_some_iff.1 hread
  obtain ⟨hbetween, hPa⟩ := h ts a between hts ha
  obtain ⟨hleft, hends, hcondition⟩ := hf a hPa between d left (hbetween.trans hts) hd
  have hle := semicolons_le_of_suffix hbetween
  exact ⟨hleft.trans hbetween, hends.imp_right fun hlt => by omega, hcondition⟩

theorem drawsStatement_after {α : Type} {r : Reading α} {f : α → Reading Draft}
    (h : Trims whole r) (hf : ∀ a, DrawsStatement whole (f a)) : DrawsStatement whole (r >>= f) :=
  drawsStatement_bind h fun a _ => hf a

/-- The end of a statement that may stay open. -/
theorem drawsStatement_pure {d : Draft} (hopen : d.mayStayOpen = true)
    (hcondition : ∀ c ∈ d.condition?, IsAsked whole c) : DrawsStatement whole (pure d) := by
  intro ts d' left _ hread
  obtain ⟨rfl, rfl⟩ : d = d' ∧ ts = left := Prod.mk.inj (Option.some.inj hread)
  exact ⟨List.suffix_refl ts, .inl hopen, hcondition⟩

/-- The end of a statement that may not. -/
theorem drawsStatement_semicolon {d : Draft} (hcondition : ∀ c ∈ d.condition?, IsAsked whole c) :
    DrawsStatement whole (do semicolon; return d) := by
  intro ts d' left hts hread
  obtain ⟨⟨u, after⟩, hsemicolon, hmade⟩ := Option.bind_eq_some_iff.1 hread
  obtain ⟨rfl, rfl⟩ : d = d' ∧ after = left := Prod.mk.inj (Option.some.inj hmade)
  obtain ⟨hafter, -⟩ := trims_mark ';' ts u after hts hsemicolon
  have hcount := semicolons_of_semicolon hsemicolon
  exact ⟨hafter, .inr (by omega), hcondition⟩

theorem drawsStatement_closed {p : Reading Statement}
    (hp : Draws whole (fun s => ∀ c ∈ s.condition?, IsAsked whole c) p) :
    DrawsStatement whole (closed p) :=
  drawsStatement_bind hp fun _ hs => drawsStatement_semicolon hs

theorem drawsStatement_oneOf {readers : List (Reading Draft)}
    (h : ∀ r ∈ readers, DrawsStatement whole r) : DrawsStatement whole (oneOf readers) := by
  induction readers with
  | nil => exact fun _ _ _ _ h => nomatch h
  | cons r readers ih =>
    intro ts d left hts hread
    have hread : (r ts <|> oneOf readers ts) = some (d, left) := hread
    cases hfirst : r ts with
    | none =>
      rw [hfirst] at hread
      exact ih (fun s hs => h s (List.mem_cons_of_mem r hs)) ts d left hts hread
    | some found =>
      rw [hfirst] at hread
      exact h r List.mem_cons_self ts d left hts (hfirst.trans hread)

/-- A statement without a condition. -/
theorem draws_unconditional {s : Statement} (h : s.condition? = none) :
    Draws whole (fun s => ∀ c ∈ s.condition?, IsAsked whole c) (pure s) :=
  draws_pure (by simp [h])

/-- A statement on a quoted name. -/
theorem drawsStatement_onQuoted {ks : List Keyword} {f : String → Statement}
    (hf : ∀ name, (f name).condition? = none) :
    DrawsStatement whole (closed do words ks; return f (← quoted)) :=
  drawsStatement_closed <| draws_after (trims_words _) fun _ => draws_after trims_quoted fun name =>
    draws_unconditional (hf name)

/-- A statement on a bare name. -/
theorem drawsStatement_onName {ks : List Keyword} {f : String → Statement}
    (hf : ∀ name, (f name).condition? = none) :
    DrawsStatement whole (closed do return f (← styleName ks)) :=
  drawsStatement_closed <| draws_after (trims_styleName _) fun name =>
    draws_unconditional (hf name)

/-- A block for a quoted name. -/
theorem drawsStatement_quotedBlock {ks : List Keyword} {f : String → List Declaration → Statement}
    (hf : ∀ name ds, (f name ds).condition? = none) :
    DrawsStatement whole (closed do words ks; return f (← quoted) (← block)) :=
  drawsStatement_closed <| draws_after (trims_words _) fun _ => draws_after trims_quoted fun name =>
    draws_after trims_block fun ds => draws_unconditional (hf name ds)

/-- A statement of one word. -/
theorem drawsStatement_onWord {k : Keyword} {s : Statement} (hs : s.condition? = none) :
    DrawsStatement whole (closed do word k; return s) :=
  drawsStatement_closed <| draws_after (trims_word k) fun _ => draws_unconditional hs

theorem drawsStatement_tokenStatements : ∀ r ∈ tokenStatements, DrawsStatement whole r := by
  simp only [tokenStatements, List.forall_mem_cons, List.not_mem_nil, false_implies, implies_true,
    and_true]
  refine ⟨?create, drawsStatement_onQuoted fun _ => rfl, ?delete, ?insert, ?update⟩
  case create =>
    refine drawsStatement_closed (draws_after (trims_words _) fun _ => ?_)
    refine draws_after trims_quoted fun _ => draws_after (trims_word _) fun _ => ?_
    exact draws_after trims_value fun _ => draws_unconditional rfl
  case delete =>
    refine drawsStatement_closed (draws_after (trims_words _) fun _ => ?_)
    exact draws_after (trims_mark _) fun _ => draws_after trims_quoted fun _ =>
      draws_unconditional rfl
  case insert =>
    refine drawsStatement_closed (draws_after (trims_words _) fun _ => ?_)
    iterate 3 refine draws_after (trims_mark _) fun _ => draws_after (trims_word _) fun _ => ?_
    refine draws_after (trims_mark _) fun _ => draws_after trims_quoted fun _ => ?_
    refine draws_after (trims_mark _) fun _ => draws_after trims_value fun _ => ?_
    exact draws_after (trims_mark _) fun _ => draws_unconditional rfl
  case update =>
    refine drawsStatement_closed (draws_after (trims_words _) fun _ => ?_)
    refine draws_after (trims_mark _) fun _ => draws_after trims_value fun _ => ?_
    refine draws_after (trims_words _) fun _ => draws_after (trims_mark _) fun _ => ?_
    exact draws_after trims_quoted fun _ => draws_unconditional rfl

theorem drawsStatement_selectorStatements : ∀ r ∈ selectorStatements, DrawsStatement whole r := by
  simp only [selectorStatements, List.forall_mem_cons, List.not_mem_nil, false_implies,
    implies_true, and_true]
  refine ⟨?create, drawsStatement_onName fun _ => rfl⟩
  case create =>
    refine drawsStatement_after (trims_words _) fun _ => ?_
    refine drawsStatement_after trims_ident fun _ => ?_
    refine drawsStatement_after (trims_word _) fun _ => drawsStatement_after trims_term fun _ => ?_
    exact drawsStatement_semicolon (by simp [Draft.condition?])

theorem drawsStatement_styleStatements : ∀ r ∈ styleStatements, DrawsStatement whole r := by
  simp only [styleStatements, List.forall_mem_cons, List.not_mem_nil, false_implies, implies_true,
    and_true]
  refine ⟨?create, ?alter, ?delete, drawsStatement_onName fun _ => rfl, ?insert, ?update⟩
  case create =>
    refine drawsStatement_closed (draws_after (trims_styleName _) fun _ => ?_)
    refine draws_after trims_scope fun _ => draws_after trims_block fun _ => ?_
    exact draws_bind draws_conditionClause fun c hc => draws_pure hc
  case alter =>
    refine drawsStatement_closed (draws_after (trims_styleName _) fun _ => ?_)
    refine draws_after trims_scope fun _ => draws_bind draws_conditionClause fun c hc => ?_
    exact draws_after trims_action fun _ => draws_after trims_declarations fun _ => draws_pure hc
  case delete =>
    refine drawsStatement_closed (draws_after (trims_words _) fun _ => ?_)
    refine draws_after (trims_mark _) fun _ => draws_after trims_ident fun _ => ?_
    refine draws_after (trims_maybe ?_) fun _ => draws_unconditional rfl
    exact draws_after (trims_words _) fun _ => draws_after (trims_mark _) fun _ => trims_name
  case insert =>
    refine drawsStatement_closed (draws_after (trims_words _) fun _ => ?_)
    iterate 4 refine draws_after (trims_mark _) fun _ => draws_after (trims_word _) fun _ => ?_
    refine draws_after (trims_mark _) fun _ => draws_after trims_ident fun _ => ?_
    refine draws_after (trims_mark _) fun _ => draws_after trims_name fun _ => ?_
    refine draws_after (trims_mark _) fun _ => draws_after trims_value fun _ => ?_
    exact draws_after (trims_mark _) fun _ => draws_unconditional rfl
  case update =>
    refine drawsStatement_closed (draws_after (trims_words _) fun _ => ?_)
    refine draws_after trims_declarations fun _ => ?_
    exact draws_bind draws_filter fun f hf => draws_pure hf

theorem drawsStatement_settingStatements : ∀ r ∈ settingStatements, DrawsStatement whole r := by
  simp only [settingStatements, List.forall_mem_cons, List.not_mem_nil, false_implies, implies_true,
    and_true]
  refine ⟨?layers, ?layer, ?spacing, ?raw, ?css, ?sql⟩
  case layers =>
    refine drawsStatement_closed (draws_after (trims_words _) fun _ => ?_)
    refine draws_after (trims_mark _) fun _ => draws_after (trims_commaList trims_ident) fun _ => ?_
    exact draws_after (trims_mark _) fun _ => draws_unconditional rfl
  case layer =>
    refine drawsStatement_closed (draws_after (trims_words _) fun _ => ?_)
    exact draws_after (trims_mark _) fun _ => draws_after trims_ident fun _ =>
      draws_unconditional rfl
  case spacing =>
    refine drawsStatement_closed (draws_after (trims_words _) fun _ => ?_)
    exact draws_after (trims_mark _) fun _ => draws_after trims_quoted fun _ =>
      draws_unconditional rfl
  case raw =>
    refine drawsStatement_after (trims_word _) fun _ => ?_
    refine drawsStatement_after trims_quoted fun _ => ?_
    exact drawsStatement_after trims_optionalSemicolon fun _ =>
      drawsStatement_pure rfl (by simp [Draft.condition?, Statement.condition?])
  case css =>
    refine drawsStatement_closed (draws_after (trims_words _) fun _ => ?_)
    refine draws_after trims_quoted fun _ => draws_after (trims_maybe ?_) fun _ =>
      draws_unconditional rfl
    exact draws_after (trims_word _) fun _ => trims_take _
  case sql =>
    refine drawsStatement_closed (draws_after (trims_word _) fun _ => ?_)
    exact draws_after (trims_maybe (trims_word _)) fun _ => draws_after trims_quoted fun _ =>
      draws_unconditional rfl

theorem drawsStatement_ruleCreations : ∀ r ∈ ruleCreations, DrawsStatement whole r := by
  simp only [ruleCreations, List.forall_mem_cons, List.not_mem_nil, false_implies, implies_true,
    and_true]
  refine ⟨drawsStatement_quotedBlock fun _ _ => rfl, ?keyframes,
    drawsStatement_quotedBlock fun _ _ => rfl, ?page, ?counterStyle,
    drawsStatement_quotedBlock fun _ _ => rfl, drawsStatement_quotedBlock fun _ _ => rfl,
    ?startingStyle⟩
  case keyframes =>
    refine drawsStatement_closed (draws_after (trims_words _) fun _ => ?_)
    refine draws_after trims_ident fun _ => draws_after (trims_mark _) fun _ => ?_
    exact draws_after (trims_commaList trims_frame) fun _ => draws_after (trims_mark _) fun _ =>
      draws_unconditional rfl
  case page =>
    refine drawsStatement_closed (draws_after (trims_words _) fun _ => ?_)
    exact draws_after (trims_maybe trims_quoted) fun _ => draws_after trims_block fun _ =>
      draws_unconditional rfl
  case counterStyle =>
    refine drawsStatement_closed (draws_after (trims_words _) fun _ => ?_)
    exact draws_after trims_ident fun _ => draws_after trims_block fun _ =>
      draws_unconditional rfl
  case startingStyle =>
    refine drawsStatement_closed (draws_after (trims_styleName _) fun _ => ?_)
    exact draws_after trims_block fun _ => draws_unconditional rfl

theorem drawsStatement_ruleRemovals : ∀ r ∈ ruleRemovals, DrawsStatement whole r := by
  simp only [ruleRemovals, List.forall_mem_cons, List.not_mem_nil, false_implies, implies_true,
    and_true]
  refine ⟨drawsStatement_onQuoted fun _ => rfl, drawsStatement_onName fun _ => rfl,
    drawsStatement_onQuoted fun _ => rfl, ?page, drawsStatement_onName fun _ => rfl,
    drawsStatement_onQuoted fun _ => rfl, drawsStatement_onQuoted fun _ => rfl,
    drawsStatement_onName fun _ => rfl⟩
  case page =>
    refine drawsStatement_closed (draws_after (trims_words _) fun _ => ?_)
    exact draws_after (trims_maybe trims_quoted) fun _ => draws_unconditional rfl

/-- A query may have a condition, which is asked for. -/
theorem drawsStatement_queryStatements : ∀ r ∈ queryStatements, DrawsStatement whole r := by
  simp only [queryStatements, List.forall_mem_cons, List.not_mem_nil, false_implies, implies_true,
    and_true]
  refine ⟨?select, ?describe, drawsStatement_onWord rfl, drawsStatement_onWord rfl,
    drawsStatement_onWord rfl⟩
  case select =>
    refine drawsStatement_after (trims_words _) fun _ => ?_
    refine drawsStatement_bind draws_filter fun _ hc => ?_
    exact drawsStatement_after trims_optionalSemicolon fun _ => drawsStatement_pure rfl hc
  case describe =>
    refine drawsStatement_after (trims_styleName _) fun _ => ?_
    exact drawsStatement_after trims_optionalSemicolon fun _ =>
      drawsStatement_pure rfl (by simp [Draft.condition?, Statement.condition?])

/-- A statement leaves a rest of the tokens. It takes a semicolon unless it may stay open, and its
condition is read off tokens right after a word that introduces one. -/
theorem statement_draws (whole : List Token) : DrawsStatement whole statement := by
  refine drawsStatement_oneOf ?_
  simp only [List.forall_mem_append, and_assoc]
  exact ⟨drawsStatement_tokenStatements, drawsStatement_selectorStatements,
    drawsStatement_styleStatements, drawsStatement_settingStatements, drawsStatement_ruleCreations,
    drawsStatement_ruleRemovals, drawsStatement_queryStatements⟩

end Statements

end Reading

end Source

end StyleLedger
