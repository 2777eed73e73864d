import StyleLedger.Proofs.Statement
import StyleLedger.Source.Parse

/-!
Statements that come from a source text are plain.

A token is never empty, so a name that is read as an identifier is not empty either; conditions and
definitions are built from the texts of tokens. What a reader can give is followed through the ways
in which readers are put together (`Yields`), one lemma for each way, and the readers of the
language are then gone through in the order of their definitions.

* `Yields` — every result of a reader has a property.
* `isPlain_of_parse` — every statement of a source text is plain.
-/

namespace StyleLedger.Source

open Outcome

namespace Reading

variable {α β : Type} {P : α → Prop} {Q : β → Prop}

/-! ## 1. Ways to put readers together -/

/-- Every result of a reader has a property. -/
def Yields (P : α → Prop) (r : Reading α) : Prop :=
  ∀ tokens a rest, r tokens = some (a, rest) → P a

theorem yields_pure {a : α} (h : P a) : Yields P (pure a) := by
  intro tokens b rest hb
  obtain ⟨rfl, -⟩ : a = b ∧ tokens = rest := Prod.mk.inj (Option.some.inj hb)
  exact h

theorem yields_bind {r : Reading α} {f : α → Reading β} (h : Yields P r)
    (hf : ∀ a, P a → Yields Q (f a)) : Yields Q (r >>= f) := by
  intro tokens b rest hb
  obtain ⟨⟨a, left⟩, ha, hb⟩ := Option.bind_eq_some_iff.1 hb
  exact hf a (h tokens a left ha) left b rest hb

/-- A part whose result does not matter. -/
theorem yields_after {r : Reading α} {f : α → Reading β} (hf : ∀ a, Yields Q (f a)) :
    Yields Q (r >>= f) :=
  yields_bind (P := fun _ => True) (fun _ _ _ _ => trivial) fun a _ => hf a

theorem yields_orElse {r s : Reading α} (hr : Yields P r) (hs : Yields P s) :
    Yields P (r <|> s) := by
  intro tokens a rest h
  have h : (r tokens <|> s tokens) = some (a, rest) := h
  cases hfirst : r tokens with
  | none =>
    rw [hfirst] at h
    exact hs tokens a rest h
  | some b =>
    rw [hfirst] at h
    exact hr tokens a rest (hfirst.trans h)

theorem yields_failure : Yields P (failure : Reading α) :=
  fun _ _ _ h => nomatch h

theorem yields_oneOf {readers : List (Reading α)} (h : ∀ r ∈ readers, Yields P r) :
    Yields P (oneOf readers) := by
  induction readers with
  | nil => exact yields_failure
  | cons r readers ih =>
    exact yields_orElse (h r List.mem_cons_self)
      (ih fun s hs => h s (List.mem_cons_of_mem r hs))

theorem yields_maybe {r : Reading α} (h : Yields P r) : Yields (fun a => ∀ b ∈ a, P b) (maybe r) :=
  yields_orElse (yields_bind h fun a ha => yields_pure (by simpa using ha)) (yields_pure (by simp))

theorem yields_manyWithin {r : Reading α} (h : Yields P r) : ∀ n,
    Yields (fun as => ∀ a ∈ as, P a) (manyWithin r n)
  | 0 => yields_pure (by simp)
  | n + 1 =>
    yields_orElse
      (yields_bind h fun a ha => yields_bind (yields_manyWithin h n) fun as has =>
        yields_pure (List.forall_mem_cons.2 ⟨ha, has⟩))
      (yields_pure (by simp))

theorem yields_many {r : Reading α} (h : Yields P r) : Yields (fun as => ∀ a ∈ as, P a) (many r) :=
  fun tokens => yields_manyWithin h tokens.length tokens

/-! ## 2. Names and conditions -/

theorem yields_ident : Yields (· ≠ "") ident :=
  yields_bind (P := fun _ => True) (fun _ _ _ _ => trivial) fun t _ => yields_pure t.nonempty

theorem yields_containerTest (name : String) : Yields Atom.IsPlain (containerTest name) := by
  refine yields_orElse ?_ ?_
  · refine yields_after fun _ => yields_after fun text => yields_pure ?_
    exact ⟨Json.isWord_text name, Json.isWord_text text⟩
  · refine yields_after fun inline => yields_after fun c => yields_pure ?_
    have haxis := Json.isWord_textOrNull (inline.map fun _ => "inline")
    split
    · exact ⟨Json.isWord_text _, Json.isWord_text _, Json.isWord_null, haxis⟩
    · exact ⟨Json.isWord_text _, Json.isWord_null, Json.isWord_text _, haxis⟩

theorem yields_atom : Yields Atom.IsPlain atom := by
  refine yields_oneOf ?_
  simp only [List.forall_mem_cons, List.not_mem_nil, false_implies, implies_true, and_true]
  refine ⟨?between, ?width, ?container, ?supports, ?feature⟩
  case between =>
    refine yields_after fun _ => yields_after fun lo => yields_after fun _ => yields_after fun hi =>
      yields_pure ⟨Json.isWord_text lo, Json.isWord_text hi⟩
  case width =>
    refine yields_after fun _ => yields_after fun c => yields_pure ?_
    split
    · exact ⟨Json.isWord_text _, Json.isWord_null⟩
    · exact ⟨Json.isWord_null, Json.isWord_text _⟩
  case container => exact yields_after fun _ => yields_after fun name => yields_containerTest name
  case supports =>
    exact yields_after fun _ => yields_after fun text => yields_pure (Json.isWord_text text)
  case feature =>
    exact yields_after fun name => yields_after fun _ => yields_after fun v =>
      yields_pure ⟨Json.isWord_text name, Json.isWord_text v⟩

theorem conjoin_isPlain {c d : Condition} (hc : c.IsPlain) (hd : d.IsPlain) :
    (conjoin c d).IsPlain := by
  unfold conjoin
  split
  · next parts =>
    refine (Condition.arePlain_iff _).2 ?_
    simpa [or_imp, forall_and, hd] using (Condition.arePlain_iff parts).1 hc
  · exact ⟨hc, hd, trivial⟩

theorem disjoin_isPlain {c d : Condition} (hc : c.IsPlain) (hd : d.IsPlain) :
    (disjoin c d).IsPlain := by
  unfold disjoin
  split
  · next parts =>
    refine (Condition.arePlain_iff _).2 ?_
    simpa [or_imp, forall_and, hd] using (Condition.arePlain_iff parts).1 hc
  · exact ⟨hc, hd, trivial⟩

/-- Parts joined from left to right are plain when joining two of them is. -/
theorem foldl_isPlain {combine : Condition → Condition → Condition}
    (h : ∀ {c d}, c.IsPlain → d.IsPlain → (combine c d).IsPlain) {c : Condition} (hc : c.IsPlain)
    {ds : List Condition} (hds : ∀ d ∈ ds, d.IsPlain) : (ds.foldl combine c).IsPlain := by
  induction ds generalizing c with
  | nil => exact hc
  | cons d ds ih =>
    obtain ⟨hd, hds⟩ := List.forall_mem_cons.1 hds
    exact ih (h hc hd) hds

/-- Parts with a word between them. -/
theorem yields_joined {part : Reading Condition} (h : Yields Condition.IsPlain part) (k : Keyword)
    {combine : Condition → Condition → Condition}
    (hcombine : ∀ {c d}, c.IsPlain → d.IsPlain → (combine c d).IsPlain) :
    Yields Condition.IsPlain (do
      let first ← part
      let more ← many (do word k; part)
      return more.foldl combine first) :=
  yields_bind h fun _ hfirst => yields_bind (yields_many (yields_after fun _ => h)) fun _ hmore =>
    yields_pure (foldl_isPlain hcombine hfirst hmore)

theorem yields_conditionWithin : ∀ n, Yields Condition.IsPlain (conditionWithin n)
  | 0 => yields_failure
  | n + 1 => by
    refine yields_joined (yields_joined (yields_orElse ?_ ?_) .and conjoin_isPlain) .or
      disjoin_isPlain
    · exact yields_bind yields_atom fun a ha => yields_pure ha
    · exact yields_after fun _ => yields_bind (yields_conditionWithin n) fun c hc =>
        yields_after fun _ => yields_pure hc

theorem yields_condition : Yields Condition.IsPlain condition :=
  fun tokens => yields_conditionWithin (tokens.length + 1) tokens

theorem yields_conditionClause : Yields (fun c => ∀ c' ∈ c, Condition.IsPlain c') conditionClause :=
  yields_maybe (yields_after fun _ => yields_condition)

theorem yields_filter :
    Yields (fun f => f.1 ≠ "" ∧ ∀ c ∈ f.2, Condition.IsPlain c) filter :=
  yields_after fun _ => yields_after fun _ => yields_bind yields_ident fun _ hname =>
    yields_bind (yields_maybe (yields_after fun _ => yields_condition)) fun _ hc =>
      yields_pure ⟨hname, hc⟩

theorem yields_scope :
    Yields (fun s => (∀ r ∈ s.1, r ≠ "") ∧ ∀ l ∈ s.2, l ≠ "") scope := by
  refine yields_bind (P := fun found => ∀ f ∈ found, f.1 ≠ "" ∧ ∀ l ∈ f.2, l ≠ "") ?_ ?_
  · refine yields_maybe (yields_after fun _ => yields_bind yields_ident fun root hroot =>
      yields_bind (yields_maybe (yields_after fun _ => yields_ident)) fun limit hlimit =>
        yields_pure ⟨hroot, hlimit⟩)
  · rintro (_ | ⟨root, limit⟩) h
    · exact yields_pure (by simp)
    · obtain ⟨hroot, hlimit⟩ := h _ rfl
      exact yields_pure ⟨by simpa using hroot, hlimit⟩

theorem yields_styleName (opening : List Keyword) : Yields (· ≠ "") (styleName opening) :=
  yields_after fun _ => yields_ident

/-! ## 3. Statements -/

end Reading

/-- The statement of a draft is plain, as far as it is known. A selector that it defines or gives a
starting style has a name. -/
def Draft.IsPlain : Draft → Prop
  | selector name _ | ready (.createStartingStyle name _) => name ≠ ""
  | ready (.createSelector name definition) => name ≠ "" ∧ definition.IsPlain
  | ready s => s.IsPlain

namespace Reading

theorem yields_closed {r : Reading Statement} (h : Yields (fun s => (Draft.ready s).IsPlain) r) :
    Yields Draft.IsPlain (closed r) :=
  yields_bind h fun _ hs => yields_after fun _ => yields_pure hs

/-- A statement on a quoted name. -/
theorem yields_onQuoted {ks : List Keyword} {f : String → Statement}
    (hf : ∀ name, (Draft.ready (f name)).IsPlain) :
    Yields Draft.IsPlain (closed do words ks; return f (← quoted)) :=
  yields_closed <| yields_after fun _ => yields_after fun name => yields_pure (hf name)

/-- A statement on a bare name. -/
theorem yields_onName {ks : List Keyword} {f : String → Statement}
    (hf : ∀ name, (Draft.ready (f name)).IsPlain) :
    Yields Draft.IsPlain (closed do return f (← styleName ks)) :=
  yields_closed <| yields_after fun name => yields_pure (hf name)

/-- A block for a quoted name. -/
theorem yields_quotedBlock {ks : List Keyword} {f : String → List Declaration → Statement}
    (hf : ∀ name ds, (Draft.ready (f name ds)).IsPlain) :
    Yields Draft.IsPlain (closed do words ks; return f (← quoted) (← block)) :=
  yields_closed <| yields_after fun _ => yields_after fun name => yields_after fun ds =>
    yields_pure (hf name ds)

/-- A statement of one word. -/
theorem yields_onWord {k : Keyword} {s : Statement} (hs : (Draft.ready s).IsPlain) :
    Yields Draft.IsPlain (closed do word k; return s) :=
  yields_closed <| yields_after fun _ => yields_pure hs

theorem yields_tokenStatements : ∀ r ∈ tokenStatements, Yields Draft.IsPlain r := by
  simp only [tokenStatements, List.forall_mem_cons, List.not_mem_nil, false_implies, implies_true,
    and_true]
  refine ⟨?create, yields_onQuoted fun _ => trivial, ?delete, ?insert, ?update⟩
  case create =>
    exact yields_closed <| yields_after fun _ => yields_after fun _ => yields_after fun _ =>
      yields_after fun _ => yields_pure trivial
  case delete =>
    exact yields_closed <| yields_after fun _ => yields_after fun _ => yields_after fun _ =>
      yields_pure trivial
  case insert =>
    refine yields_closed ?_
    iterate 12 refine yields_after fun _ => ?_
    exact yields_pure trivial
  case update =>
    refine yields_closed ?_
    iterate 6 refine yields_after fun _ => ?_
    exact yields_pure trivial

theorem yields_selectorStatements : ∀ r ∈ selectorStatements, Yields Draft.IsPlain r := by
  simp only [selectorStatements, List.forall_mem_cons, List.not_mem_nil, false_implies,
    implies_true, and_true]
  refine ⟨?create, yields_onName fun _ => trivial⟩
  case create =>
    exact yields_after fun _ => yields_bind yields_ident fun _ hname => yields_after fun _ =>
      yields_after fun _ => yields_after fun _ => yields_pure hname

theorem yields_styleStatements : ∀ r ∈ styleStatements, Yields Draft.IsPlain r := by
  simp only [styleStatements, List.forall_mem_cons, List.not_mem_nil, false_implies, implies_true,
    and_true]
  refine ⟨?create, ?alter, ?delete, yields_onName fun _ => trivial, ?insert, ?update⟩
  case create =>
    refine yields_closed (yields_bind (yields_styleName _) fun selector hselector => ?_)
    refine yields_bind yields_scope fun scope ⟨hroot, hlimit⟩ => yields_after fun ds => ?_
    exact yields_bind yields_conditionClause fun c hc =>
      yields_pure ⟨hselector, hroot, hlimit, hc⟩
  case alter =>
    refine yields_closed (yields_bind (yields_styleName _) fun selector hselector => ?_)
    refine yields_bind yields_scope fun scope ⟨hroot, hlimit⟩ => ?_
    exact yields_bind yields_conditionClause fun c hc => yields_after fun _ => yields_after fun _ =>
      yields_pure ⟨hselector, hroot, hlimit, hc⟩
  case delete =>
    exact yields_closed <| yields_after fun _ => yields_after fun _ => yields_after fun _ =>
      yields_after fun _ => yields_pure trivial
  case insert =>
    refine yields_closed ?_
    iterate 10 refine yields_after fun _ => ?_
    refine yields_bind yields_ident fun selector hselector => ?_
    iterate 5 refine yields_after fun _ => ?_
    exact yields_pure ⟨hselector, by simp, by simp, by simp⟩
  case update =>
    refine yields_closed (yields_after fun _ => yields_after fun _ => ?_)
    exact yields_bind yields_filter fun f ⟨hselector, hc⟩ =>
      yields_pure ⟨hselector, by simp, by simp, hc⟩

theorem yields_settingStatements : ∀ r ∈ settingStatements, Yields Draft.IsPlain r := by
  simp only [settingStatements, List.forall_mem_cons, List.not_mem_nil, false_implies, implies_true,
    and_true]
  refine ⟨?layers, ?layer, ?spacing, ?raw, ?css, ?sql⟩
  case layers =>
    exact yields_closed <| yields_after fun _ => yields_after fun _ => yields_after fun _ =>
      yields_after fun _ => yields_pure trivial
  case layer =>
    exact yields_closed <| yields_after fun _ => yields_after fun _ =>
      yields_bind yields_ident fun name hname => yields_pure hname
  case spacing =>
    exact yields_closed <| yields_after fun _ => yields_after fun _ => yields_after fun _ =>
      yields_pure trivial
  case raw =>
    exact yields_after fun _ => yields_after fun _ => yields_after fun _ => yields_pure trivial
  case css =>
    exact yields_closed <| yields_after fun _ => yields_after fun _ => yields_after fun _ =>
      yields_pure trivial
  case sql =>
    exact yields_closed <| yields_after fun _ => yields_after fun _ => yields_after fun _ =>
      yields_pure trivial

theorem yields_ruleCreations : ∀ r ∈ ruleCreations, Yields Draft.IsPlain r := by
  simp only [ruleCreations, List.forall_mem_cons, List.not_mem_nil, false_implies, implies_true,
    and_true]
  refine ⟨yields_quotedBlock fun _ _ => trivial, ?keyframes, yields_quotedBlock fun _ _ => trivial,
    ?page, ?counterStyle, yields_quotedBlock fun _ _ => trivial,
    yields_quotedBlock fun _ _ => trivial, ?startingStyle⟩
  case keyframes =>
    exact yields_closed <| yields_after fun _ => yields_after fun _ => yields_after fun _ =>
      yields_after fun _ => yields_after fun _ => yields_pure trivial
  case page =>
    exact yields_closed <| yields_after fun _ => yields_after fun _ => yields_after fun _ =>
      yields_pure trivial
  case counterStyle =>
    exact yields_closed <| yields_after fun _ => yields_after fun _ => yields_after fun _ =>
      yields_pure trivial
  case startingStyle =>
    exact yields_closed <| yields_bind (yields_styleName _) fun _ hname => yields_after fun _ =>
      yields_pure hname

theorem yields_ruleRemovals : ∀ r ∈ ruleRemovals, Yields Draft.IsPlain r := by
  simp only [ruleRemovals, List.forall_mem_cons, List.not_mem_nil, false_implies, implies_true,
    and_true]
  refine ⟨yields_onQuoted fun _ => trivial, yields_onName fun _ => trivial,
    yields_onQuoted fun _ => trivial, ?page, yields_onName fun _ => trivial,
    yields_onQuoted fun _ => trivial, yields_onQuoted fun _ => trivial,
    yields_onName fun _ => trivial⟩
  case page =>
    exact yields_closed <| yields_after fun _ => yields_after fun _ => yields_pure trivial

theorem yields_queryStatements : ∀ r ∈ queryStatements, Yields Draft.IsPlain r := by
  simp only [queryStatements, List.forall_mem_cons, List.not_mem_nil, false_implies, implies_true,
    and_true]
  refine ⟨?select, ?describe, yields_onWord trivial, yields_onWord trivial, yields_onWord trivial⟩
  case select =>
    exact yields_after fun _ => yields_after fun _ => yields_after fun _ => yields_pure trivial
  case describe => exact yields_after fun _ => yields_after fun _ => yields_pure trivial

theorem yields_statement : Yields Draft.IsPlain statement := by
  refine yields_oneOf ?_
  simp only [List.forall_mem_append, and_assoc]
  exact ⟨yields_tokenStatements, yields_selectorStatements, yields_styleStatements,
    yields_settingStatements, yields_ruleCreations, yields_ruleRemovals, yields_queryStatements⟩

end Reading

/-! ## 4. Definitions -/

/-- A checked argument is a text or a plain definition. -/
def Operand.IsPlain : Operand → Prop
  | text _ => True
  | selector s => s.IsPlain

theorem Operand.isPlain_selectors {os : List Operand} (h : ∀ o ∈ os, o.IsPlain) :
    ∀ s ∈ selectors os, s.IsPlain := by
  intro s hs
  obtain ⟨o, ho, hos⟩ := List.mem_filterMap.1 hs
  cases o with
  | text t => simp at hos
  | selector t =>
    obtain rfl : t = s := by simpa using hos
    exact h _ ho

namespace Term

theorem simple_isPlain {function : String} {make : String → Except DefinitionFault Selector}
    (h : simple? function = some make) {text : String} {s : Selector} (hs : make text = .ok s) :
    s.IsPlain := by
  unfold simple? at h
  split at h
  · obtain rfl := Option.some.inj h
    obtain rfl := Except.ok.inj hs
    exact Json.isString_text _
  split at h
  · obtain rfl := Option.some.inj h
    obtain rfl := Except.ok.inj hs
    exact Json.isString_text _
  split at h
  · obtain rfl := Option.some.inj h
    obtain rfl := Except.ok.inj hs
    exact Json.isString_text _
  split at h
  · obtain rfl := Option.some.inj h
    obtain rfl := Except.ok.inj hs
    exact Json.isString_text _
  split at h
  · obtain rfl := Option.some.inj h
    -- a pseudo-class is looked at before it is taken
    dsimp only at hs
    split at hs
    · simp at hs
    · obtain rfl := Except.ok.inj hs
      exact Json.isString_text _
  · simp at h

theorem attributeOf_isPlain {texts : List String} {s : Selector} (h : attributeOf texts = .ok s) :
    s.IsPlain := by
  unfold attributeOf at h
  split at h
  · split at h
    · simp at h
    · dsimp only at h
      split at h
      · simp at h
      · simp at h
      · obtain rfl := Except.ok.inj h
        exact ⟨Json.isString_text _, Json.isWord_textOrNull _, Json.isWord_textOrNull _,
          Json.isWord_textOrNull _⟩
  · simp at h

theorem apply_isPlain {function : String} {operands : List Operand} {s : Selector}
    (ho : ∀ o ∈ operands, o.IsPlain) (h : apply function operands = .ok s) : s.IsPlain := by
  have hselectors := Operand.isPlain_selectors ho
  simp only [apply] at h
  split at h
  · next make hmake =>
    split at h
    · exact simple_isPlain hmake h
    · simp at h
  · split at h
    · split at h
      · exact attributeOf_isPlain h
      · simp at h
    split at h
    · simp at h
    split at h
    · split at h
      · simp at h
      · obtain rfl := Except.ok.inj h
        have hparts := (Selector.arePlain_iff _).2 hselectors
        split
        · exact hparts
        · exact hparts
    · split at h
      · next l r hlr =>
        obtain rfl := Except.ok.inj h
        rw [hlr] at hselectors
        have hl : l.IsPlain := hselectors l (by simp)
        have hr : r.IsPlain := hselectors r (by simp)
        split
        · exact ⟨hl, hr⟩
        · exact ⟨hl, hr⟩
      · simp at h

mutual

theorem check_isPlain : ∀ {t : Term} {o : Operand}, check t = .ok o → o.IsPlain
  | .text s, o, h => by
    obtain rfl := Except.ok.inj h
    trivial
  | .reference name, o, h => by
    obtain rfl := Except.ok.inj h
    exact Json.isString_text name
  | .join word l r, o, h => by
    simp only [check] at h
    split at h
    · simp at h
    · simp only [bind_eq_ok] at h
      obtain ⟨l', hl, r', hr, h⟩ := h
      split at h
      · obtain rfl := pure_eq_ok.1 h
        exact ⟨check_isPlain hl, check_isPlain hr⟩
      · simp at h
  | .call function place arguments, o, h => by
    simp only [check, bind_eq_ok] at h
    obtain ⟨operands, hoperands, h⟩ := h
    split at h
    · next s hs =>
      obtain rfl := pure_eq_ok.1 h
      exact apply_isPlain (checkAll_isPlain hoperands) hs
    · simp at h

theorem checkAll_isPlain : ∀ {ts : List Term} {os : List Operand}, checkAll ts = .ok os →
    ∀ o ∈ os, o.IsPlain
  | [], os, h => by
    obtain rfl := Except.ok.inj h
    simp
  | t :: ts, os, h => by
    simp only [checkAll, bind_eq_ok, pure_eq_ok] at h
    obtain ⟨o, ho, os', hos, rfl⟩ := h
    exact List.forall_mem_cons.2 ⟨check_isPlain ho, checkAll_isPlain hos⟩

end

theorem toSelector_isPlain {t : Term} {s : Selector} (h : t.toSelector = .ok s) : s.IsPlain := by
  obtain ⟨o, ho, h⟩ := bind_eq_ok.1 h
  cases o with
  | text _ => simp at h
  | selector s' =>
    obtain rfl := pure_eq_ok.1 h
    exact check_isPlain ho

end Term

/-! ## 5. Source texts -/

theorem Draft.toStatement_isPlain {d : Draft} (hd : d.IsPlain) {s : Statement}
    (h : d.toStatement = .ok s) : s.IsPlain := by
  cases d with
  | ready s' =>
    obtain rfl := Except.ok.inj h
    cases s' with
    | createSelector name definition => exact hd.2
    | createStartingStyle name ds => trivial
    | _ => exact hd
  | selector name term =>
    simp only [toStatement, bind_eq_ok, pure_eq_ok] at h
    obtain ⟨definition, hdefinition, rfl⟩ := h
    exact Term.toSelector_isPlain hdefinition

/-- The statements of a source text are those of drafts, and what every draft has, these have. -/
theorem exists_draft_of_parse {P : Draft → Prop} (hP : Reading.Yields P Reading.statement)
    {source : String} {strict : Bool} {statements : List Statement}
    (h : parse source strict = .ok statements) :
    ∀ s ∈ statements, ∃ d : Draft, P d ∧ d.toStatement = .ok s := by
  obtain ⟨tokens, -, h⟩ := bind_eq_ok.1 h
  obtain ⟨statements', hread, h⟩ := bind_eq_ok.1 h
  obtain rfl : statements' = statements := by
    dsimp only at h
    split at h
    · obtain ⟨-, -, h⟩ := bind_eq_ok.1 h
      exact pure_eq_ok.1 h
    · exact pure_eq_ok.1 h
  unfold statementsOf at hread
  split at hread
  · next drafts hprogram =>
    intro s hs
    obtain ⟨d, hd, hds⟩ := mem_of_mapM hread s hs
    unfold Reading.program at hprogram
    split at hprogram
    · next drafts' hmany =>
      obtain rfl := Option.some.inj hprogram
      exact ⟨d, Reading.yields_many hP tokens _ _ hmany d hd, hds⟩
    · simp at hprogram
  · simp at hread

/-- Every statement of a source text is plain. -/
theorem isPlain_of_parse {source : String} {strict : Bool} {statements : List Statement}
    (h : parse source strict = .ok statements) : ∀ s ∈ statements, s.IsPlain := by
  intro s hs
  obtain ⟨d, hd, hds⟩ := exists_draft_of_parse Reading.yields_statement h s hs
  exact Draft.toStatement_isPlain hd hds

end StyleLedger.Source
