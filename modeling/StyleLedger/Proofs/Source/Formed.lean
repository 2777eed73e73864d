import StyleLedger.Proofs.Source.Asked
import StyleLedger.Proofs.Source.Evaluation

/-!
Statements that come from a source text are well formed.

What the grammar cannot say is checked while the statements are read: a function of a definition
takes any mixture of texts and definitions as far as the grammar goes, and compounds of conditions
are flattened to the left. So the parts of a statement come from three places. A name is the text of
a token that was cut as a name, and a value is a token, which is never empty (`Draws`). A condition
is as it was written (`Condition.IsWritten`). A definition has passed the checks of every function
in it, the innermost ones first (`Term.check`).

* `Statement.IsWellFormed` — what the parts of a statement are like, at every depth.
* `isWellFormed_of_parse` — every statement of a source text is well formed.
-/

namespace StyleLedger

open Source Text

/-! ## 1. Well-formed statements -/

/-- A letter or an underscore, and then letters, digits, underscores and hyphens. -/
def isIdentifier (x : String) : Bool :=
  match x.toList with
  | [] => false
  | c :: cs => (isAsciiLetter c || c == '_') && cs.all isNameChar

/-- A test on a width has at least one bound, a test on a container exactly one. -/
def Atom.IsWellFormed : Atom → Prop
  | width min max => min ≠ .null ∨ max ≠ .null
  | container _ min max _ => (min ≠ .null ∧ max = .null) ∨ (min = .null ∧ max ≠ .null)
  | _ => True

namespace Condition

mutual

/-- Every compound has two parts at least, and its first part is no compound of the same kind. -/
def IsWellFormed : Condition → Prop
  | atom a => a.IsWellFormed
  | all parts => 2 ≤ parts.length ∧ (∀ p ∈ parts.head?, p.isAll = false) ∧ AreWellFormed parts
  | any parts => 2 ≤ parts.length ∧ (∀ p ∈ parts.head?, p.isAny = false) ∧ AreWellFormed parts

/-- Every one of some conditions is well formed. -/
def AreWellFormed : List Condition → Prop
  | [] => True
  | c :: cs => IsWellFormed c ∧ AreWellFormed cs

end

theorem areWellFormed_iff (cs : List Condition) :
    AreWellFormed cs ↔ ∀ c ∈ cs, c.IsWellFormed := by
  induction cs with
  | nil => simp [AreWellFormed]
  | cons c cs ih => simp [AreWellFormed, ih]

end Condition

namespace Selector

/-- The value of an attribute, its operator and its flag fit together. -/
def IsAttribute (value operator flag : Json) : Prop :=
  (operator ≠ .null → (∃ o ∈ attributeOperators, operator = .text o) ∧ value ≠ .null) ∧
    (flag ≠ .null → (∃ f, flag = .text f ∧ lower f ∈ attributeFlags) ∧ operator ≠ .null)

/-- A text that no colon stands in front of. -/
def IsBare (v : Json) (s : String) : Prop :=
  v = .text s ∧ s.toList.head? ≠ some ':'

mutual

/-- Compounds have parts, references are names, and what stands in an attribute or behind a colon
has been checked. -/
def IsWellFormed : Selector → Prop
  | element _ | cls _ | id _ => True
  | pseudo v => ∃ s, IsBare v s ∧ Pseudo.problem? s = none
  | pseudoElement v => ∃ s, IsBare v s
  | attr _ value operator flag => IsAttribute value operator flag
  | reference name => ∃ x, name = .text x ∧ isIdentifier x = true
  | and parts | or parts => parts ≠ [] ∧ AreWellFormed parts
  | child l r | descendant l r | join _ l r => IsWellFormed l ∧ IsWellFormed r

/-- Every one of some definitions is well formed. -/
def AreWellFormed : List Selector → Prop
  | [] => True
  | s :: ss => IsWellFormed s ∧ AreWellFormed ss

end

theorem areWellFormed_iff (ss : List Selector) :
    AreWellFormed ss ↔ ∀ s ∈ ss, s.IsWellFormed := by
  induction ss with
  | nil => simp [AreWellFormed]
  | cons s ss ih => simp [AreWellFormed, ih]

end Selector

/-- Declarations whose values are not empty. -/
def AreValued (ds : List Declaration) : Prop :=
  ∀ d ∈ ds, d.value ≠ ""

/-- The names of a style are identifiers, and its condition is well formed. -/
structure StyleTarget.IsWellFormed (t : StyleTarget) : Prop where
  selector : isIdentifier t.selector = true
  scopeRoot : ∀ r ∈ t.scopeRoot, isIdentifier r = true
  scopeLimit : ∀ l ∈ t.scopeLimit, isIdentifier l = true
  condition : ∀ c ∈ t.condition, c.IsWellFormed

/-- The parts of a statement are well formed: names of selectors, scopes, layers, keyframes and
counter styles are identifiers, values are not empty, and definitions and conditions are well
formed. -/
def Statement.IsWellFormed : Statement → Prop
  | createToken _ value => value ≠ ""
  | createSelector name definition => isIdentifier name = true ∧ definition.IsWellFormed
  | createStyle target ds | alterStyle target _ ds => target.IsWellFormed ∧ AreValued ds
  | dropSelector name | deleteStyle name _ | dropStyle name | setLayer name | dropKeyframes name
  | dropCounterStyle name | dropStartingStyle name | describeSelector name =>
    isIdentifier name = true
  | createLayers names => ∀ name ∈ names, isIdentifier name = true
  | createFontFace _ ds | createProperty _ ds | createPage ds _ | createFontFeatureValues _ ds
  | createFontPaletteValues _ ds => AreValued ds
  | createKeyframes name frames => isIdentifier name = true ∧ ∀ f ∈ frames, AreValued f.declarations
  | createCounterStyle name ds | createStartingStyle name ds =>
    isIdentifier name = true ∧ AreValued ds
  | selectStyles name condition => isIdentifier name = true ∧ ∀ c ∈ condition, c.IsWellFormed
  | dropToken _ | deleteToken _ | setSpacing _ | raw _ | imports .. | dropFontFace _
  | dropProperty _ | dropPage _ | dropFontFeatureValues _ | dropFontPaletteValues _ | begin | commit
  | rollback => True

/-! ## 2. Conditions -/

/-- A test that is written has its bounds. -/
theorem Atom.IsWritten.isWellFormed {a : Atom} (h : a.IsWritten) : a.IsWellFormed := by
  cases h with
  | between hlo hhi => exact .inl nofun
  | @width atLeast v hv =>
    cases atLeast with
    | false => exact .inr nofun
    | true => exact .inl nofun
  | @container inline atLeast name v hname hv =>
    cases atLeast with
    | false => exact .inr ⟨rfl, nofun⟩
    | true => exact .inl ⟨nofun, rfl⟩
  | feature => trivial
  | containerStyle => trivial
  | supports => trivial

theorem Condition.IsWritten.isWellFormed {c : Condition} (h : c.IsWritten) : c.IsWellFormed := by
  have htwo : ∀ {p : Condition} {ps : List Condition}, ps ≠ [] → 2 ≤ (p :: ps).length := by
    intro p ps hps
    have hpos := List.length_pos_iff.2 hps
    rw [List.length_cons]
    omega
  induction h with
  | atom ha => exact ha.isWellFormed
  | all hp hps _ ih => exact ⟨htwo hps, by simpa using hp, (areWellFormed_iff _).2 ih⟩
  | any hp hps _ ih => exact ⟨htwo hps, by simpa using hp, (areWellFormed_iff _).2 ih⟩

namespace Source

/-! ## 3. Definitions -/

mutual

/-- The references in a term are names. -/
def Term.IsNamed : Term → Prop
  | text _ => True
  | reference name => isIdentifier name = true
  | join _ l r => IsNamed l ∧ IsNamed r
  | call _ _ arguments => AreNamed arguments

/-- The references in some terms are names. -/
def Term.AreNamed : List Term → Prop
  | [] => True
  | t :: ts => IsNamed t ∧ AreNamed ts

end

theorem Term.areNamed_iff : ∀ ts : List Term, AreNamed ts ↔ ∀ t ∈ ts, t.IsNamed
  | [] => by simp [AreNamed]
  | t :: ts => by simp [AreNamed, areNamed_iff ts]

/-- A checked argument is a text or a well-formed definition. -/
def Operand.IsWellFormed : Operand → Prop
  | text _ => True
  | selector s => s.IsWellFormed

theorem Operand.isWellFormed_selectors {os : List Operand} (h : ∀ o ∈ os, o.IsWellFormed) :
    ∀ s ∈ selectors os, s.IsWellFormed := by
  intro s hs
  obtain ⟨o, ho, hos⟩ := List.mem_filterMap.1 hs
  cases o with
  | text t => simp at hos
  | selector t =>
    obtain rfl : t = s := by simpa using hos
    exact h _ ho

namespace Term

/-- Colons that stand in front are gone. -/
theorem isBare_dropColons (s : String) : Selector.IsBare (.text (dropColons s)) (dropColons s) := by
  refine ⟨rfl, fun hhead => ?_⟩
  rw [dropColons, String.toList_ofList] at hhead
  have hnot := List.head?_dropWhile_not (· == ':') s.toList
  rw [hhead] at hnot
  exact absurd hnot (by simp)

theorem simple_isWellFormed {function : String}
    {make : String → Except DefinitionFault Selector} (h : simple? function = some make)
    {text : String} {s : Selector} (hs : make text = .ok s) : s.IsWellFormed := by
  unfold simple? at h
  split at h
  · obtain rfl := Option.some.inj h
    obtain rfl := Except.ok.inj hs
    trivial
  split at h
  · obtain rfl := Option.some.inj h
    obtain rfl := Except.ok.inj hs
    trivial
  split at h
  · obtain rfl := Option.some.inj h
    obtain rfl := Except.ok.inj hs
    trivial
  split at h
  · obtain rfl := Option.some.inj h
    obtain rfl := Except.ok.inj hs
    exact ⟨_, isBare_dropColons text⟩
  split at h
  · obtain rfl := Option.some.inj h
    dsimp only at hs
    split at hs
    · simp at hs
    · next hnone =>
      obtain rfl := Except.ok.inj hs
      exact ⟨_, isBare_dropColons text, hnone⟩
  · simp at h

theorem textOrNull_ne_null {x : Option String} :
    Json.textOrNull x ≠ .null ↔ ∃ s, x = some s ∧ Json.textOrNull x = .text s := by
  cases x with
  | none => simp [Json.textOrNull]
  | some s => simp [Json.textOrNull]

/-- An attribute's texts come in order, so a text is there when a later one is. -/
theorem attributeOf_isWellFormed {texts : List String} {s : Selector}
    (h : attributeOf texts = .ok s) : s.IsWellFormed := by
  unfold attributeOf at h
  split at h
  · next name rest =>
    split at h
    · simp at h
    · dsimp only at h
      split at h
      · simp at h
      · simp at h
      · next hoperator hflag =>
        obtain rfl := Except.ok.inj h
        have hearlier : ∀ {i j : Nat} {t : String}, i ≤ j → rest[j]? = some t →
            Json.textOrNull rest[i]? ≠ .null := by
          intro i j t hij ht
          obtain ⟨hj, -⟩ := List.getElem?_eq_some_iff.1 ht
          rw [List.getElem?_eq_getElem (hij.trans_lt hj)]
          exact nofun
        refine ⟨fun hne => ?_, fun hne => ?_⟩
        · obtain ⟨o, ho, htext⟩ := textOrNull_ne_null.1 hne
          refine ⟨⟨o, ?_, htext⟩, hearlier (Nat.zero_le 1) ho⟩
          rw [ho] at hoperator
          by_contra hnot
          simp [Option.filter, hnot] at hoperator
        · obtain ⟨f, hf, htext⟩ := textOrNull_ne_null.1 hne
          refine ⟨⟨f, htext, ?_⟩, hearlier (Nat.le_succ 1) hf⟩
          rw [hf] at hflag
          by_contra hnot
          simp [Option.filter, hnot] at hflag
  · simp at h

theorem apply_isWellFormed {function : String} {operands : List Operand} {s : Selector}
    (ho : ∀ o ∈ operands, o.IsWellFormed) (h : apply function operands = .ok s) :
    s.IsWellFormed := by
  have hselectors := Operand.isWellFormed_selectors ho
  simp only [apply] at h
  split at h
  · next make hmake =>
    split at h
    · exact simple_isWellFormed hmake h
    · simp at h
  · split at h
    · split at h
      · exact attributeOf_isWellFormed h
      · simp at h
    split at h
    · simp at h
    split at h
    · split at h
      · simp at h
      · next hsome =>
        obtain rfl := Except.ok.inj h
        have hparts : Operand.selectors operands ≠ [] ∧
            Selector.AreWellFormed (Operand.selectors operands) :=
          ⟨by simpa using hsome, (Selector.areWellFormed_iff _).2 hselectors⟩
        split
        · exact hparts
        · exact hparts
    · split at h
      · next l r hlr =>
        obtain rfl := Except.ok.inj h
        rw [hlr] at hselectors
        have hboth : l.IsWellFormed ∧ r.IsWellFormed :=
          ⟨hselectors l (by simp), hselectors r (by simp)⟩
        split
        · exact hboth
        · exact hboth
      · simp at h

open Outcome

mutual

theorem check_isWellFormed : ∀ {t : Term} {o : Operand}, t.IsNamed → check t = .ok o →
    o.IsWellFormed
  | .text s, o, _, h => by
    obtain rfl := Except.ok.inj h
    trivial
  | .reference name, o, hname, h => by
    obtain rfl := Except.ok.inj h
    exact ⟨name, rfl, hname⟩
  | .join word l r, o, hnamed, h => by
    simp only [check] at h
    split at h
    · simp at h
    · simp only [bind_eq_ok] at h
      obtain ⟨l', hl, r', hr, h⟩ := h
      split at h
      · obtain rfl := pure_eq_ok.1 h
        exact ⟨check_isWellFormed hnamed.1 hl, check_isWellFormed hnamed.2 hr⟩
      · simp at h
  | .call function place arguments, o, hnamed, h => by
    simp only [check, bind_eq_ok] at h
    obtain ⟨operands, hoperands, h⟩ := h
    split at h
    · next s hs =>
      obtain rfl := pure_eq_ok.1 h
      exact apply_isWellFormed (checkAll_isWellFormed hnamed hoperands) hs
    · simp at h

theorem checkAll_isWellFormed : ∀ {ts : List Term} {os : List Operand}, AreNamed ts →
    checkAll ts = .ok os → ∀ o ∈ os, o.IsWellFormed
  | [], os, _, h => by
    obtain rfl := Except.ok.inj h
    simp
  | t :: ts, os, hnamed, h => by
    simp only [checkAll, bind_eq_ok, pure_eq_ok] at h
    obtain ⟨o, ho, os', hos, rfl⟩ := h
    exact List.forall_mem_cons.2
      ⟨check_isWellFormed hnamed.1 ho, checkAll_isWellFormed hnamed.2 hos⟩

end

theorem toSelector_isWellFormed {t : Term} {s : Selector} (ht : t.IsNamed)
    (h : t.toSelector = .ok s) : s.IsWellFormed := by
  obtain ⟨o, ho, h⟩ := bind_eq_ok.1 h
  cases o with
  | text _ => simp at h
  | selector s' =>
    obtain rfl := pure_eq_ok.1 h
    exact check_isWellFormed ht ho

end Term

/-! ## 4. Names and values -/

/-- What is whole as a name is an identifier. -/
theorem Terminal.IsWhole.isIdentifier {x : String} (h : Terminal.ident.IsWhole x) :
    isIdentifier x = true := by
  obtain ⟨hne, r, hr⟩ := h
  have hr : identExtent (x.toList ++ r) = x.toList.length := hr
  unfold StyleLedger.isIdentifier
  split
  · next hnil => exact absurd (String.toList_inj.1 hnil) hne
  · next c cs hcons =>
    rw [hcons, List.cons_append, identExtent] at hr
    split at hr
    · next hfirst =>
      have hlength : ((cs ++ r).takeWhile isNameChar).length = cs.length := by
        rw [List.length_cons] at hr
        omega
      have hprefix : (cs ++ r).takeWhile isNameChar = cs :=
        (List.prefix_of_prefix_length_le (List.takeWhile_prefix _) (List.prefix_append cs r)
          hlength.le).eq_of_length hlength
      have hall : cs.all isNameChar = true :=
        hprefix ▸ List.all_takeWhile
      rw [hfirst, hall]
      rfl
    · simp at hr

/-- A name that is a token of a text was cut as a name. -/
theorem isIdentifier_of_tokenize {source : String} {tokens : List Token}
    (h : tokenize source = .ok tokens) {t : Token} (ht : t ∈ tokens) (hkind : t.kind = .ident) :
    isIdentifier t.text = true := by
  obtain ⟨before, after, rfl⟩ := List.append_of_mem ht
  obtain ⟨machine, cs, hcuts, -, -⟩ :=
    (cuts_of_scan h).exists_suffix isReached_start (by decide) (List.suffix_append before _)
  obtain ⟨r, hfirst, -⟩ := hcuts.exists_first
  rw [hkind] at hfirst
  exact (isWhole_ident_of_first? hfirst).1.isIdentifier

namespace Reading

/-- Tokens as a text is cut into them: names are identifiers, and the conditions that are asked for
are well formed. -/
structure IsCut (tokens : List Token) : Prop where
  ident : ∀ t ∈ tokens, t.kind = .ident → isIdentifier t.text = true
  asked : ∀ c, IsAsked tokens c → c.IsWellFormed

theorem isCut_of_tokenize {source : String} {tokens : List Token}
    (h : tokenize source = .ok tokens) : IsCut tokens where
  ident _ := isIdentifier_of_tokenize h
  asked _ hc := (hc.isWritten h).isWellFormed

section Parts

variable {α : Type} {whole : List Token} {P : α → Prop}

theorem draws_commaList {r : Reading α} (h : Draws whole P r) :
    Draws whole (fun as => ∀ a ∈ as, P a) (commaList r) :=
  draws_bind h fun _ ha =>
    draws_bind (draws_many (draws_after (trims_mark _) fun _ => h)) fun _ has =>
      draws_pure (List.forall_mem_cons.2 ⟨ha, has⟩)

theorem draws_value : Draws whole (· ≠ "") value :=
  draws_after (trims_take _) fun t => draws_pure t.nonempty

theorem draws_declarations : Draws whole AreValued declarations :=
  draws_commaList <| draws_after trims_ident fun _ => draws_after (trims_mark _) fun _ =>
    draws_bind draws_value fun _ hv => draws_pure hv

theorem draws_block : Draws whole AreValued block := by
  refine draws_after (trims_mark _) fun _ => draws_bind (draws_maybe draws_declarations) ?_
  rintro (_ | ds) hds
  · exact draws_after (trims_mark _) fun _ => draws_pure (by simp [AreValued])
  · exact draws_after (trims_mark _) fun _ => draws_pure (hds ds rfl)

theorem draws_frame : Draws whole (fun f => AreValued f.declarations) frame :=
  draws_after trims_offset fun _ => draws_bind draws_block fun _ hds => draws_pure hds

variable (h : IsCut whole)

include h

theorem draws_ident : Draws whole (isIdentifier · = true) ident :=
  draws_bind (draws_take _) fun t ht => draws_pure (h.ident t ht.1 ht.2)

theorem draws_styleName (opening : List Keyword) :
    Draws whole (isIdentifier · = true) (styleName opening) :=
  draws_after (trims_words _) fun _ => draws_ident h

theorem draws_scope : Draws whole (fun s => (∀ r ∈ s.1, isIdentifier r = true) ∧
    ∀ l ∈ s.2, isIdentifier l = true) scope := by
  refine draws_bind (P := fun found => ∀ f ∈ found, isIdentifier f.1 = true ∧
    ∀ l ∈ f.2, isIdentifier l = true) ?_ ?_
  · refine draws_maybe (draws_after (trims_words _) fun _ => draws_bind (draws_ident h) ?_)
    intro root hroot
    refine draws_bind (draws_maybe (draws_after (trims_word _) fun _ => draws_ident h)) ?_
    exact fun limit hlimit => draws_pure ⟨hroot, hlimit⟩
  · rintro (_ | ⟨root, limit⟩) hfound
    · exact draws_pure (by simp)
    · obtain ⟨hroot, hlimit⟩ := hfound _ rfl
      exact draws_pure ⟨by simpa using hroot, hlimit⟩

theorem draws_wellFormedClause :
    Draws whole (fun c => ∀ c' ∈ c, Condition.IsWellFormed c') conditionClause :=
  draws_conditionClause.imp fun _ hc c' hc' => h.asked c' (hc c' hc')

theorem draws_wellFormedFilter : Draws whole (fun f => isIdentifier f.1 = true ∧
    ∀ c ∈ f.2, Condition.IsWellFormed c) filter :=
  draws_after (trims_words _) fun _ => draws_after (trims_mark _) fun _ =>
    draws_bind (draws_ident h) fun _ hname =>
      draws_bind (draws_maybe (draws_asked (.inr rfl))) fun _ hc =>
        draws_pure ⟨hname, fun c hmem => h.asked c (hc c hmem)⟩

/-- The references in a term are tokens that are names. -/
theorem draws_termWithin : ∀ n, Draws whole Term.IsNamed (termWithin n)
  | 0 => draws_failure
  | n + 1 => by
    have ih : Draws whole Term.IsNamed (termWithin n) := draws_termWithin n
    refine draws_oneOf ?_
    simp only [List.forall_mem_cons, List.not_mem_nil, false_implies, implies_true, and_true]
    refine ⟨?function, ?join, ?name⟩
    case function =>
      have harguments : Draws whole Term.IsNamed
          ((do return .text (← quoted)) <|> termWithin n) :=
        draws_orElse (draws_after trims_quoted fun _ => draws_pure trivial) ih
      refine draws_after (trims_take _) fun _ =>
        draws_bind (draws_maybe (draws_commaList harguments)) fun found hfound =>
          draws_after (trims_mark _) fun _ => draws_pure ((Term.areNamed_iff _).2 ?_)
      cases found with
      | none => simp
      | some ts => exact hfound ts rfl
    case join =>
      exact draws_after (trims_word _) fun _ => draws_after trims_joinWord fun _ =>
        draws_bind ih fun _ hl => draws_after (trims_word _) fun _ =>
          draws_bind ih fun _ hr => draws_pure ⟨hl, hr⟩
    case name => exact draws_bind (draws_ident h) fun _ hname => draws_pure hname

theorem draws_term : Draws whole Term.IsNamed term :=
  fun ts => draws_termWithin h (ts.length + 1) ts

end Parts

end Reading

/-! ## 5. Statements -/

/-- A draft's statement is well formed once its term is checked. -/
def Draft.IsWellFormed : Draft → Prop
  | ready s => s.IsWellFormed
  | selector name term => isIdentifier name = true ∧ term.IsNamed

theorem Draft.toStatement_isWellFormed {d : Draft} (hd : d.IsWellFormed) {s : Statement}
    (h : d.toStatement = .ok s) : s.IsWellFormed := by
  cases d with
  | ready s' =>
    obtain rfl := Except.ok.inj h
    exact hd
  | selector name term =>
    simp only [toStatement, Outcome.bind_eq_ok, Outcome.pure_eq_ok] at h
    obtain ⟨definition, hdefinition, rfl⟩ := h
    exact ⟨hd.1, Term.toSelector_isWellFormed hd.2 hdefinition⟩

namespace Reading

section Statements

variable {whole : List Token}

theorem draws_closed {p : Reading Statement} (hp : Draws whole Statement.IsWellFormed p) :
    Draws whole Draft.IsWellFormed (closed p) :=
  draws_bind hp fun _ hs => draws_after (trims_mark _) fun _ => draws_pure hs

/-- A statement on a quoted name. -/
theorem draws_onQuoted {ks : List Keyword} {f : String → Statement}
    (hf : ∀ name, (f name).IsWellFormed) :
    Draws whole Draft.IsWellFormed (closed do words ks; return f (← quoted)) :=
  draws_closed <| draws_after (trims_words _) fun _ => draws_after trims_quoted fun name =>
    draws_pure (hf name)

/-- A statement on a bare name. -/
theorem draws_onName (h : IsCut whole) {ks : List Keyword} {f : String → Statement}
    (hf : ∀ name, isIdentifier name = true → (f name).IsWellFormed) :
    Draws whole Draft.IsWellFormed (closed do return f (← styleName ks)) :=
  draws_closed <| draws_bind (draws_styleName h _) fun name hname => draws_pure (hf name hname)

/-- A block for a quoted name. -/
theorem draws_quotedBlock {ks : List Keyword} {f : String → List Declaration → Statement}
    (hf : ∀ name ds, AreValued ds → (f name ds).IsWellFormed) :
    Draws whole Draft.IsWellFormed (closed do words ks; return f (← quoted) (← block)) :=
  draws_closed <| draws_after (trims_words _) fun _ => draws_after trims_quoted fun name =>
    draws_bind draws_block fun ds hds => draws_pure (hf name ds hds)

/-- A statement of one word. -/
theorem draws_onWord {k : Keyword} {s : Statement} (hs : s.IsWellFormed) :
    Draws whole Draft.IsWellFormed (closed do word k; return s) :=
  draws_closed <| draws_after (trims_word k) fun _ => draws_pure hs

theorem draws_tokenStatements : ∀ r ∈ tokenStatements, Draws whole Draft.IsWellFormed r := by
  simp only [tokenStatements, List.forall_mem_cons, List.not_mem_nil, false_implies, implies_true,
    and_true]
  refine ⟨?create, draws_onQuoted fun _ => trivial, ?delete, ?insert, ?update⟩
  case create =>
    refine draws_closed (draws_after (trims_words _) fun _ => draws_after trims_quoted fun _ => ?_)
    exact draws_after (trims_word _) fun _ => draws_bind draws_value fun _ hv => draws_pure hv
  case delete =>
    refine draws_closed (draws_after (trims_words _) fun _ => ?_)
    refine draws_after (trims_mark _) fun _ => ?_
    exact draws_after trims_quoted fun _ => draws_pure trivial
  case insert =>
    refine draws_closed (draws_after (trims_words _) fun _ => ?_)
    iterate 3 refine draws_after (trims_mark _) fun _ => draws_after (trims_word _) fun _ => ?_
    refine draws_after (trims_mark _) fun _ => draws_after trims_quoted fun _ => ?_
    refine draws_after (trims_mark _) fun _ => draws_bind draws_value fun _ hv => ?_
    exact draws_after (trims_mark _) fun _ => draws_pure hv
  case update =>
    refine draws_closed (draws_after (trims_words _) fun _ => ?_)
    refine draws_after (trims_mark _) fun _ => ?_
    refine draws_bind draws_value fun _ hv => draws_after (trims_words _) fun _ => ?_
    exact draws_after (trims_mark _) fun _ => draws_after trims_quoted fun _ => draws_pure hv

theorem draws_selectorStatements (h : IsCut whole) :
    ∀ r ∈ selectorStatements, Draws whole Draft.IsWellFormed r := by
  simp only [selectorStatements, List.forall_mem_cons, List.not_mem_nil, false_implies,
    implies_true, and_true]
  refine ⟨?create, draws_onName h fun _ hname => hname⟩
  case create =>
    refine draws_after (trims_words _) fun _ => draws_bind (draws_ident h) fun _ hname => ?_
    refine draws_after (trims_word _) fun _ => draws_bind (draws_term h) fun _ hterm => ?_
    exact draws_after (trims_mark _) fun _ => draws_pure ⟨hname, hterm⟩

theorem draws_styleStatements (h : IsCut whole) :
    ∀ r ∈ styleStatements, Draws whole Draft.IsWellFormed r := by
  have htarget : ∀ {selector : String}, isIdentifier selector = true →
      StyleTarget.IsWellFormed { selector } := fun hselector =>
    { selector := hselector, scopeRoot := by simp, scopeLimit := by simp, condition := by simp }
  simp only [styleStatements, List.forall_mem_cons, List.not_mem_nil, false_implies, implies_true,
    and_true]
  refine ⟨?create, ?alter, ?delete, ?drop, ?insert, ?update⟩
  case create =>
    refine draws_closed (draws_bind (draws_styleName h _) fun selector hselector => ?_)
    refine draws_bind (draws_scope h) fun scope hscope => ?_
    obtain ⟨hroot, hlimit⟩ := hscope
    refine draws_bind draws_block fun ds hds => ?_
    refine draws_bind (draws_wellFormedClause h) fun c hc => draws_pure ⟨?_, hds⟩
    exact { selector := hselector, scopeRoot := hroot, scopeLimit := hlimit, condition := hc }
  case alter =>
    refine draws_closed (draws_bind (draws_styleName h _) fun selector hselector => ?_)
    refine draws_bind (draws_scope h) fun scope hscope => ?_
    obtain ⟨hroot, hlimit⟩ := hscope
    refine draws_bind (draws_wellFormedClause h) fun c hc => draws_after trims_action fun _ => ?_
    refine draws_bind draws_declarations fun ds hds => draws_pure ⟨?_, hds⟩
    exact { selector := hselector, scopeRoot := hroot, scopeLimit := hlimit, condition := hc }
  case delete =>
    refine draws_closed (draws_after (trims_words _) fun _ => ?_)
    refine draws_after (trims_mark _) fun _ => ?_
    refine draws_bind (draws_ident h) fun _ hselector => ?_
    refine draws_after (trims_maybe ?_) fun _ => draws_pure hselector
    exact draws_after (trims_words _) fun _ => draws_after (trims_mark _) fun _ => trims_name
  case drop =>
    exact draws_closed (draws_bind (draws_styleName h _) fun _ hselector => draws_pure hselector)
  case insert =>
    refine draws_closed (draws_after (trims_words _) fun _ => ?_)
    iterate 4 refine draws_after (trims_mark _) fun _ => draws_after (trims_word _) fun _ => ?_
    refine draws_after (trims_mark _) fun _ => draws_bind (draws_ident h) fun _ hselector => ?_
    refine draws_after (trims_mark _) fun _ => draws_after trims_name fun name => ?_
    refine draws_after (trims_mark _) fun _ => draws_bind draws_value fun v hv => ?_
    exact draws_after (trims_mark _) fun _ =>
      draws_pure ⟨htarget hselector, by simpa [AreValued] using hv⟩
  case update =>
    refine draws_closed (draws_after (trims_words _) fun _ => ?_)
    refine draws_bind draws_declarations fun ds hds => ?_
    refine draws_bind (draws_wellFormedFilter h) fun f hfilter => draws_pure ⟨?_, hds⟩
    obtain ⟨hselector, hc⟩ := hfilter
    exact { htarget hselector with condition := hc }

theorem draws_settingStatements (h : IsCut whole) :
    ∀ r ∈ settingStatements, Draws whole Draft.IsWellFormed r := by
  simp only [settingStatements, List.forall_mem_cons, List.not_mem_nil, false_implies, implies_true,
    and_true]
  refine ⟨?layers, ?layer, ?spacing, ?raw, ?css, ?sql⟩
  case layers =>
    refine draws_closed (draws_after (trims_words _) fun _ => ?_)
    refine draws_after (trims_mark _) fun _ => ?_
    refine draws_bind (draws_commaList (draws_ident h)) fun _ hnames => ?_
    exact draws_after (trims_mark _) fun _ => draws_pure hnames
  case layer =>
    refine draws_closed (draws_after (trims_words _) fun _ => ?_)
    refine draws_after (trims_mark _) fun _ => ?_
    exact draws_bind (draws_ident h) fun _ hname => draws_pure hname
  case spacing =>
    refine draws_closed (draws_after (trims_words _) fun _ => ?_)
    refine draws_after (trims_mark _) fun _ => ?_
    exact draws_after trims_quoted fun _ => draws_pure trivial
  case raw =>
    exact draws_after (trims_word _) fun _ => draws_after trims_quoted fun _ =>
      draws_after trims_optionalSemicolon fun _ => draws_pure trivial
  case css =>
    refine draws_closed (draws_after (trims_words _) fun _ => draws_after trims_quoted fun _ => ?_)
    refine draws_after (trims_maybe ?_) fun _ => draws_pure trivial
    exact draws_after (trims_word _) fun _ => trims_take _
  case sql =>
    refine draws_closed (draws_after (trims_word _) fun _ => ?_)
    exact draws_after (trims_maybe (trims_word _)) fun _ => draws_after trims_quoted fun _ =>
      draws_pure trivial

theorem draws_ruleCreations (h : IsCut whole) :
    ∀ r ∈ ruleCreations, Draws whole Draft.IsWellFormed r := by
  simp only [ruleCreations, List.forall_mem_cons, List.not_mem_nil, false_implies, implies_true,
    and_true]
  refine ⟨draws_quotedBlock fun _ _ hds => hds, ?keyframes, draws_quotedBlock fun _ _ hds => hds,
    ?page, ?counterStyle, draws_quotedBlock fun _ _ hds => hds,
    draws_quotedBlock fun _ _ hds => hds, ?startingStyle⟩
  case keyframes =>
    refine draws_closed (draws_after (trims_words _) fun _ => ?_)
    refine draws_bind (draws_ident h) fun _ hname => draws_after (trims_mark _) fun _ => ?_
    refine draws_bind (draws_commaList draws_frame) fun _ hframes => ?_
    exact draws_after (trims_mark _) fun _ => draws_pure ⟨hname, hframes⟩
  case page =>
    refine draws_closed (draws_after (trims_words _) fun _ => ?_)
    exact draws_after (trims_maybe trims_quoted) fun _ => draws_bind draws_block fun _ hds =>
      draws_pure hds
  case counterStyle =>
    refine draws_closed (draws_after (trims_words _) fun _ => ?_)
    exact draws_bind (draws_ident h) fun _ hname => draws_bind draws_block fun _ hds =>
      draws_pure ⟨hname, hds⟩
  case startingStyle =>
    refine draws_closed (draws_bind (draws_styleName h _) fun _ hname => ?_)
    exact draws_bind draws_block fun _ hds => draws_pure ⟨hname, hds⟩

theorem draws_ruleRemovals (h : IsCut whole) :
    ∀ r ∈ ruleRemovals, Draws whole Draft.IsWellFormed r := by
  simp only [ruleRemovals, List.forall_mem_cons, List.not_mem_nil, false_implies, implies_true,
    and_true]
  refine ⟨draws_onQuoted fun _ => trivial, draws_onName h fun _ hname => hname,
    draws_onQuoted fun _ => trivial, ?page, draws_onName h fun _ hname => hname,
    draws_onQuoted fun _ => trivial, draws_onQuoted fun _ => trivial,
    draws_onName h fun _ hname => hname⟩
  case page =>
    exact draws_closed (draws_after (trims_words _) fun _ =>
      draws_after (trims_maybe trims_quoted) fun _ => draws_pure trivial)

theorem draws_queryStatements (h : IsCut whole) :
    ∀ r ∈ queryStatements, Draws whole Draft.IsWellFormed r := by
  simp only [queryStatements, List.forall_mem_cons, List.not_mem_nil, false_implies, implies_true,
    and_true]
  refine ⟨?select, ?describe, draws_onWord trivial, draws_onWord trivial, draws_onWord trivial⟩
  case select =>
    refine draws_after (trims_words _) fun _ => draws_bind (draws_wellFormedFilter h) fun _ hf => ?_
    exact draws_after trims_optionalSemicolon fun _ => draws_pure hf
  case describe =>
    refine draws_bind (draws_styleName h _) fun _ hname => ?_
    exact draws_after trims_optionalSemicolon fun _ => draws_pure hname

/-- What is read as a statement is well formed. -/
theorem draws_statement (h : IsCut whole) : Draws whole Draft.IsWellFormed statement := by
  refine draws_oneOf ?_
  simp only [List.forall_mem_append, and_assoc]
  exact ⟨draws_tokenStatements, draws_selectorStatements h, draws_styleStatements h,
    draws_settingStatements h, draws_ruleCreations h, draws_ruleRemovals h,
    draws_queryStatements h⟩

/-- What every draft has that is drawn from the tokens of a text, the drafts of the text have. -/
theorem Chain.forall_of_draws {P : Draft → Prop} (hP : Draws whole P statement) {ts : List Token}
    {ds : List Draft} (h : Chain ts ds) (hts : ts <:+ whole) : ∀ d ∈ ds, P d := by
  induction h with
  | nil => simp
  | cons hfirst _ ih =>
    obtain ⟨hleft, hd⟩ := hP _ _ _ hts hfirst
    exact List.forall_mem_cons.2 ⟨hd, ih (hleft.trans hts)⟩

end Statements

end Reading

/-! ## 6. Source texts -/

/-- Every statement of a source text is well formed: its names are identifiers and its values are
not empty, its definition has passed the checks on attributes, pseudo-classes and compounds at every
depth, and so has its condition those on bounds and compounds. -/
theorem isWellFormed_of_parse {source : String} {strict : Bool} {ss : List Statement}
    (h : parse source strict = .ok ss) : ∀ s ∈ ss, s.IsWellFormed := by
  obtain ⟨tokens, htokens, hss, -⟩ := parse_eq_ok.1 h
  obtain ⟨ds, hchain, hmakes⟩ := statementsOf_eq_ok.1 hss
  have hdrafts : ∀ d ∈ ds, d.IsWellFormed :=
    hchain.forall_of_draws (Reading.draws_statement (Reading.isCut_of_tokenize htokens))
      (List.suffix_refl tokens)
  intro s hs
  obtain ⟨i, hi, rfl⟩ := List.getElem_of_mem hs
  have hlt : i < ds.length := hmakes.length_eq ▸ hi
  exact Draft.toStatement_isWellFormed (hdrafts _ (List.getElem_mem hlt))
    ((List.forall₂_iff_get.1 hmakes).2 i hlt hi)

/-- A definition with functions inside one another. -/
def nestedSource : String :=
  "CREATE SELECTOR card AS AND(P(':not(a)'), ATTR('x', 'y'));"

theorem isWellFormed_of_parse_nested : ∃ ss : List Statement, ss.length = 1 ∧
    parse nestedSource true = .ok ss ∧ ∀ s ∈ ss, s.IsWellFormed := by
  obtain ⟨ss, hss, hlength⟩ := Outcome.exists_ok_of_any (p := fun ss => decide (ss.length = 1))
    (x := parse nestedSource true)
    (by
      unfold nestedSource
      rw [parse_ofList]
      decide +kernel)
  exact ⟨ss, of_decide_eq_true hlength, hss, isWellFormed_of_parse hss⟩

end Source

end StyleLedger
