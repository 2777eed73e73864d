import StyleLedger.Source.Parse
import StyleLedger.Proofs.Outcome
import StyleLedger.Proofs.Source.Cuts

/-!
Readers see no further than the next semicolon.

A reader takes tokens from the front and looks at no place. So it reads the same when the tokens
stand elsewhere, and also when others come after them, if a semicolon comes first: that is where a
statement ends, and nothing within a statement takes one (`Steady`). Readers that try again until
they find no more count the tokens that are left, so how often they may try depends on what comes
after; since each try takes a token, there are always enough.

What a reader gives may hold a place only inside a selector term, where it is asked for when the
term turns out to be wrong (`Term.check_unplaced`).

* `steady_statement` — statements are read the same wherever they stand.
-/

namespace StyleLedger.Source

open Outcome

/-! ## 1. Terms without places -/

namespace Term

mutual

/-- A term without its places. -/
def unplaced : Term → Term
  | text s => .text s
  | call function _ arguments => .call function {} (unplacedAll arguments)
  | join word l r => .join word (unplaced l) (unplaced r)
  | reference name => .reference name

/-- Some terms without their places. -/
def unplacedAll : List Term → List Term
  | [] => []
  | t :: ts => unplaced t :: unplacedAll ts

end

theorem unplacedAll_eq (ts : List Term) : unplacedAll ts = ts.map unplaced := by
  induction ts with
  | nil => rfl
  | cons t ts ih => simp [unplacedAll, ih]

mutual

/-- The place of a function plays no part unless its arguments are wrong. -/
theorem check_unplaced : ∀ {t : Term} {o : Operand}, t.unplaced.check = .ok o ↔ t.check = .ok o
  | .text s, o => Iff.rfl
  | .reference name, o => Iff.rfl
  | .join word l r, o => by
    simp only [unplaced, check]
    split
    · rfl
    · simp only [bind_eq_ok, check_unplaced]
  | .call function place arguments, o => by
    simp only [unplaced, check, bind_eq_ok, checkAll_unplaced]
    refine exists_congr fun operands => and_congr_right fun _ => ?_
    split
    · rfl
    · simp

theorem checkAll_unplaced : ∀ {ts : List Term} {os : List Operand},
    checkAll (unplacedAll ts) = .ok os ↔ checkAll ts = .ok os
  | [], os => Iff.rfl
  | t :: ts, os => by
    simp only [unplacedAll, checkAll, bind_eq_ok, check_unplaced, checkAll_unplaced]

end

end Term

namespace Draft

/-- A draft without its places. -/
def unplaced : Draft → Draft
  | ready s => .ready s
  | selector name term => .selector name term.unplaced

theorem toStatement_unplaced {d : Draft} {s : Statement} :
    d.unplaced.toStatement = .ok s ↔ d.toStatement = .ok s := by
  cases d with
  | ready s => rfl
  | selector name term =>
    simp only [unplaced, toStatement, Term.toSelector, bind_eq_ok, Term.check_unplaced]

end Draft

namespace Reading

/-! ## 2. Steady readers -/

variable {α β γ δ : Type} {rest : List Token} {g : α → β} {h : γ → δ} {size least most : Nat}
  {p p' : Reading α} {q q' : Reading β}

/-- The same tokens elsewhere: without their places, and with others after them. -/
def elsewhere (rest ts : List Token) : List Token :=
  ts.map Token.unplaced ++ rest

/-- Two readers correspond to each other on lists of fewer than `size` tokens: where the first one
reads them, the second reads the same (`g`) elsewhere, if nothing else comes after them or a
semicolon comes first. The first takes at least `least` tokens, and at most `most` semicolons. -/
structure Steady (rest : List Token) (g : α → β) (size least most : Nat) (p : Reading α)
    (q : Reading β) : Prop where
  same : ∀ ts, ts.length < size → rest = [] ∨ 0 < semicolons ts →
    q (elsewhere rest ts) = (p ts).map (Prod.map g (elsewhere rest))
  spends : ∀ ts a left, ts.length < size → p ts = some (a, left) →
    left <:+ ts ∧ left.length + least ≤ ts.length ∧ semicolons ts ≤ semicolons left + most

theorem Steady.mono {size' least' most' : Nat} (hp : Steady rest g size least most p q)
    (hsize : size' ≤ size) (hleast : least' ≤ least) (hmost : most ≤ most') :
    Steady rest g size' least' most' p q where
  same ts hts := hp.same ts (Nat.lt_of_lt_of_le hts hsize)
  spends ts a left hts ha := by
    obtain ⟨hsuffix, hlength, hsemicolons⟩ := hp.spends ts a left (Nat.lt_of_lt_of_le hts hsize) ha
    exact ⟨hsuffix, by omega, by omega⟩

theorem Steady.weaken (hp : Steady rest g size least most p q) : Steady rest g size 0 most p q :=
  hp.mono (Nat.le_refl _) (Nat.zero_le _) (Nat.le_refl _)

theorem steady_zero : Steady rest g 0 least most p q :=
  ⟨fun _ hts => absurd hts (Nat.not_lt_zero _), fun _ _ _ hts => absurd hts (Nat.not_lt_zero _)⟩

theorem steady_pure {a : α} {b : β} (hab : g a = b) : Steady rest g size 0 0 (pure a) (pure b) where
  same ts _ _ := by
    rw [← hab]
    rfl
  spends ts a' left _ hleft := by
    obtain ⟨-, rfl⟩ : a = a' ∧ ts = left := Prod.mk.inj (Option.some.inj hleft)
    exact ⟨List.suffix_refl _, Nat.le_refl _, Nat.le_refl _⟩

/-- One reader after another, where the first one takes what is asked for. -/
theorem steady_first {f : α → Reading γ} {f' : β → Reading δ}
    (hp : Steady rest g size least 0 p q)
    (hf : ∀ a, Steady rest h (size - least) 0 most (f a) (f' (g a))) :
    Steady rest h size least most (p >>= f) (q >>= f') where
  same ts hts hguard := by
    have hq := hp.same ts hts hguard
    show (q (elsewhere rest ts)).bind _ = ((p ts).bind _).map _
    rw [hq]
    cases hread : p ts with
    | none => rfl
    | some found =>
      obtain ⟨-, hlength, hsemicolons⟩ := hp.spends ts found.1 found.2 hts hread
      exact (hf found.1).same found.2 (by omega) (hguard.imp_right fun hpos => by omega)
  spends ts c left hts hread := by
    obtain ⟨⟨a, between⟩, ha, hc⟩ := Option.bind_eq_some_iff.1 hread
    obtain ⟨hfirst, hlength, hsemicolons⟩ := hp.spends ts a between hts ha
    obtain ⟨hnext, hlength', hsemicolons'⟩ := (hf a).spends between c left (by omega) hc
    exact ⟨hnext.trans hfirst, by omega, by omega⟩

/-- One reader after another. -/
theorem steady_bind {f : α → Reading γ} {f' : β → Reading δ}
    (hp : Steady rest g size least 0 p q)
    (hf : ∀ a, Steady rest h (size - least) 0 most (f a) (f' (g a))) :
    Steady rest h size 0 most (p >>= f) (q >>= f') :=
  (steady_first hp hf).mono (Nat.le_refl _) (Nat.zero_le _) (Nat.le_refl _)

/-- What is made of what a reader gives. -/
theorem steady_map {f : α → γ} {f' : β → δ} (hp : Steady rest g size least most p q)
    (hf : ∀ a, h (f a) = f' (g a)) :
    Steady rest h size least most (p >>= fun a => pure (f a)) (q >>= fun b => pure (f' b)) where
  same ts hts hguard := by
    have hq := hp.same ts hts hguard
    show (q (elsewhere rest ts)).bind _ = ((p ts).bind _).map _
    rw [hq]
    cases p ts with
    | none => rfl
    | some found => exact congrArg (fun c => some (c, elsewhere rest found.2)) (hf found.1).symm
  spends ts c left hts hread := by
    obtain ⟨⟨a, between⟩, ha, hc⟩ := Option.bind_eq_some_iff.1 hread
    obtain ⟨-, rfl⟩ : f a = c ∧ between = left := Prod.mk.inj (Option.some.inj hc)
    exact hp.spends ts a between hts ha

theorem steady_orElse (hp : Steady rest g size least most p q)
    (hp' : Steady rest g size least most p' q') :
    Steady rest g size least most (p <|> p') (q <|> q') where
  same ts hts hguard := by
    show (q (elsewhere rest ts) <|> q' (elsewhere rest ts)) = (p ts <|> p' ts).map _
    rw [hp.same ts hts hguard, hp'.same ts hts hguard]
    cases p ts <;> rfl
  spends ts a left hts hread := by
    have hread : (p ts <|> p' ts) = some (a, left) := hread
    cases hfirst : p ts with
    | none =>
      rw [hfirst] at hread
      exact hp'.spends ts a left hts hread
    | some found =>
      rw [hfirst] at hread
      exact hp.spends ts a left hts (hfirst.trans hread)

theorem steady_failure : Steady rest g size least most (failure : Reading α) failure :=
  ⟨fun _ _ _ => rfl, fun _ _ _ _ h => nomatch h⟩

theorem steady_oneOf {ps : List (Reading α)} {qs : List (Reading β)}
    (hps : List.Forall₂ (Steady rest g size least most) ps qs) :
    Steady rest g size least most (oneOf ps) (oneOf qs) := by
  induction hps with
  | nil => exact steady_failure
  | cons hp _ ih => exact steady_orElse hp ih

theorem steady_maybe (hp : Steady rest g size 0 most p q) :
    Steady rest (Option.map g) size 0 most (maybe p) (maybe q) := by
  refine steady_orElse ?_ ((steady_pure rfl).mono (Nat.le_refl _) (Nat.le_refl _) (Nat.zero_le _))
  exact steady_map hp fun _ => rfl

theorem semicolons_cons (t : Token) (ts : List Token) :
    semicolons (t :: ts) = semicolons ts + if t.kind = .mark ';' then 1 else 0 := by
  simp [semicolons, List.countP_cons]

/-- A token, of which the readers look at kind and text. -/
theorem steady_take (kind : Terminal) :
    Steady rest Token.unplaced size 1 (if kind = .mark ';' then 1 else 0) (take kind)
      (take kind) where
  same ts _ hguard := by
    cases ts with
    | nil =>
      obtain rfl : rest = [] := hguard.resolve_right (by simp [semicolons])
      rfl
    | cons t ts =>
      show (if t.kind = kind then _ else _) = Option.map _ (if t.kind = kind then _ else _)
      split <;> rfl
  spends ts a left _ hread := by
    cases ts with
    | nil => simp [take] at hread
    | cons t ts =>
      simp only [take] at hread
      split_ifs at hread with hkind
      obtain ⟨rfl, rfl⟩ := Prod.mk.inj (Option.some.inj hread)
      simp [semicolons_cons, hkind]

section Parts

variable {size : Nat}

theorem steady_word (k : Keyword) : Steady rest id size 1 0 (word k) (word k) :=
  steady_map (steady_take (.word k)) fun _ => rfl

theorem steady_words_tail (ks : List Keyword) : Steady rest id size 0 0 (words ks) (words ks) := by
  induction ks generalizing size with
  | nil => exact steady_pure rfl
  | cons k ks ih => exact steady_bind (steady_word k) fun _ => ih

theorem steady_words (k : Keyword) (ks : List Keyword) :
    Steady rest id size 1 0 (words (k :: ks)) (words (k :: ks)) :=
  steady_first (steady_word k) fun _ => steady_words_tail ks

theorem steady_mark {c : Char} (hc : c ≠ ';') : Steady rest id size 1 0 (mark c) (mark c) := by
  have htake : Steady rest Token.unplaced size 1 _ (take (.mark c)) (take (.mark c)) :=
    steady_take (.mark c)
  rw [if_neg (by simpa using hc)] at htake
  exact steady_map htake fun _ => rfl

theorem steady_semicolon : Steady rest id size 1 1 semicolon semicolon :=
  steady_map (steady_take (.mark ';')) fun _ => rfl

theorem steady_ident : Steady rest id size 1 0 ident ident :=
  steady_map (steady_take .ident) fun _ => rfl

theorem steady_value : Steady rest id size 1 0 value value :=
  steady_map (steady_take .value) fun _ => rfl

theorem steady_quoted : Steady rest id size 1 0 quoted quoted :=
  steady_map (steady_take .quoted) fun _ => rfl

theorem steady_group : Steady rest id size 1 0 group group :=
  steady_map (steady_take .group) fun _ => rfl

theorem steady_name : Steady rest id size 1 0 name name :=
  steady_orElse steady_quoted steady_ident

end Parts

theorem steady_manyWithin (hp : Steady rest g size 1 0 p q) : ∀ {m n : Nat}, m ≤ n → m < size →
    Steady rest (List.map g) (m + 1) 0 0 (manyWithin p m) (manyWithin q n)
  | 0, n, _, hsize => by
    refine ⟨fun ts hts hguard => ?_, fun ts as left hts hread => ?_⟩
    · obtain rfl := List.length_eq_zero_iff.1 (Nat.lt_one_iff.1 hts)
      obtain rfl : rest = [] := hguard.resolve_right (by simp [semicolons])
      have hnone : p [] = none := by
        by_contra hsome
        obtain ⟨⟨a, left⟩, hread⟩ := Option.ne_none_iff_exists'.1 hsome
        have := (hp.spends [] a left hsize hread).2.1
        simp at this
      have hq : q [] = none := by
        have := hp.same [] hsize (.inl rfl)
        rwa [hnone] at this
      cases n with
      | zero => rfl
      | succ n =>
        show ((q []).bind _ <|> _) = _
        rw [hq]
        rfl
    · obtain ⟨-, rfl⟩ : [] = as ∧ ts = left := Prod.mk.inj (Option.some.inj hread)
      simp
  | m + 1, n + 1, hle, hsize => by
    have ih := steady_manyWithin hp (Nat.le_of_succ_le_succ hle) (Nat.lt_of_succ_lt hsize)
    refine steady_orElse ?_ (steady_pure rfl)
    have hfirst : Steady rest g (m + 1 + 1) 1 0 p q := hp.mono hsize (Nat.le_refl _) (Nat.le_refl _)
    refine steady_bind hfirst fun a => ?_
    exact steady_map ih fun as => rfl

theorem length_le_elsewhere (rest ts : List Token) : ts.length ≤ (elsewhere rest ts).length := by
  simp [elsewhere]

theorem steady_many (hp : Steady rest g size 1 0 p q) :
    Steady rest (List.map g) size 0 0 (many p) (many q) where
  same ts hts :=
    (steady_manyWithin hp (length_le_elsewhere rest ts) hts).same ts (Nat.lt_succ_self _)
  spends ts as left hts :=
    (steady_manyWithin hp (Nat.le_refl _) hts).spends ts as left (Nat.lt_succ_self _)

theorem steady_commaList (hp : Steady rest g size 1 0 p q) :
    Steady rest (List.map g) size 1 0 (commaList p) (commaList q) := by
  refine steady_first hp fun a => ?_
  refine steady_map (steady_many ?_) fun as => rfl
  refine steady_first (steady_mark (by decide)) fun _ => ?_
  exact hp.mono (Nat.le_trans (Nat.sub_le _ _) (Nat.sub_le _ _)) (Nat.zero_le _) (Nat.le_refl _)

/-! ## 3. Parts of statements

Parts without a place in them are read the same elsewhere. -/

section Same

variable {p q : Reading α}

theorem Steady.maybe_same (hp : Steady rest id size 0 most p q) :
    Steady rest id size 0 most (maybe p) (maybe q) :=
  Option.map_id ▸ steady_maybe hp

theorem Steady.many_same (hp : Steady rest id size 1 0 p q) :
    Steady rest id size 0 0 (many p) (many q) :=
  List.map_id_fun ▸ steady_many hp

theorem Steady.commaList_same (hp : Steady rest id size 1 0 p q) :
    Steady rest id size 1 0 (commaList p) (commaList q) :=
  List.map_id_fun ▸ steady_commaList hp

theorem steady_oneOf_same {g : α → α} {ps : List (Reading α)}
    (hps : ∀ p ∈ ps, Steady rest g size least most p p) :
    Steady rest g size least most (oneOf ps) (oneOf ps) :=
  steady_oneOf (List.forall₂_same.2 hps)

end Same

section Language

variable {size : Nat}

theorem steady_declaration : Steady rest id size 1 0 declaration declaration := by
  refine steady_first steady_ident fun name => ?_
  refine steady_bind (steady_mark (by decide)) fun _ => ?_
  exact steady_bind steady_value fun _ => steady_pure rfl

theorem steady_declarations : Steady rest id size 1 0 declarations declarations :=
  steady_declaration.commaList_same

theorem steady_block : Steady rest id size 1 0 block block := by
  refine steady_first (steady_mark (by decide)) fun _ => ?_
  refine steady_bind steady_declarations.weaken.maybe_same fun ds => ?_
  exact steady_bind (steady_mark (by decide)) fun _ => steady_pure rfl

theorem steady_joinWord : Steady rest id size 1 0 joinWord joinWord := by
  have hwords : ∀ p ∈ [Keyword.and, .desc, .child, .adj, .sib].map (fun k => take (.word k)),
      Steady rest Token.unplaced size 1 0 p p := by
    intro p hp
    obtain ⟨k, -, rfl⟩ := List.mem_map.1 hp
    exact steady_take (.word k)
  exact steady_map (steady_oneOf_same hwords) fun _ => rfl

/-- More functions and joins inside one another than there are tokens make no difference. -/
theorem steady_termWithin : ∀ {size n : Nat}, size ≤ n →
    Steady rest Term.unplaced size 1 0 (termWithin size) (termWithin n)
  | 0, _, _ => steady_zero
  | size + 1, n + 1, hle => by
    have ih : Steady rest Term.unplaced size 1 0 (termWithin size) (termWithin n) :=
      steady_termWithin (Nat.le_of_succ_le_succ hle)
    refine steady_oneOf (.cons ?function (.cons ?join (.cons ?name .nil)))
    case function =>
      refine steady_first (steady_take .function) fun function => ?_
      have hargument : Steady rest Term.unplaced size 1 0
          ((do return .text (← quoted)) <|> termWithin size)
          ((do return .text (← quoted)) <|> termWithin n) :=
        steady_orElse (steady_map steady_quoted fun _ => rfl) ih
      refine steady_bind (steady_maybe (steady_commaList hargument).weaken) fun arguments => ?_
      refine steady_bind (steady_mark (by decide)) fun _ => steady_pure ?_
      cases arguments <;> simp [Term.unplaced, Term.unplacedAll_eq, Token.unplaced]
    case join =>
      refine steady_first (steady_word _) fun _ => ?_
      refine steady_bind steady_joinWord fun how => ?_
      refine steady_bind (ih.mono (Nat.sub_le _ _) (Nat.le_refl _) (Nat.le_refl _)) fun left => ?_
      refine steady_bind (steady_word _) fun _ => ?_
      refine steady_bind (ih.mono ?_ (Nat.le_refl _) (Nat.le_refl _)) fun right => steady_pure rfl
      omega
    case name => exact steady_map steady_ident fun _ => rfl

theorem steady_term : Steady rest Term.unplaced size 1 0 term term where
  same ts _ :=
    (steady_termWithin (Nat.succ_le_succ (length_le_elsewhere rest ts))).same ts
      (Nat.lt_succ_self _)
  spends ts t left _ hread := by
    have hterm : Steady rest Term.unplaced (ts.length + 1) 1 0 (termWithin (ts.length + 1)) _ :=
      steady_termWithin (Nat.le_refl _)
    exact hterm.spends ts t left (Nat.lt_succ_self _) hread

theorem steady_comparison : Steady rest id size 1 0 comparison comparison := by
  refine steady_first (steady_take .comparison) fun sign => ?_
  exact steady_bind steady_value fun _ => steady_pure rfl

theorem steady_containerTest (name : String) :
    Steady rest id size 0 0 (containerTest name) (containerTest name) := by
  refine steady_orElse ?_ ?_
  · refine steady_bind (steady_word _) fun _ => ?_
    exact steady_bind steady_group fun _ => steady_pure rfl
  · refine steady_bind (steady_word _).weaken.maybe_same fun inline => ?_
    exact steady_bind steady_comparison fun ⟨atLeast, v⟩ => steady_pure rfl

theorem steady_atom : Steady rest id size 1 0 atom atom := by
  refine steady_oneOf_same ?_
  simp only [List.forall_mem_cons, List.not_mem_nil, false_implies, implies_true, and_true]
  refine ⟨?between, ?width, ?container, ?supports, ?feature⟩
  case between =>
    refine steady_first (steady_words _ _) fun _ => ?_
    refine steady_bind steady_value fun lo => ?_
    refine steady_bind (steady_word _) fun _ => ?_
    exact steady_bind steady_value fun hi => steady_pure rfl
  case width =>
    refine steady_first (steady_word _) fun _ => ?_
    exact steady_bind steady_comparison fun ⟨atLeast, v⟩ => steady_pure rfl
  case container =>
    refine steady_first (steady_word _) fun _ => ?_
    exact steady_bind steady_ident steady_containerTest
  case supports =>
    refine steady_first (steady_word _) fun _ => ?_
    exact steady_bind steady_group fun text => steady_pure rfl
  case feature =>
    refine steady_first steady_ident fun name => ?_
    refine steady_bind (steady_mark (by decide)) fun _ => ?_
    exact steady_bind steady_value fun v => steady_pure rfl

/-- Parts with a word between them. -/
theorem steady_joined {p q : Reading Condition} (hp : Steady rest id size 1 0 p q) (k : Keyword)
    (combine : Condition → Condition → Condition) :
    Steady rest id size 1 0
      (do
        let first ← p
        let more ← many (do word k; p)
        return more.foldl combine first)
      (do
        let first ← q
        let more ← many (do word k; q)
        return more.foldl combine first) := by
  refine steady_first hp fun first => ?_
  refine steady_map (Steady.many_same ?_) fun more => rfl
  refine steady_first (steady_word k) fun _ => ?_
  exact hp.mono (Nat.le_trans (Nat.sub_le _ _) (Nat.sub_le _ _)) (Nat.zero_le _) (Nat.le_refl _)

/-- More brackets inside one another than there are tokens make no difference. -/
theorem steady_conditionWithin : ∀ {size n : Nat}, size ≤ n →
    Steady rest id size 1 0 (conditionWithin size) (conditionWithin n)
  | 0, _, _ => steady_zero
  | size + 1, n + 1, hle => by
    have ih : Steady rest id size 1 0 (conditionWithin size) (conditionWithin n) :=
      steady_conditionWithin (Nat.le_of_succ_le_succ hle)
    refine steady_joined (steady_joined (steady_orElse ?atom ?brackets) .and conjoin) .or disjoin
    case atom => exact steady_map steady_atom fun _ => rfl
    case brackets =>
      refine steady_first (steady_mark (by decide)) fun _ => ?_
      refine steady_bind ih fun c => ?_
      exact steady_bind (steady_mark (by decide)) fun _ => steady_pure rfl

theorem steady_condition : Steady rest id size 1 0 condition condition where
  same ts _ :=
    (steady_conditionWithin (Nat.succ_le_succ (length_le_elsewhere rest ts))).same ts
      (Nat.lt_succ_self _)
  spends ts c left _ hread := by
    have hcondition : Steady rest id (ts.length + 1) 1 0 (conditionWithin (ts.length + 1)) _ :=
      steady_conditionWithin (Nat.le_refl _)
    exact hcondition.spends ts c left (Nat.lt_succ_self _) hread

theorem steady_conditionClause : Steady rest id size 0 0 conditionClause conditionClause := by
  refine Steady.maybe_same ?_
  exact steady_bind (steady_word _) fun _ => steady_condition.weaken

theorem steady_filter : Steady rest id size 1 0 filter filter := by
  refine steady_first (steady_words _ _) fun _ => ?_
  refine steady_bind (steady_mark (by decide)) fun _ => ?_
  refine steady_bind steady_ident fun selector => ?_
  refine steady_bind (Steady.maybe_same ?_) fun condition => steady_pure rfl
  exact steady_bind (steady_word _) fun _ => steady_condition.weaken

theorem steady_scope : Steady rest id size 0 0 scope scope := by
  refine steady_bind (Steady.maybe_same ?_) fun found => steady_pure rfl
  refine steady_bind (steady_words _ _) fun _ => ?_
  refine steady_bind steady_ident fun root => ?_
  refine steady_bind (Steady.maybe_same ?_) fun limit => steady_pure rfl
  exact steady_bind (steady_word _) fun _ => steady_ident.weaken

theorem steady_styleName (k : Keyword) (ks : List Keyword) :
    Steady rest id size 1 0 (styleName (k :: ks)) (styleName (k :: ks)) :=
  steady_first (steady_words k ks) fun _ => steady_ident.weaken

theorem steady_action : Steady rest id size 1 0 action action :=
  steady_orElse (steady_map (steady_word _) fun _ => rfl) (steady_map (steady_word _) fun _ => rfl)

theorem steady_frame : Steady rest id size 1 0 frame frame := by
  refine steady_first (steady_oneOf_same ?_) fun offset =>
    steady_bind steady_block fun ds => steady_pure rfl
  simp only [List.forall_mem_cons, List.not_mem_nil, false_implies, implies_true, and_true]
  refine ⟨steady_quoted, ?_, ?_, ?_⟩
  · exact steady_map (steady_take .percentage) fun _ => rfl
  · exact steady_map (steady_word _) fun _ => rfl
  · exact steady_map (steady_word _) fun _ => rfl

end Language

/-! ## 4. Statements -/

section Statements

variable {size : Nat}

/-- A statement with its semicolon. -/
theorem steady_closed {p : Reading Statement} (hp : Steady rest id size least 0 p p) :
    Steady rest Draft.unplaced size least 1 (closed p) (closed p) := by
  refine steady_first hp fun s => ?_
  exact steady_map steady_semicolon.weaken fun _ => rfl

theorem steady_optionalSemicolon :
    Steady rest id size 0 1 optionalSemicolon optionalSemicolon :=
  steady_map steady_semicolon.weaken.maybe_same fun _ => rfl

/-- A reader of statements reads the same wherever it stands. It takes a token at least and one
semicolon at most. -/
abbrev SteadyStatement (rest : List Token) (size : Nat) (p : Reading Draft) : Prop :=
  Steady rest Draft.unplaced size 1 1 p p

/-- A statement on a quoted name. -/
theorem steady_onQuoted (k : Keyword) (ks : List Keyword) (f : String → Statement) :
    SteadyStatement rest size (closed do words (k :: ks); return f (← quoted)) :=
  steady_closed <| steady_first (steady_words k ks) fun _ => steady_bind steady_quoted fun _ =>
    steady_pure rfl

/-- A statement on a bare name. -/
theorem steady_onName (k : Keyword) (ks : List Keyword) (f : String → Statement) :
    SteadyStatement rest size (closed do return f (← styleName (k :: ks))) :=
  steady_closed (steady_map (steady_styleName k ks) fun _ => rfl)

/-- A block for a quoted name. -/
theorem steady_quotedBlock (k : Keyword) (ks : List Keyword)
    (f : String → List Declaration → Statement) :
    SteadyStatement rest size (closed do words (k :: ks); return f (← quoted) (← block)) :=
  steady_closed <| steady_first (steady_words k ks) fun _ => steady_bind steady_quoted fun _ =>
    steady_bind steady_block fun _ => steady_pure rfl

/-- A statement of one word. -/
theorem steady_onWord (k : Keyword) (s : Statement) :
    SteadyStatement rest size (closed do word k; return s) :=
  steady_closed (steady_map (steady_word k) fun _ => rfl)

theorem steady_tokenStatements : ∀ p ∈ tokenStatements, SteadyStatement rest size p := by
  simp only [tokenStatements, List.forall_mem_cons, List.not_mem_nil, false_implies, implies_true,
    and_true]
  refine ⟨?create, steady_onQuoted _ _ _, ?delete, ?insert, ?update⟩
  case create =>
    refine steady_closed (steady_first (steady_words _ _) fun _ => ?_)
    refine steady_bind steady_quoted fun name => steady_bind (steady_word _) fun _ => ?_
    exact steady_bind steady_value fun v => steady_pure rfl
  case delete =>
    refine steady_closed (steady_first (steady_words _ _) fun _ => ?_)
    refine steady_bind (steady_mark (by decide)) fun _ => ?_
    exact steady_bind steady_quoted fun name => steady_pure rfl
  case insert =>
    refine steady_closed (steady_first (steady_words _ _) fun _ => ?_)
    iterate 3
      refine steady_bind (steady_mark (by decide)) fun _ => ?_
      refine steady_bind (steady_word _) fun _ => ?_
    refine steady_bind (steady_mark (by decide)) fun _ => ?_
    refine steady_bind steady_quoted fun name => ?_
    refine steady_bind (steady_mark (by decide)) fun _ => ?_
    refine steady_bind steady_value fun v => ?_
    exact steady_bind (steady_mark (by decide)) fun _ => steady_pure rfl
  case update =>
    refine steady_closed (steady_first (steady_words _ _) fun _ => ?_)
    refine steady_bind (steady_mark (by decide)) fun _ => ?_
    refine steady_bind steady_value fun v => steady_bind (steady_words _ _) fun _ => ?_
    refine steady_bind (steady_mark (by decide)) fun _ => ?_
    exact steady_bind steady_quoted fun name => steady_pure rfl

theorem steady_selectorStatements : ∀ p ∈ selectorStatements, SteadyStatement rest size p := by
  simp only [selectorStatements, List.forall_mem_cons, List.not_mem_nil, false_implies,
    implies_true, and_true]
  refine ⟨?create, steady_onName _ _ _⟩
  case create =>
    refine steady_first (steady_words _ _) fun _ => ?_
    refine steady_bind steady_ident fun name => steady_bind (steady_word _) fun _ => ?_
    refine steady_bind steady_term fun t => ?_
    exact steady_map steady_semicolon.weaken fun _ => rfl

theorem steady_styleStatements : ∀ p ∈ styleStatements, SteadyStatement rest size p := by
  simp only [styleStatements, List.forall_mem_cons, List.not_mem_nil, false_implies, implies_true,
    and_true]
  refine ⟨?create, ?alter, ?delete, steady_onName _ _ _, ?insert, ?update⟩
  case create =>
    refine steady_closed (steady_first (steady_styleName _ _) fun selector => ?_)
    refine steady_bind steady_scope fun ⟨scopeRoot, scopeLimit⟩ => ?_
    refine steady_bind steady_block fun ds => ?_
    exact steady_bind steady_conditionClause fun condition => steady_pure rfl
  case alter =>
    refine steady_closed (steady_first (steady_styleName _ _) fun selector => ?_)
    refine steady_bind steady_scope fun ⟨scopeRoot, scopeLimit⟩ => ?_
    refine steady_bind steady_conditionClause fun condition => ?_
    refine steady_bind steady_action fun mode => ?_
    exact steady_bind steady_declarations fun ds => steady_pure rfl
  case delete =>
    refine steady_closed (steady_first (steady_words _ _) fun _ => ?_)
    refine steady_bind (steady_mark (by decide)) fun _ => ?_
    refine steady_bind steady_ident fun selector => ?_
    refine steady_bind (Steady.maybe_same ?_) fun property => steady_pure rfl
    refine steady_bind (steady_words _ _) fun _ => ?_
    exact steady_bind (steady_mark (by decide)) fun _ => steady_name.weaken
  case insert =>
    refine steady_closed (steady_first (steady_words _ _) fun _ => ?_)
    iterate 4
      refine steady_bind (steady_mark (by decide)) fun _ => ?_
      refine steady_bind (steady_word _) fun _ => ?_
    refine steady_bind (steady_mark (by decide)) fun _ => ?_
    refine steady_bind steady_ident fun selector => ?_
    refine steady_bind (steady_mark (by decide)) fun _ => ?_
    refine steady_bind steady_name fun name => ?_
    refine steady_bind (steady_mark (by decide)) fun _ => ?_
    refine steady_bind steady_value fun v => ?_
    exact steady_bind (steady_mark (by decide)) fun _ => steady_pure rfl
  case update =>
    refine steady_closed (steady_first (steady_words _ _) fun _ => ?_)
    refine steady_bind steady_declarations fun ds => ?_
    exact steady_bind steady_filter fun ⟨selector, condition⟩ => steady_pure rfl

theorem steady_settingStatements : ∀ p ∈ settingStatements, SteadyStatement rest size p := by
  simp only [settingStatements, List.forall_mem_cons, List.not_mem_nil, false_implies, implies_true,
    and_true]
  refine ⟨?layers, ?layer, ?spacing, ?raw, ?css, ?sql⟩
  case layers =>
    refine steady_closed (steady_first (steady_words _ _) fun _ => ?_)
    refine steady_bind (steady_mark (by decide)) fun _ => ?_
    refine steady_bind steady_ident.commaList_same fun names => ?_
    exact steady_bind (steady_mark (by decide)) fun _ => steady_pure rfl
  case layer =>
    refine steady_closed (steady_first (steady_words _ _) fun _ => ?_)
    refine steady_bind (steady_mark (by decide)) fun _ => ?_
    exact steady_bind steady_ident fun name => steady_pure rfl
  case spacing =>
    refine steady_closed (steady_first (steady_words _ _) fun _ => ?_)
    refine steady_bind (steady_mark (by decide)) fun _ => ?_
    exact steady_bind steady_quoted fun spacing => steady_pure rfl
  case raw =>
    refine steady_first (steady_word _) fun _ => ?_
    refine steady_bind steady_quoted fun css => ?_
    exact steady_map steady_optionalSemicolon fun _ => rfl
  case css =>
    refine steady_closed (steady_first (steady_words _ _) fun _ => ?_)
    refine steady_bind steady_quoted fun path => ?_
    have hmedia : Steady rest (Option.map Token.unplaced) (size - 1 - 1) 0 0
        (maybe (do word .media; take .media)) (maybe (do word .media; take .media)) :=
      steady_maybe (steady_bind (steady_word _) fun _ => (steady_take .media).weaken)
    refine steady_bind hmedia fun media => steady_pure ?_
    cases media <;> rfl
  case sql =>
    refine steady_closed (steady_first (steady_word _) fun _ => ?_)
    refine steady_bind (steady_word _).weaken.maybe_same fun sql => ?_
    exact steady_bind steady_quoted fun path => steady_pure rfl

theorem steady_ruleCreations : ∀ p ∈ ruleCreations, SteadyStatement rest size p := by
  simp only [ruleCreations, List.forall_mem_cons, List.not_mem_nil, false_implies, implies_true,
    and_true]
  refine ⟨steady_quotedBlock _ _ _, ?keyframes, steady_quotedBlock _ _ _, ?page, ?counterStyle,
    steady_quotedBlock _ _ _, steady_quotedBlock _ _ _, ?startingStyle⟩
  case keyframes =>
    refine steady_closed (steady_first (steady_words _ _) fun _ => ?_)
    refine steady_bind steady_ident fun name => ?_
    refine steady_bind (steady_mark (by decide)) fun _ => ?_
    refine steady_bind steady_frame.commaList_same fun frames => ?_
    exact steady_bind (steady_mark (by decide)) fun _ => steady_pure rfl
  case page =>
    refine steady_closed (steady_first (steady_words _ _) fun _ => ?_)
    refine steady_bind steady_quoted.weaken.maybe_same fun pseudo => ?_
    exact steady_bind steady_block fun ds => steady_pure rfl
  case counterStyle =>
    refine steady_closed (steady_first (steady_words _ _) fun _ => ?_)
    exact steady_bind steady_ident fun name => steady_bind steady_block fun ds => steady_pure rfl
  case startingStyle =>
    refine steady_closed (steady_first (steady_styleName _ _) fun selector => ?_)
    exact steady_bind steady_block fun ds => steady_pure rfl

theorem steady_ruleRemovals : ∀ p ∈ ruleRemovals, SteadyStatement rest size p := by
  simp only [ruleRemovals, List.forall_mem_cons, List.not_mem_nil, false_implies, implies_true,
    and_true]
  refine ⟨steady_onQuoted _ _ _, steady_onName _ _ _, steady_onQuoted _ _ _, ?page,
    steady_onName _ _ _, steady_onQuoted _ _ _, steady_onQuoted _ _ _, steady_onName _ _ _⟩
  case page =>
    refine steady_closed (steady_first (steady_words _ _) fun _ => ?_)
    exact steady_bind steady_quoted.weaken.maybe_same fun pseudo => steady_pure rfl

theorem steady_queryStatements : ∀ p ∈ queryStatements, SteadyStatement rest size p := by
  simp only [queryStatements, List.forall_mem_cons, List.not_mem_nil, false_implies, implies_true,
    and_true]
  refine ⟨?select, ?describe, steady_onWord _ _, steady_onWord _ _, steady_onWord _ _⟩
  case select =>
    refine steady_first (steady_words _ _) fun _ => ?_
    refine steady_bind steady_filter fun ⟨selector, condition⟩ => ?_
    exact steady_map steady_optionalSemicolon fun _ => rfl
  case describe =>
    refine steady_first (steady_styleName _ _) fun name => ?_
    exact steady_map steady_optionalSemicolon fun _ => rfl

/-- A statement is read the same wherever it stands. It takes a token at least and one semicolon at
most. -/
theorem steady_statement (rest : List Token) :
    Steady rest Draft.unplaced size 1 1 statement statement := by
  refine steady_oneOf_same ?_
  simp only [List.forall_mem_append, and_assoc]
  exact ⟨steady_tokenStatements, steady_selectorStatements, steady_styleStatements,
    steady_settingStatements, steady_ruleCreations, steady_ruleRemovals, steady_queryStatements⟩

end Statements

end Reading

end StyleLedger.Source
