import StyleLedger.Proofs.Source.Appended
import StyleLedger.Proofs.Source.Caseless
import StyleLedger.Proofs.Source.Evaluation
import StyleLedger.Proofs.Source.Placed

/-!
The letter case of words does not matter.

A text whose reserved words and function names are written in other letters, capitals for small ones
or the other way round, is cut at the same places (`Placed.recased`): letter case is not seen when a
text is cut. Its tokens differ from those of the first text in the letters of such words only, and
readers that go through both lists side by side go the same way (`Agree`): a word is known by its
kind, and where its characters are looked at, for the name of a function or the kind of a join, they
are raised first.

* `parse_recased` — the changed text has the same statements.
-/

namespace StyleLedger.Source

open Text Outcome

/-! ## 1. Tokens in other letters -/

/-- The tokens whose letter case does not matter: reserved words, and functions with their
brackets. -/
def Terminal.isWorded : Terminal → Bool
  | .word _ | .function => true
  | _ => false

namespace Token

/-- A token stands over a character of a text that begins at a place. -/
def Covers (t : Token) (here : Position) (cs : List Char) (n : Nat) : Prop :=
  ∃ m ≤ n, n < m + t.text.toList.length ∧ t.position = here.advance (cs.take m)

instance (t : Token) (here : Position) (cs : List Char) (n : Nat) :
    Decidable (t.Covers here cs n) :=
  inferInstanceAs (Decidable (∃ m ≤ n, _))

/-- Two tokens are the same but for the letter case of a word. -/
structure Alike (t u : Token) : Prop where
  kind : u.kind = t.kind
  position : u.position = t.position
  letters : u.text.toList.map asciiLower = t.text.toList.map asciiLower
  text : t.kind.isWorded = false → u.text = t.text

end Token

/-- A text is another one in which some letters of reserved words and of function names are written
in the other case. The tokens are those of the other text, which begins at a place. -/
@[mk_iff]
structure Recased (tokens : List Token) (here : Position) (source other : List Char) : Prop where
  letters : other.map asciiLower = source.map asciiLower
  elsewhere : ∀ n < source.length, source[n]? ≠ other[n]? →
    ∃ t ∈ tokens, t.kind.isWorded = true ∧ t.Covers here source n

instance (tokens : List Token) (here : Position) (source other : List Char) :
    Decidable (Recased tokens here source other) :=
  decidable_of_iff _ (recased_iff tokens here source other).symm

/-! ## 2. Cutting -/

theorem Position.caseless_advance (p : Position) : Caseless p.advance := by
  intro cs
  induction cs generalizing p with
  | nil => rfl
  | cons c cs ih =>
    have hnext : p.next (asciiLower c) = p.next c := by
      simp only [Position.next, asciiLower_eq_iff (q := '\n') (by decide)]
    show (p.next (asciiLower c)).advance (cs.map asciiLower) = (p.next c).advance cs
    rw [hnext, ih]

namespace Placed

variable {machine : List Stack} {here : Position} {cs ds : List Char} {ts : List Token}

/-- A token that is cut out of the rest of a text stands where it stands in the text. -/
theorem covers_drop {n k : Nat} (hn : n ≤ cs.length)
    (h : Placed machine (here.advance (cs.take n)) (cs.drop n) ts) {t : Token} (ht : t ∈ ts)
    (hk : k < cs.length) (hcovers : t.Covers here cs k) :
    n ≤ k ∧ t.Covers (here.advance (cs.take n)) (cs.drop n) (k - n) := by
  obtain ⟨m, hmk, hkm, hposition⟩ := hcovers
  obtain ⟨j, hj, hrest⟩ := h.exists_take t ht
  rw [List.length_drop] at hj
  have hsame : m = n + j := by
    have hplaces : here.advance (cs.take m) = here.advance (cs.take (n + j)) := by
      rw [← hposition, hrest, List.take_add, Position.advance_append]
    exact Position.advance_take_inj (by omega) (by omega) hplaces
  exact ⟨by omega, j, by omega, by omega, hrest⟩

/-- The token in front covers the characters that are taken for it, and no others. -/
theorem lt_of_covers_front {u : Token} {n k : Nat} (hn : n ≤ cs.length)
    (htext : u.text = String.ofList (cs.take n)) (hposition : u.position = here)
    (hk : k < cs.length) (hcovers : u.Covers here cs k) : k < n := by
  obtain ⟨m, hmk, hkm, hm⟩ := hcovers
  rw [htext, String.toList_ofList, List.length_take, Nat.min_eq_left hn] at hkm
  have hplaces : here.advance (cs.take m) = here.advance (cs.take 0) := by
    rw [← hm, hposition]
    rfl
  obtain rfl : m = 0 := Position.advance_take_inj (by omega) (Nat.zero_le _) hplaces
  omega

/-- The rest of a text in other letters, after a part that no later token covers. -/
theorem recased_drop {all : List Token} {n : Nat} (hn : n ≤ cs.length)
    (h : Placed machine (here.advance (cs.take n)) (cs.drop n) ts)
    (hall : ∀ t ∈ all, t ∈ ts ∨ ∀ k < cs.length, t.Covers here cs k → k < n)
    (hsame : Recased all here cs ds) :
    Recased ts (here.advance (cs.take n)) (cs.drop n) (ds.drop n) where
  letters := by simp only [List.map_drop, hsame.letters]
  elsewhere := by
    intro k hk hdiffers
    rw [List.length_drop] at hk
    rw [List.getElem?_drop, List.getElem?_drop] at hdiffers
    obtain ⟨t, ht, hworded, hcovers⟩ := hsame.elsewhere (n + k) (by omega) hdiffers
    rcases hall t ht with ht | hfront
    · have hrest := (h.covers_drop hn ht (by omega) hcovers).2
      exact ⟨t, ht, hworded, by rwa [Nat.add_sub_cancel_left] at hrest⟩
    · exact absurd (hfront (n + k) (by omega) hcovers) (by omega)

/-- A text in other letters is cut at the same places, into tokens in other letters. -/
theorem recased (h : Placed machine here cs ts) (hsame : Recased ts here cs ds) :
    ∃ us, Placed machine here ds us ∧ List.Forall₂ Token.Alike ts us := by
  have hthere : ∀ {here : Position} {cs ds : List Char} (n : Nat),
      ds.map asciiLower = cs.map asciiLower →
        here.advance (ds.take n) = here.advance (cs.take n) := by
    intro here cs ds n hletters
    exact (Position.caseless_advance here).eq (by simp only [List.map_take, hletters])
  induction h generalizing ds with
  | done hfinished =>
    obtain rfl : ds = [] := by simpa using hsame.letters
    exact ⟨[], .done hfinished, .nil⟩
  | @pass machine here cs l n ts hfirst hl hrest ih =>
    have hle := (Lexeme.extent_of_first? hfirst).2
    obtain ⟨us, hus, halike⟩ := ih (recased_drop hle hrest (fun t ht => .inl ht) hsame)
    refine ⟨us, .pass (l := l) (n := n) ?_ hl (hthere n hsame.letters ▸ hus), halike⟩
    rw [(Lexeme.caseless_first? _).eq hsame.letters, hfirst]
  | @token machine here cs u n ts hfirst htext hposition hrest ih =>
    obtain ⟨hn, hle⟩ := Lexeme.extent_of_first? hfirst
    have hfront : ∀ k < cs.length, u.Covers here cs k → k < n := fun k hk =>
      lt_of_covers_front hle htext hposition hk
    have hall : ∀ t ∈ u :: ts, t ∈ ts ∨ ∀ k < cs.length, t.Covers here cs k → k < n := by
      intro t ht
      rcases List.mem_cons.1 ht with rfl | ht
      · exact .inr hfront
      · exact .inl ht
    obtain ⟨us, hus, halike⟩ := ih (recased_drop hle hrest hall hsame)
    have hlength : ds.length = cs.length := by
      simpa using congrArg List.length hsame.letters
    -- a token that is no word is not covered by another one either
    have htake : u.kind.isWorded = false → ds.take n = cs.take n := by
      intro hplain
      refine List.ext_getElem? fun k => ?_
      rw [List.getElem?_take, List.getElem?_take]
      split
      · next hk =>
        by_contra hdiffers
        obtain ⟨t, ht, hworded, hcovers⟩ :=
          hsame.elsewhere k (by omega) (fun heq => hdiffers heq.symm)
        rcases List.mem_cons.1 ht with rfl | ht
        · simp [hplain] at hworded
        · have := (hrest.covers_drop hle ht (by omega) hcovers).1
          omega
      · rfl
    have hnonempty : String.ofList (ds.take n) ≠ "" := by
      intro hempty
      have := congrArg (fun s => s.toList.length) hempty
      simp only [String.toList_ofList, List.length_take] at this
      have hzero : "".toList.length = 0 := rfl
      omega
    refine ⟨⟨u.kind, String.ofList (ds.take n), here, hnonempty⟩ :: us, ?_, ?_⟩
    · refine .token (n := n) ?_ rfl rfl (hthere n hsame.letters ▸ hus)
      rw [(Lexeme.caseless_first? _).eq hsame.letters, hfirst]
    · refine .cons ⟨rfl, hposition.symm, ?_, ?_⟩ halike
      · simp only [htext, String.toList_ofList, List.map_take, hsame.letters]
      · intro hplain
        exact (congrArg String.ofList (htake hplain)).trans htext.symm

end Placed

/-! ## 3. Reading -/

namespace Reading

section Ways

variable {α β : Type} {S : α → α → Prop} {T : β → β → Prop}

/-- Two readers go the same way on tokens that are alike: both fail, or they leave tokens that are
alike and their results are related. -/
def Agree (S : α → α → Prop) (r r' : Reading α) : Prop :=
  ∀ ts us, List.Forall₂ Token.Alike ts us →
    Option.Rel (fun x y => S x.1 y.1 ∧ List.Forall₂ Token.Alike x.2 y.2) (r ts) (r' us)

/-- A reader gives the same on tokens that are alike. -/
abbrev IsCaseless (r : Reading α) : Prop :=
  Agree Eq r r

theorem Agree.imp {S' : α → α → Prop} {r r' : Reading α} (h : Agree S r r')
    (himp : ∀ a b, S a b → S' a b) : Agree S' r r' := by
  intro ts us halike
  have hparts := h ts us halike
  revert hparts
  generalize r ts = found
  generalize r' us = found'
  intro hparts
  cases hparts with
  | none => exact .none
  | some hboth => exact .some ⟨himp _ _ hboth.1, hboth.2⟩

theorem agree_pure {a b : α} (h : S a b) : Agree S (pure a) (pure b) :=
  fun _ _ halike => .some ⟨h, halike⟩

theorem agree_bind {r r' : Reading α} {f f' : α → Reading β} (h : Agree S r r')
    (hf : ∀ a b, S a b → Agree T (f a) (f' b)) : Agree T (r >>= f) (r' >>= f') := by
  intro ts us halike
  show Option.Rel _ ((r ts).bind fun p => f p.1 p.2) ((r' us).bind fun p => f' p.1 p.2)
  have hparts := h ts us halike
  cases hfirst : r ts with
  | none =>
    rw [hfirst] at hparts
    cases hfirst' : r' us with
    | none => exact .none
    | some found' => rw [hfirst'] at hparts; nomatch hparts
  | some found =>
    rw [hfirst] at hparts
    cases hfirst' : r' us with
    | none => rw [hfirst'] at hparts; nomatch hparts
    | some found' =>
      rw [hfirst'] at hparts
      obtain ⟨⟨hab, hleft⟩⟩ := hparts
      exact hf _ _ hab _ _ hleft

/-- A part that gives the same. -/
theorem agree_after {r : Reading α} {f : α → Reading β} (h : IsCaseless r)
    (hf : ∀ a, Agree T (f a) (f a)) : Agree T (r >>= f) (r >>= f) :=
  agree_bind h fun a _ hab => hab ▸ hf a

theorem agree_failure : Agree S (failure : Reading α) failure :=
  fun _ _ _ => .none

theorem agree_orElse {r r' s s' : Reading α} (hr : Agree S r r') (hs : Agree S s s') :
    Agree S (r <|> s) (r' <|> s') := by
  intro ts us halike
  show Option.Rel _ (r ts <|> s ts) (r' us <|> s' us)
  have hparts := hr ts us halike
  cases hfirst : r ts with
  | none =>
    rw [hfirst] at hparts
    cases hfirst' : r' us with
    | none => exact hs ts us halike
    | some found' => rw [hfirst'] at hparts; nomatch hparts
  | some found =>
    rw [hfirst] at hparts
    cases hfirst' : r' us with
    | none => rw [hfirst'] at hparts; nomatch hparts
    | some found' =>
      rw [hfirst'] at hparts
      exact hparts

theorem caseless_oneOf {readers : List (Reading α)} (h : ∀ r ∈ readers, IsCaseless r) :
    IsCaseless (oneOf readers) := by
  induction readers with
  | nil => exact agree_failure
  | cons r readers ih =>
    exact agree_orElse (h r List.mem_cons_self) (ih fun s hs => h s (List.mem_cons_of_mem r hs))

theorem caseless_maybe {r : Reading α} (h : IsCaseless r) : IsCaseless (maybe r) :=
  agree_orElse (agree_after h fun _ => agree_pure rfl) (agree_pure rfl)

theorem caseless_manyWithin {r : Reading α} (h : IsCaseless r) : ∀ n, IsCaseless (manyWithin r n)
  | 0 => agree_pure rfl
  | n + 1 =>
    agree_orElse (agree_after h fun _ => agree_after (caseless_manyWithin h n) fun _ =>
      agree_pure rfl) (agree_pure rfl)

theorem caseless_many {r : Reading α} (h : IsCaseless r) : IsCaseless (many r) := by
  intro ts us halike
  show Option.Rel _ (manyWithin r ts.length ts) (manyWithin r us.length us)
  rw [← halike.length_eq]
  exact caseless_manyWithin h ts.length ts us halike

/-- A token that is taken is alike; the same kind is looked for. -/
theorem agree_take (kind : Terminal) :
    Agree (fun t u => t.kind = kind ∧ t.Alike u) (take kind) (take kind) := by
  intro ts us halike
  cases halike with
  | nil => exact .none
  | @cons t u ts us htu halike =>
    simp only [take, htu.kind]
    split
    · next hkind => exact .some ⟨⟨hkind, htu⟩, halike⟩
    · exact .none

end Ways

section Parts

theorem caseless_word (k : Keyword) : IsCaseless (word k) :=
  agree_bind (agree_take _) fun _ _ _ => agree_pure rfl

theorem caseless_words (ks : List Keyword) : IsCaseless (words ks) := by
  induction ks with
  | nil => exact agree_pure rfl
  | cons k ks ih => exact agree_after (caseless_word k) fun _ => ih

theorem caseless_mark (c : Char) : IsCaseless (mark c) :=
  agree_bind (agree_take _) fun _ _ _ => agree_pure rfl

/-- The characters of a token that is no word. -/
theorem caseless_text {α : Type} (kind : Terminal) (h : kind.isWorded = false) (f : String → α) :
    IsCaseless (do return f (← take kind).text) := by
  refine agree_bind (agree_take _) fun t u htu => agree_pure ?_
  obtain ⟨hkind, halike⟩ := htu
  rw [halike.text (hkind ▸ h)]

theorem caseless_ident : IsCaseless ident :=
  caseless_text .ident rfl id

theorem caseless_value : IsCaseless value :=
  caseless_text .value rfl id

theorem caseless_quoted : IsCaseless quoted :=
  caseless_text .quoted rfl unquote

theorem caseless_group : IsCaseless group :=
  caseless_text .group rfl id

theorem caseless_name : IsCaseless name :=
  agree_orElse caseless_quoted caseless_ident

theorem caseless_commaList {α : Type} {r : Reading α} (h : IsCaseless r) :
    IsCaseless (commaList r) :=
  agree_after h fun _ =>
    agree_after (caseless_many (agree_after (caseless_mark _) fun _ => h)) fun _ => agree_pure rfl

theorem caseless_declarations : IsCaseless declarations :=
  caseless_commaList <| agree_after caseless_ident fun _ => agree_after (caseless_mark _) fun _ =>
    agree_after caseless_value fun _ => agree_pure rfl

theorem caseless_block : IsCaseless block :=
  agree_after (caseless_mark _) fun _ => agree_after (caseless_maybe caseless_declarations) fun _ =>
    agree_after (caseless_mark _) fun _ => agree_pure rfl

theorem upper_eq_of_letters {s s' : String}
    (h : s'.toList.map asciiLower = s.toList.map asciiLower) : upper s' = upper s := by
  have hcaseless : Caseless fun cs => cs.map upperChar := by
    intro cs
    have hupper : upperChar ∘ asciiLower = upperChar := funext upperChar_asciiLower
    show (cs.map asciiLower).map upperChar = _
    rw [List.map_map, hupper]
  rw [upper, upper, hcaseless.eq h]

/-- The name of a function is raised before it is looked at. -/
theorem functionName_eq_of_letters {s s' : String}
    (h : s'.toList.map asciiLower = s.toList.map asciiLower) :
    functionName s' = functionName s := by
  have htrim : ∀ cs : List Char, trimEnd (cs.map asciiLower) = (trimEnd cs).map asciiLower := by
    intro cs
    rw [trimEnd, dropEndWhile, ← List.map_reverse, dropWhile_lowered isBlank_asciiLower,
      ← List.map_reverse]
    rfl
  refine upper_eq_of_letters ?_
  rw [String.toList_ofList, String.toList_ofList, ← htrim, ← htrim, List.map_dropLast,
    List.map_dropLast, h]

theorem caseless_joinWord : IsCaseless joinWord := by
  have hall : ∀ kinds : List Terminal,
      Agree Token.Alike (oneOf (kinds.map take)) (oneOf (kinds.map take)) := by
    intro kinds
    induction kinds with
    | nil => exact agree_failure
    | cons kind kinds ih =>
      exact agree_orElse ((agree_take kind).imp fun _ _ htu => htu.2) ih
  refine agree_bind (hall ([.and, .desc, .child, .adj, .sib].map .word)) fun t u htu => ?_
  exact agree_pure (upper_eq_of_letters htu.letters).symm

theorem caseless_termWithin : ∀ n, IsCaseless (termWithin n)
  | 0 => agree_failure
  | n + 1 => by
    have ih : IsCaseless (termWithin n) := caseless_termWithin n
    refine caseless_oneOf ?_
    simp only [List.forall_mem_cons, List.not_mem_nil, false_implies, implies_true, and_true]
    refine ⟨?function, ?join, ?name⟩
    case function =>
      refine agree_bind (agree_take _) fun t u htu => ?_
      rw [functionName_eq_of_letters htu.2.letters, htu.2.position]
      refine agree_after (caseless_maybe (caseless_commaList ?_)) fun _ =>
        agree_after (caseless_mark _) fun _ => agree_pure rfl
      exact agree_orElse (agree_after caseless_quoted fun _ => agree_pure rfl) ih
    case join =>
      exact agree_after (caseless_word _) fun _ => agree_after caseless_joinWord fun _ =>
        agree_after ih fun _ => agree_after (caseless_word _) fun _ => agree_after ih fun _ =>
          agree_pure rfl
    case name => exact agree_after caseless_ident fun _ => agree_pure rfl

theorem caseless_term : IsCaseless term := by
  intro ts us halike
  show Option.Rel _ (termWithin (ts.length + 1) ts) (termWithin (us.length + 1) us)
  rw [← halike.length_eq]
  exact caseless_termWithin _ ts us halike

theorem caseless_comparison : IsCaseless comparison := by
  refine agree_bind (agree_take _) fun t u htu => ?_
  rw [htu.2.text (by rw [htu.1]; rfl)]
  exact agree_after caseless_value fun _ => agree_pure rfl

theorem caseless_containerTest (name : String) : IsCaseless (containerTest name) := by
  refine agree_orElse ?_ ?_
  · exact agree_after (caseless_word _) fun _ => agree_after caseless_group fun _ => agree_pure rfl
  · exact agree_after (caseless_maybe (caseless_word _)) fun _ =>
      agree_after caseless_comparison fun _ => agree_pure rfl

theorem caseless_atom : IsCaseless atom := by
  refine caseless_oneOf ?_
  simp only [List.forall_mem_cons, List.not_mem_nil, false_implies, implies_true, and_true]
  refine ⟨?between, ?width, ?container, ?supports, ?feature⟩
  case between =>
    exact agree_after (caseless_words _) fun _ => agree_after caseless_value fun _ =>
      agree_after (caseless_word _) fun _ => agree_after caseless_value fun _ => agree_pure rfl
  case width =>
    exact agree_after (caseless_word _) fun _ => agree_after caseless_comparison fun _ =>
      agree_pure rfl
  case container =>
    exact agree_after (caseless_word _) fun _ => agree_after caseless_ident fun name =>
      caseless_containerTest name
  case supports =>
    exact agree_after (caseless_word _) fun _ => agree_after caseless_group fun _ => agree_pure rfl
  case feature =>
    exact agree_after caseless_ident fun _ => agree_after (caseless_mark _) fun _ =>
      agree_after caseless_value fun _ => agree_pure rfl

/-- Parts with a word between them. -/
theorem caseless_joined {part : Reading Condition} (h : IsCaseless part) (k : Keyword)
    (combine : Condition → Condition → Condition) :
    IsCaseless (do
      let first ← part
      let more ← many (do word k; part)
      return more.foldl combine first) :=
  agree_after h fun _ =>
    agree_after (caseless_many (agree_after (caseless_word k) fun _ => h)) fun _ => agree_pure rfl

theorem caseless_conditionWithin : ∀ n, IsCaseless (conditionWithin n)
  | 0 => agree_failure
  | n + 1 => by
    refine caseless_joined (caseless_joined (agree_orElse ?_ ?_) .and conjoin) .or disjoin
    · exact agree_after caseless_atom fun _ => agree_pure rfl
    · exact agree_after (caseless_mark _) fun _ => agree_after (caseless_conditionWithin n) fun _ =>
        agree_after (caseless_mark _) fun _ => agree_pure rfl

theorem caseless_condition : IsCaseless condition := by
  intro ts us halike
  show Option.Rel _ (conditionWithin (ts.length + 1) ts) (conditionWithin (us.length + 1) us)
  rw [← halike.length_eq]
  exact caseless_conditionWithin _ ts us halike

theorem caseless_conditionClause : IsCaseless conditionClause :=
  caseless_maybe (agree_after (caseless_word _) fun _ => caseless_condition)

theorem caseless_filter : IsCaseless filter :=
  agree_after (caseless_words _) fun _ => agree_after (caseless_mark _) fun _ =>
    agree_after caseless_ident fun _ =>
      agree_after (caseless_maybe (agree_after (caseless_word _) fun _ => caseless_condition))
        fun _ => agree_pure rfl

theorem caseless_scope : IsCaseless scope := by
  refine agree_after (caseless_maybe ?_) fun _ => agree_pure rfl
  exact agree_after (caseless_words _) fun _ => agree_after caseless_ident fun _ =>
    agree_after (caseless_maybe (agree_after (caseless_word _) fun _ => caseless_ident)) fun _ =>
      agree_pure rfl

theorem caseless_styleName (opening : List Keyword) : IsCaseless (styleName opening) :=
  agree_after (caseless_words _) fun _ => caseless_ident

theorem caseless_action : IsCaseless action :=
  agree_orElse (agree_after (caseless_word _) fun _ => agree_pure rfl)
    (agree_after (caseless_word _) fun _ => agree_pure rfl)

theorem caseless_frame : IsCaseless frame := by
  refine agree_after (caseless_oneOf ?_) fun _ => agree_after caseless_block fun _ => agree_pure rfl
  simp only [List.forall_mem_cons, List.not_mem_nil, false_implies, implies_true, and_true]
  refine ⟨caseless_quoted, caseless_text .percentage rfl id, ?_, ?_⟩
  · exact agree_after (caseless_word _) fun _ => agree_pure rfl
  · exact agree_after (caseless_word _) fun _ => agree_pure rfl

theorem caseless_propertyFilter : IsCaseless (maybe (do
    words [.and, .prop]
    mark '='
    name)) :=
  caseless_maybe <| agree_after (caseless_words _) fun _ => agree_after (caseless_mark _) fun _ =>
    caseless_name

/-- The media query of an import has the same characters. -/
theorem agree_mediaClause : Agree (fun m m' => m.map Token.text = m'.map Token.text)
    (maybe (do word .media; take .media)) (maybe (do word .media; take .media)) := by
  refine agree_orElse (agree_bind ?_ fun t u htu => agree_pure htu) (agree_pure rfl)
  refine agree_after (caseless_word _) fun _ => (agree_take _).imp fun t u htu => ?_
  obtain ⟨hkind, halike⟩ := htu
  exact congrArg some (halike.text (by rw [hkind]; rfl)).symm

theorem mediaText_eq_of_map {m m' : Option Token} (h : m.map Token.text = m'.map Token.text) :
    (m.bind fun t => nonEmpty? (trimmed t.text)) = m'.bind fun t => nonEmpty? (trimmed t.text) := by
  have hbind : ∀ m : Option Token, (m.bind fun t => nonEmpty? (trimmed t.text)) =
      (m.map Token.text).bind fun s => nonEmpty? (trimmed s) := by
    intro m
    cases m <;> rfl
  rw [hbind, hbind, h]

theorem caseless_optionalSemicolon : IsCaseless optionalSemicolon :=
  agree_after (caseless_maybe (caseless_mark _)) fun _ => agree_pure rfl

theorem caseless_closed {r : Reading Statement} (h : IsCaseless r) : IsCaseless (closed r) :=
  agree_after h fun _ => agree_after (caseless_mark _) fun _ => agree_pure rfl

/-- A statement on a quoted name. -/
theorem caseless_onQuoted (ks : List Keyword) (f : String → Statement) :
    IsCaseless (closed do words ks; return f (← quoted)) :=
  caseless_closed <| agree_after (caseless_words _) fun _ => agree_after caseless_quoted fun _ =>
    agree_pure rfl

/-- A statement on a bare name. -/
theorem caseless_onName (ks : List Keyword) (f : String → Statement) :
    IsCaseless (closed do return f (← styleName ks)) :=
  caseless_closed <| agree_after (caseless_styleName _) fun _ => agree_pure rfl

/-- A block for a quoted name. -/
theorem caseless_quotedBlock (ks : List Keyword) (f : String → List Declaration → Statement) :
    IsCaseless (closed do words ks; return f (← quoted) (← block)) :=
  caseless_closed <| agree_after (caseless_words _) fun _ => agree_after caseless_quoted fun _ =>
    agree_after caseless_block fun _ => agree_pure rfl

/-- A statement of one word. -/
theorem caseless_onWord (k : Keyword) (s : Statement) :
    IsCaseless (closed do word k; return s) :=
  caseless_closed <| agree_after (caseless_word k) fun _ => agree_pure rfl

theorem caseless_tokenStatements : ∀ r ∈ tokenStatements, IsCaseless r := by
  simp only [tokenStatements, List.forall_mem_cons, List.not_mem_nil, false_implies, implies_true,
    and_true]
  refine ⟨?create, caseless_onQuoted _ _, ?delete, ?insert, ?update⟩
  case create =>
    refine caseless_closed (agree_after (caseless_words _) fun _ => ?_)
    exact agree_after caseless_quoted fun _ => agree_after (caseless_word _) fun _ =>
      agree_after caseless_value fun _ => agree_pure rfl
  case delete =>
    refine caseless_closed (agree_after (caseless_words _) fun _ => ?_)
    exact agree_after (caseless_mark _) fun _ => agree_after caseless_quoted fun _ =>
      agree_pure rfl
  case insert =>
    refine caseless_closed (agree_after (caseless_words _) fun _ => ?_)
    iterate 3
      refine agree_after (caseless_mark _) fun _ => agree_after (caseless_word _) fun _ => ?_
    refine agree_after (caseless_mark _) fun _ => agree_after caseless_quoted fun _ => ?_
    refine agree_after (caseless_mark _) fun _ => agree_after caseless_value fun _ => ?_
    exact agree_after (caseless_mark _) fun _ => agree_pure rfl
  case update =>
    refine caseless_closed (agree_after (caseless_words _) fun _ => ?_)
    refine agree_after (caseless_mark _) fun _ => agree_after caseless_value fun _ => ?_
    refine agree_after (caseless_words _) fun _ => agree_after (caseless_mark _) fun _ => ?_
    exact agree_after caseless_quoted fun _ => agree_pure rfl

theorem caseless_selectorStatements : ∀ r ∈ selectorStatements, IsCaseless r := by
  simp only [selectorStatements, List.forall_mem_cons, List.not_mem_nil, false_implies,
    implies_true, and_true]
  refine ⟨?create, caseless_onName _ _⟩
  case create =>
    refine agree_after (caseless_words _) fun _ => agree_after caseless_ident fun _ => ?_
    refine agree_after (caseless_word _) fun _ => agree_after caseless_term fun _ => ?_
    exact agree_after (caseless_mark _) fun _ => agree_pure rfl

theorem caseless_styleStatements : ∀ r ∈ styleStatements, IsCaseless r := by
  simp only [styleStatements, List.forall_mem_cons, List.not_mem_nil, false_implies, implies_true,
    and_true]
  refine ⟨?create, ?alter, ?delete, caseless_onName _ _, ?insert, ?update⟩
  case create =>
    refine caseless_closed (agree_after (caseless_styleName _) fun _ => ?_)
    refine agree_after caseless_scope fun _ => agree_after caseless_block fun _ => ?_
    exact agree_after caseless_conditionClause fun _ => agree_pure rfl
  case alter =>
    refine caseless_closed (agree_after (caseless_styleName _) fun _ => ?_)
    refine agree_after caseless_scope fun _ => agree_after caseless_conditionClause fun _ => ?_
    exact agree_after caseless_action fun _ => agree_after caseless_declarations fun _ =>
      agree_pure rfl
  case delete =>
    refine caseless_closed (agree_after (caseless_words _) fun _ => ?_)
    refine agree_after (caseless_mark _) fun _ => agree_after caseless_ident fun _ => ?_
    exact agree_after caseless_propertyFilter fun _ => agree_pure rfl
  case insert =>
    refine caseless_closed (agree_after (caseless_words _) fun _ => ?_)
    iterate 4
      refine agree_after (caseless_mark _) fun _ => agree_after (caseless_word _) fun _ => ?_
    refine agree_after (caseless_mark _) fun _ => agree_after caseless_ident fun _ => ?_
    refine agree_after (caseless_mark _) fun _ => agree_after caseless_name fun _ => ?_
    refine agree_after (caseless_mark _) fun _ => agree_after caseless_value fun _ => ?_
    exact agree_after (caseless_mark _) fun _ => agree_pure rfl
  case update =>
    refine caseless_closed (agree_after (caseless_words _) fun _ => ?_)
    exact agree_after caseless_declarations fun _ => agree_after caseless_filter fun _ =>
      agree_pure rfl

theorem caseless_settingStatements : ∀ r ∈ settingStatements, IsCaseless r := by
  simp only [settingStatements, List.forall_mem_cons, List.not_mem_nil, false_implies, implies_true,
    and_true]
  refine ⟨?layers, ?layer, ?spacing, ?raw, ?css, ?sql⟩
  case layers =>
    refine caseless_closed (agree_after (caseless_words _) fun _ => ?_)
    refine agree_after (caseless_mark _) fun _ => ?_
    exact agree_after (caseless_commaList caseless_ident) fun _ =>
      agree_after (caseless_mark _) fun _ => agree_pure rfl
  case layer =>
    refine caseless_closed (agree_after (caseless_words _) fun _ => ?_)
    exact agree_after (caseless_mark _) fun _ => agree_after caseless_ident fun _ => agree_pure rfl
  case spacing =>
    refine caseless_closed (agree_after (caseless_words _) fun _ => ?_)
    exact agree_after (caseless_mark _) fun _ => agree_after caseless_quoted fun _ => agree_pure rfl
  case raw =>
    exact agree_after (caseless_word _) fun _ => agree_after caseless_quoted fun _ =>
      agree_after caseless_optionalSemicolon fun _ => agree_pure rfl
  case css =>
    refine caseless_closed (agree_after (caseless_words _) fun _ => ?_)
    refine agree_after caseless_quoted fun path => agree_bind agree_mediaClause fun _ _ hsame => ?_
    exact agree_pure (congrArg (Statement.imports .css path) (mediaText_eq_of_map hsame))
  case sql =>
    refine caseless_closed (agree_after (caseless_word _) fun _ => ?_)
    exact agree_after (caseless_maybe (caseless_word _)) fun _ =>
      agree_after caseless_quoted fun _ => agree_pure rfl

theorem caseless_ruleCreations : ∀ r ∈ ruleCreations, IsCaseless r := by
  simp only [ruleCreations, List.forall_mem_cons, List.not_mem_nil, false_implies, implies_true,
    and_true]
  refine ⟨caseless_quotedBlock _ _, ?keyframes, caseless_quotedBlock _ _, ?page, ?counterStyle,
    caseless_quotedBlock _ _, caseless_quotedBlock _ _, ?startingStyle⟩
  case keyframes =>
    refine caseless_closed (agree_after (caseless_words _) fun _ => ?_)
    refine agree_after caseless_ident fun _ => agree_after (caseless_mark _) fun _ => ?_
    exact agree_after (caseless_commaList caseless_frame) fun _ =>
      agree_after (caseless_mark _) fun _ => agree_pure rfl
  case page =>
    refine caseless_closed (agree_after (caseless_words _) fun _ => ?_)
    exact agree_after (caseless_maybe caseless_quoted) fun _ => agree_after caseless_block fun _ =>
      agree_pure rfl
  case counterStyle =>
    refine caseless_closed (agree_after (caseless_words _) fun _ => ?_)
    exact agree_after caseless_ident fun _ => agree_after caseless_block fun _ => agree_pure rfl
  case startingStyle =>
    refine caseless_closed (agree_after (caseless_styleName _) fun _ => ?_)
    exact agree_after caseless_block fun _ => agree_pure rfl

theorem caseless_ruleRemovals : ∀ r ∈ ruleRemovals, IsCaseless r := by
  simp only [ruleRemovals, List.forall_mem_cons, List.not_mem_nil, false_implies, implies_true,
    and_true]
  refine ⟨caseless_onQuoted _ _, caseless_onName _ _, caseless_onQuoted _ _, ?page,
    caseless_onName _ _, caseless_onQuoted _ _, caseless_onQuoted _ _, caseless_onName _ _⟩
  case page =>
    refine caseless_closed (agree_after (caseless_words _) fun _ => ?_)
    exact agree_after (caseless_maybe caseless_quoted) fun _ => agree_pure rfl

theorem caseless_queryStatements : ∀ r ∈ queryStatements, IsCaseless r := by
  simp only [queryStatements, List.forall_mem_cons, List.not_mem_nil, false_implies, implies_true,
    and_true]
  refine ⟨?select, ?describe, caseless_onWord _ _, caseless_onWord _ _, caseless_onWord _ _⟩
  case select =>
    refine agree_after (caseless_words _) fun _ => agree_after caseless_filter fun _ => ?_
    exact agree_after caseless_optionalSemicolon fun _ => agree_pure rfl
  case describe =>
    refine agree_after (caseless_styleName _) fun _ => ?_
    exact agree_after caseless_optionalSemicolon fun _ => agree_pure rfl

/-- Statements are read the same in other letters. -/
theorem caseless_statement : IsCaseless statement := by
  refine caseless_oneOf ?_
  simp only [List.forall_mem_append, and_assoc]
  exact ⟨caseless_tokenStatements, caseless_selectorStatements, caseless_styleStatements,
    caseless_settingStatements, caseless_ruleCreations, caseless_ruleRemovals,
    caseless_queryStatements⟩

end Parts

end Reading

/-! ## 4. Statements -/

open Reading in
/-- Tokens that are alike have the same statements, or are refused alike. -/
theorem statementsOf_eq_of_alike {ts us : List Token} (h : List.Forall₂ Token.Alike ts us) :
    statementsOf us = statementsOf ts := by
  have hprogram : program us = program ts := by
    have hmany := caseless_many caseless_statement ts us h
    simp only [program]
    revert hmany
    generalize many statement ts = found
    generalize many statement us = found'
    intro hmany
    cases hmany with
    | none => rfl
    | @some x y hboth =>
      obtain ⟨ds, left⟩ := x
      obtain ⟨ds', left'⟩ := y
      obtain ⟨rfl, hleft⟩ := hboth
      cases hleft with
      | nil => rfl
      | cons => rfl
  have hplace : (us.head?.map (·.position)).getD {} = (ts.head?.map (·.position)).getD {} := by
    cases h with
    | nil => rfl
    | cons htu _ => exact htu.position
  rw [statementsOf, statementsOf, hprogram, hplace]

theorem semicolons_eq_of_alike {ts us : List Token} (h : List.Forall₂ Token.Alike ts us) :
    semicolons us = semicolons ts := by
  induction h with
  | nil => rfl
  | cons htu _ ih => rw [Reading.semicolons_cons, Reading.semicolons_cons, htu.kind, ih]

/-- A text in which letters of reserved words and of function names are written in the other case
has the same statements. -/
theorem parse_recased {source other : String} {tokens : List Token} (strict : Bool)
    (h : tokenize source = .ok tokens) (hsame : Recased tokens {} source.toList other.toList) :
    parse other strict = parse source strict := by
  obtain ⟨us, hus, halike⟩ := (placed_of_scan h).recased hsame
  have hother : tokenize other = .ok us := hus.scan_eq {}
  simp only [parse, h, hother, Except.mapError]
  show (statementsOf us >>= _) = (statementsOf tokens >>= _)
  rw [statementsOf_eq_of_alike halike, semicolons_eq_of_alike halike]

/-- A join, a function with a blank before its bracket, and a quoted text that keeps its letters. -/
theorem parse_recased_join :
    ∃ tokens ss, tokenize "CREATE SELECTOR X AS JOIN DESC ID ('A') ON y;" = .ok tokens ∧
      Recased tokens {} "CREATE SELECTOR X AS JOIN DESC ID ('A') ON y;".toList
        "Create selector X as join Desc iD ('A') oN y;".toList ∧
      parse "CREATE SELECTOR X AS JOIN DESC ID ('A') ON y;" false = .ok ss ∧ ss.length = 1 ∧
      parse "Create selector X as join Desc iD ('A') oN y;" false =
        parse "CREATE SELECTOR X AS JOIN DESC ID ('A') ON y;" false := by
  obtain ⟨tokens, htokens, hsame⟩ := exists_ok_of_any
    (p := fun tokens => decide (Recased tokens {}
      "CREATE SELECTOR X AS JOIN DESC ID ('A') ON y;".toList
      "Create selector X as join Desc iD ('A') oN y;".toList))
    (x := tokenize "CREATE SELECTOR X AS JOIN DESC ID ('A') ON y;")
    (by
      rw [tokenize_ofList]
      decide +kernel)
  obtain ⟨ss, hss, hlength⟩ := exists_ok_of_any (p := fun ss => ss.length == 1)
    (x := parse "CREATE SELECTOR X AS JOIN DESC ID ('A') ON y;" false)
    (by
      rw [parse_ofList]
      decide +kernel)
  have hsame := of_decide_eq_true hsame
  exact ⟨tokens, ss, htokens, hsame, hss, by simpa using hlength, parse_recased false htokens hsame⟩

end StyleLedger.Source
