import Mathlib.Data.List.Forall2
import Mathlib.Data.List.TakeWhile
import StyleLedger.Value

/-!
References to tokens in a value, and names in two spellings.

A value is read twice: once for the names of the tokens it refers to, and once to put the custom
properties of these tokens in the places of the references. Both readings go over the same parts of
the value (`Value.references_eq`, `Value.substituteTokens_eq`): a part is a single character, which
is kept, or a reference, and together the parts are the value.

The custom property of a token need not be the token's own: two names have one custom property when
they differ only where neither of them has a letter, a digit or an underscore
(`Value.tokenVariable_eq_iff`). The name of a property is spelled in two ways, with hyphens and with
underscores, and each of them says which names are one (`Value.canonicalName_eq_iff`).

* `Text.Part`, `Text.partition` — the parts of a text in which a shape occurs.
* `Text.Straddles` — a text that cannot be cut, because a piece would be.
* `Value.Reference` — what a reference looks like.
* `Value.partition` — the parts of a value.
* `Value.SpelledAlike` — names that have one custom property.
-/

namespace StyleLedger

/-! ## 1. Parts of a text -/

namespace Text

/-- A part of a text in which a shape occurs: a character outside its pieces, or a piece. -/
inductive Part
  | kept (c : Char)
  | piece (cs : List Char)
deriving Repr, DecidableEq

namespace Part

/-- What a part covers. -/
def source : Part → List Char
  | kept c => [c]
  | piece cs => cs

/-- The piece that a part is. -/
def piece? : Part → Option (List Char)
  | kept _ => none
  | piece cs => some cs

/-- What a part becomes when pieces are replaced. -/
def replaced (replace : List Char → List Char) : Part → List Char
  | kept c => [c]
  | piece cs => replace cs

end Part

/-- The parts of a text; `skip` counts the characters of a piece still to be passed over. -/
def partitionFrom (shape : List Char → Nat) (skip : Nat) : List Char → List Part
  | [] => []
  | c :: cs =>
    match skip with
    | n + 1 => partitionFrom shape n cs
    | 0 =>
      match shape (c :: cs) with
      | 0 => .kept c :: partitionFrom shape 0 cs
      | n + 1 => .piece ((c :: cs).take (n + 1)) :: partitionFrom shape n cs

/-- The parts of a text in which a shape occurs. -/
def partition (shape : List Char → Nat) (cs : List Char) : List Part :=
  partitionFrom shape 0 cs

variable {shape : List Char → Nat}

/-- The rest of a piece is passed over. -/
theorem partitionFrom_eq_drop (skip : Nat) (cs : List Char) :
    partitionFrom shape skip cs = partition shape (cs.drop skip) := by
  induction cs generalizing skip with
  | nil => simp [partition, partitionFrom]
  | cons c cs ih =>
    cases skip with
    | zero => rfl
    | succ n => exact ih n

theorem partition_cons (c : Char) (cs : List Char) : partition shape (c :: cs) =
    match shape (c :: cs) with
    | 0 => .kept c :: partition shape cs
    | n + 1 => .piece ((c :: cs).take (n + 1)) :: partition shape ((c :: cs).drop (n + 1)) := by
  rw [partition, partitionFrom]
  cases shape (c :: cs) with
  | zero => rfl
  | succ n => exact congrArg _ (partitionFrom_eq_drop n cs)

/-- A piece at the front of a text is the first part. -/
theorem partition_piece_append {piece : List Char} (back : List Char)
    (h : shape (piece ++ back) = piece.length) (hne : piece ≠ []) :
    partition shape (piece ++ back) = .piece piece :: partition shape back := by
  cases piece with
  | nil => exact absurd rfl hne
  | cons c piece =>
    rw [List.cons_append, List.length_cons] at h
    rw [List.cons_append, partition_cons, h]
    simp

/-- A shape that occurs in the front of a text or does not, whatever stands behind it. -/
def IsLocal (shape : List Char → Nat) : Prop :=
  ∀ front back, shape (front ++ back) ≤ front.length → shape front = shape (front ++ back)

/-- A piece of a text begins in its front and ends behind it. -/
def Straddles (shape : List Char → Nat) (front back : List Char) : Prop :=
  ∃ parts piece rest, partition shape (front ++ back) = parts ++ .piece piece :: rest ∧
    (parts.flatMap (·.source)).length < front.length ∧
      front.length < (parts.flatMap (·.source)).length + piece.length

/-- Behind its first part, a text has the pieces of what is left. -/
theorem Straddles.of_drop {n : Nat} {front back : List Char} {part : Part}
    (hpart : partition shape (front ++ back) = part :: partition shape (front.drop n ++ back))
    (hlength : part.source.length = n) (hn : n ≤ front.length)
    (h : Straddles shape (front.drop n) back) : Straddles shape front back := by
  obtain ⟨parts, piece, rest, hparts, hbegin, hend⟩ := h
  refine ⟨part :: parts, piece, rest, by rw [hpart, hparts, List.cons_append], ?_, ?_⟩
  all_goals
    rw [List.length_drop] at hbegin hend
    rw [List.flatMap_cons, List.length_append, hlength]
    omega

/-- The parts of a text are those of its front and of what is behind it, if no piece stands in
both. -/
theorem partition_append (hlocal : IsLocal shape) {front back : List Char}
    (hfree : ¬Straddles shape front back) :
    partition shape (front ++ back) = partition shape front ++ partition shape back := by
  induction hlength : front.length using Nat.strong_induction_on generalizing front with
  | _ length ih =>
    cases front with
    | nil => rfl
    | cons c front =>
      -- what is left of the front behind its first part has no piece in common with the back
      have hrest : ∀ {n part}, partition shape (c :: front ++ back) =
            part :: partition shape ((c :: front).drop n ++ back) →
          part.source.length = n → 0 < n → n ≤ (c :: front).length →
          partition shape (c :: front ++ back) =
            part :: partition shape ((c :: front).drop n) ++ partition shape back := by
        intro n part hpart hsource hpos hn
        have hshorter : ((c :: front).drop n).length < length := by
          rw [List.length_drop]
          omega
        rw [hpart, ih _ hshorter (fun h => hfree (h.of_drop hpart hsource hn)) rfl,
          List.cons_append]
      by_cases hshape : shape (c :: front ++ back) ≤ (c :: front).length
      · have hsame := hlocal _ _ hshape
        rw [partition_cons c front, hsame]
        rw [List.cons_append] at hsame hshape ⊢
        cases hn : shape (c :: (front ++ back)) with
        | zero =>
          refine hrest (n := 1) ?_ rfl Nat.one_pos (by simp)
          rw [List.cons_append, partition_cons, hn]
          rfl
        | succ n =>
          rw [hn] at hshape
          have htake : (c :: front ++ back).take (n + 1) = (c :: front).take (n + 1) :=
            List.take_append_of_le_length hshape
          have hdrop : (c :: front ++ back).drop (n + 1) = (c :: front).drop (n + 1) ++ back :=
            List.drop_append_of_le_length hshape
          refine hrest (n := n + 1) ?_ (List.length_take_of_le hshape) n.succ_pos hshape
          rw [← htake, ← hdrop, List.cons_append, partition_cons, hn]
      · cases back with
        | nil => simp [partition, partitionFrom]
        | cons d back =>
          refine absurd ⟨[], (c :: front ++ d :: back).take (shape (c :: front ++ d :: back)),
            partition shape ((c :: front ++ d :: back).drop (shape (c :: front ++ d :: back))),
            ?_, by simp, ?_⟩ hfree
          · rw [List.cons_append, partition_cons]
            cases hn : shape (c :: (front ++ d :: back)) with
            | zero => simp [hn] at hshape
            | succ n => rfl
          · rw [List.length_take, List.length_append, List.length_cons (a := d)]
            simp only [List.flatMap_nil, List.length_nil]
            omega

theorem flatMap_source_partitionFrom (skip : Nat) (cs : List Char) :
    (partitionFrom shape skip cs).flatMap (·.source) = cs.drop skip := by
  induction cs generalizing skip with
  | nil => simp [partitionFrom]
  | cons c cs ih =>
    cases skip with
    | succ n => exact ih n
    | zero =>
      rw [partitionFrom]
      cases shape (c :: cs) with
      | zero => exact congrArg _ (ih 0)
      | succ n => exact (congrArg _ (ih n)).trans (List.take_append_drop (n + 1) (c :: cs))

theorem replaceFrom_eq (replace : List Char → List Char) (skip : Nat) (cs : List Char) :
    replaceFrom shape replace skip cs =
      (partitionFrom shape skip cs).flatMap (·.replaced replace) := by
  induction cs generalizing skip with
  | nil => rfl
  | cons c cs ih =>
    cases skip with
    | succ n => exact ih n
    | zero =>
      rw [replaceFrom, partitionFrom]
      cases shape (c :: cs) with
      | zero => exact congrArg _ (ih 0)
      | succ n => exact congrArg _ (ih n)

theorem piecesFrom_eq (skip : Nat) (cs : List Char) :
    piecesFrom shape skip cs = (partitionFrom shape skip cs).filterMap (·.piece?) := by
  induction cs generalizing skip with
  | nil => rfl
  | cons c cs ih =>
    cases skip with
    | succ n => exact ih n
    | zero =>
      rw [piecesFrom, partitionFrom]
      cases shape (c :: cs) with
      | zero => exact ih 0
      | succ n => exact congrArg _ (ih n)

/-- Every piece stands somewhere at the front of the rest of the text. -/
theorem exists_of_piece_mem {skip : Nat} {cs piece : List Char}
    (h : .piece piece ∈ partitionFrom shape skip cs) :
    ∃ rest, shape rest ≠ 0 ∧ piece = rest.take (shape rest) ∧ rest <:+ cs := by
  induction cs generalizing skip with
  | nil => simp [partitionFrom] at h
  | cons c cs ih =>
    have htail : ∀ {skip}, .piece piece ∈ partitionFrom shape skip cs →
        ∃ rest, shape rest ≠ 0 ∧ piece = rest.take (shape rest) ∧ rest <:+ c :: cs := by
      intro skip h
      obtain ⟨rest, hshape, hpiece, hsuffix⟩ := ih h
      exact ⟨rest, hshape, hpiece, hsuffix.trans (List.suffix_cons c cs)⟩
    cases skip with
    | succ n => exact htail h
    | zero =>
      rw [partitionFrom] at h
      split at h
      · exact htail ((List.mem_cons.1 h).resolve_left (by simp))
      · next n hn =>
        rcases List.mem_cons.1 h with h | h
        · refine ⟨c :: cs, by simp [hn], ?_, List.suffix_rfl⟩
          rw [hn]
          exact Part.piece.inj h
        · exact htail h

end Text

namespace Value

open Text

/-! ## 2. References -/

/-- What a reference looks like: the name of a token between quotes of one kind, with blanks before
the first and after the second of them. -/
structure Reference where
  blanks : List Char
  quote : Char
  name : List Char
  closing : List Char
  isBlank_blanks : ∀ c ∈ blanks, isBlank c = true
  isQuote : quote = '\'' ∨ quote = '"'
  name_ne_nil : name ≠ []
  newline_not_mem : '\n' ∉ name
  isBlank_closing : ∀ c ∈ closing, isBlank c = true

/-- The text of a reference. -/
def Reference.text (r : Reference) : List Char :=
  "token(".toList ++ (r.blanks ++ r.quote :: (r.name ++ r.quote :: (r.closing ++ [')'])))

theorem Reference.text_eq (r : Reference) : r.text = "token(".toList ++
    (r.blanks ++ r.quote :: (r.name ++ r.quote :: (r.closing ++ [')']))) :=
  rfl

variable {quote : Char} {cs body name : List Char} {n : Nat}

theorem closingExtent_append {closing : List Char} (hclosing : ∀ c ∈ closing, isBlank c = true)
    (rest : List Char) :
    closingExtent quote (quote :: (closing ++ ')' :: rest)) = closing.length + 2 := by
  have hblanks : (closing ++ ')' :: rest).takeWhile isBlank = closing := by
    rw [List.takeWhile_append_of_pos hclosing, List.takeWhile_cons_of_neg (by decide),
      List.append_nil]
  simp [closingExtent, hblanks, Nat.add_comm]

/-- The end of a reference is found only where one stands. -/
theorem exists_of_closingExtent (h : closingExtent quote cs ≠ 0) :
    ∃ closing rest, (∀ c ∈ closing, isBlank c = true) ∧
      cs = quote :: (closing ++ ')' :: rest) := by
  simp only [closingExtent, Bool.and_eq_true, beq_iff_eq, ne_eq, ite_eq_right_iff,
    Classical.not_imp] at h
  obtain ⟨⟨hquote, hbracket⟩, -⟩ := h
  obtain ⟨cs, rfl⟩ := List.head?_eq_some_iff.1 hquote
  rw [Nat.add_comm, List.drop_succ_cons, List.drop_succ_cons, List.drop_zero] at hbracket
  obtain ⟨rest, hrest⟩ := List.head?_eq_some_iff.1 hbracket
  refine ⟨cs.takeWhile isBlank, rest, fun c hc => List.mem_takeWhile_imp hc, ?_⟩
  rw [← hrest, List.prefix_iff_eq_append.1 (List.takeWhile_prefix isBlank)]

theorem closingExtent_take (h : closingExtent quote cs ≠ 0) :
    closingExtent quote (cs.take (closingExtent quote cs)) = closingExtent quote cs := by
  obtain ⟨closing, rest, hclosing, rfl⟩ := exists_of_closingExtent h
  have htake : (quote :: (closing ++ ')' :: rest)).take (closing.length + 2) =
      quote :: (closing ++ [')']) := by
    rw [List.take_succ_cons, List.take_length_add_append]
    rfl
  rw [closingExtent_append hclosing, htake, closingExtent_append hclosing]

/-- A name is as long as the first place allows at which the end of a reference stands. -/
theorem nameExtent?_cons (c : Char) (cs : List Char) : nameExtent? quote (c :: cs) = some n ↔
    c ≠ '\n' ∧ (closingExtent quote cs ≠ 0 ∧ n = 1 ∨
      closingExtent quote cs = 0 ∧ ∃ m, nameExtent? quote cs = some m ∧ n = m + 1) := by
  rw [nameExtent?]
  split
  · next hc => simp [hc]
  · next hc =>
    split
    · next hend => simp [hc, hend, eq_comm]
    · next hend =>
      rw [ne_eq, not_not] at hend
      simp [hc, hend, Option.map_eq_some_iff, eq_comm (a := n)]

theorem nameExtent?_eq_some (h : nameExtent? quote body = some n) :
    n ≠ 0 ∧ n ≤ body.length ∧ '\n' ∉ body.take n ∧ closingExtent quote (body.drop n) ≠ 0 ∧
      nameExtent? quote (body.take (n + closingExtent quote (body.drop n))) = some n := by
  induction body generalizing n with
  | nil => simp [nameExtent?] at h
  | cons c cs ih =>
    obtain ⟨hc, ⟨hend, rfl⟩ | ⟨hend, m, hm, rfl⟩⟩ := (nameExtent?_cons c cs).1 h
    · refine ⟨Nat.one_ne_zero, by simp, by simp [Ne.symm hc], hend, ?_⟩
      rw [List.drop_succ_cons, List.drop_zero, Nat.add_comm, List.take_succ_cons, nameExtent?_cons,
        closingExtent_take hend]
      exact ⟨hc, .inl ⟨hend, rfl⟩⟩
    · obtain ⟨-, hlength, hline, hclosing, htake⟩ := ih hm
      refine ⟨m.succ_ne_zero, by simpa using hlength, ?_, hclosing, ?_⟩
      · simp [Ne.symm hc, hline]
      · rw [List.drop_succ_cons, Nat.add_right_comm, List.take_succ_cons, nameExtent?_cons]
        refine ⟨hc, .inr ⟨?_, m, htake, rfl⟩⟩
        -- an end in the part of the text that is left would have been one in the whole
        by_contra hne
        obtain ⟨closing, rest, hblank, hcut⟩ := exists_of_closingExtent hne
        have hwhole := List.take_append_drop (m + closingExtent quote (cs.drop m)) cs
        rw [hcut, List.cons_append, List.append_assoc, List.cons_append] at hwhole
        rw [← hwhole, closingExtent_append hblank] at hend
        simp at hend

/-- The text of a reference up to its name, and what is found behind it. -/
theorem reference?_append {blanks : List Char} (hblanks : ∀ c ∈ blanks, isBlank c = true)
    (hquote : quote = '\'' ∨ quote = '"') (body : List Char) :
    reference? ("token(".toList ++ (blanks ++ quote :: body)) =
      (nameExtent? quote body).map fun n => (body.take n,
        blanks.length + n + closingExtent quote (body.drop n) + 7) := by
  have hfront : ∀ cs, startsWith "token(".toList ("token(".toList ++ cs) = true := by
    intro cs
    exact List.isPrefixOf_iff_prefix.2 (List.prefix_append _ _)
  have htake : (blanks ++ quote :: body).takeWhile isBlank = blanks := by
    have hnot : ¬isBlank quote = true := by rcases hquote with rfl | rfl <;> decide
    rw [List.takeWhile_append_of_pos hblanks, List.takeWhile_cons_of_neg hnot, List.append_nil]
  have hkind : (decide (quote = '\'') || decide (quote = '"')) = true := by simpa using hquote
  rw [reference?, hfront]
  simp only [List.drop_left, htake, hkind, Bool.not_true, Bool.false_eq_true, if_false, if_true]
  congr 1
  funext n
  have hlength : "token(".toList.length = 6 := rfl
  rw [hlength]
  congr 1
  omega

/-- A reference is found only where the text of one begins. -/
theorem exists_of_reference? (h : reference? cs ≠ none) : ∃ blanks quote body,
    (∀ c ∈ blanks, isBlank c = true) ∧ (quote = '\'' ∨ quote = '"') ∧
      cs = "token(".toList ++ (blanks ++ quote :: body) := by
  rw [reference?] at h
  split at h
  · exact absurd rfl h
  · next hfront =>
    rw [Bool.not_eq_true', Bool.not_eq_false] at hfront
    obtain ⟨rest, rfl⟩ := List.isPrefixOf_iff_prefix.1 hfront
    rw [List.drop_left] at h
    dsimp only at h
    split at h
    · next quote body hrest =>
      split at h
      · next hquote =>
        rw [Bool.or_eq_true, decide_eq_true_eq, decide_eq_true_eq] at hquote
        refine ⟨rest.takeWhile isBlank, quote, body, fun c hc => List.mem_takeWhile_imp hc, hquote,
          congrArg _ ?_⟩
        rw [← hrest]
        exact (List.prefix_iff_eq_append.1 (List.takeWhile_prefix isBlank)).symm
      · exact absurd rfl h
    · exact absurd rfl h

theorem exists_of_reference?_eq_some (h : reference? cs = some (name, n)) : ∃ blanks quote body,
    (∀ c ∈ blanks, isBlank c = true) ∧ (quote = '\'' ∨ quote = '"') ∧
      cs = "token(".toList ++ (blanks ++ quote :: body) := by
  refine exists_of_reference? ?_
  rw [h]
  exact Option.some_ne_none _

/-- A reference that is found has the form of one, and is found in its own text alone. -/
theorem reference?_eq_some (h : reference? cs = some (name, n)) :
    (∃ r : Reference, r.name = name ∧ r.text = cs.take n) ∧
      reference? (cs.take n) = some (name, n) := by
  obtain ⟨blanks, quote, body, hblanks, hquote, rfl⟩ := exists_of_reference?_eq_some h
  rw [reference?_append hblanks hquote] at h
  obtain ⟨m, hm, hname⟩ := Option.map_eq_some_iff.1 h
  obtain ⟨rfl, rfl⟩ := Prod.mk.inj hname
  obtain ⟨hpos, hlength, hline, hclosing, htake⟩ := nameExtent?_eq_some hm
  have hcut : ("token(".toList ++ (blanks ++ quote :: body)).take
      (blanks.length + m + closingExtent quote (body.drop m) + 7) =
      "token(".toList ++ (blanks ++
        quote :: body.take (m + closingExtent quote (body.drop m))) := by
    have hsum : blanks.length + m + closingExtent quote (body.drop m) + 7 =
        "token(".toList.length + (blanks.length + (m + closingExtent quote (body.drop m) + 1)) := by
      have : "token(".toList.length = 6 := rfl
      omega
    rw [hsum, List.take_length_add_append, List.take_length_add_append, List.take_succ_cons]
  have hdrop : (body.take (m + closingExtent quote (body.drop m))).drop m =
      (body.drop m).take (closingExtent quote (body.drop m)) := by
    rw [List.drop_take, Nat.add_sub_cancel_left]
  rw [hcut]
  constructor
  · obtain ⟨closing, rest, hblank, hend⟩ := exists_of_closingExtent hclosing
    have hname : body.take m ≠ [] := by
      rw [← List.length_pos_iff, List.length_take]
      omega
    refine ⟨⟨blanks, quote, body.take m, closing, hblanks, hquote, hname, hline, hblank⟩, rfl, ?_⟩
    rw [← List.take_append_drop m (body.take (m + closingExtent quote (body.drop m))), hdrop,
      List.take_take, Nat.min_eq_left (Nat.le_add_right _ _), hend, closingExtent_append hblank,
      List.take_succ_cons, List.take_length_add_append]
    rfl
  · rw [reference?_append hblanks hquote, htake, Option.map_some, hdrop,
      closingExtent_take hclosing, List.take_take, Nat.min_eq_left (Nat.le_add_right _ _)]

theorem closingExtent_append_right (h : closingExtent quote cs ≠ 0) (back : List Char) :
    closingExtent quote (cs ++ back) = closingExtent quote cs := by
  obtain ⟨closing, rest, hclosing, rfl⟩ := exists_of_closingExtent h
  rw [List.cons_append, List.append_assoc, List.cons_append, closingExtent_append hclosing,
    closingExtent_append hclosing]

/-- A name that is found in a text is found when the text goes on. -/
theorem nameExtent?_append_right (hquote : quote = '\'' ∨ quote = '"')
    (h : nameExtent? quote body = some n) (back : List Char) :
    nameExtent? quote (body ++ back) = some n := by
  induction body generalizing n with
  | nil => simp [nameExtent?] at h
  | cons c cs ih =>
    obtain ⟨hc, ⟨hend, rfl⟩ | ⟨hend, m, hm, rfl⟩⟩ := (nameExtent?_cons c cs).1 h
    · rw [List.cons_append, nameExtent?_cons, closingExtent_append_right hend]
      exact ⟨hc, .inl ⟨hend, rfl⟩⟩
    · rw [List.cons_append, nameExtent?_cons]
      refine ⟨hc, .inr ⟨?_, m, ih hm, rfl⟩⟩
      -- an end that begins in the text goes on in it up to the bracket that is there anyway
      by_contra hne
      obtain ⟨closing, rest, hblank, hcut⟩ := exists_of_closingExtent hne
      have hbracket : ')' ∈ cs := by
        obtain ⟨-, -, -, hlater, -⟩ := nameExtent?_eq_some hm
        obtain ⟨_, _, -, hdrop⟩ := exists_of_closingExtent hlater
        have hmem : ')' ∈ cs.drop m := by simp [hdrop]
        exact List.mem_of_mem_drop hmem
      have hstart : cs <+: quote :: closing ∨ quote :: (closing ++ [')']) <+: cs := by
        have hwhole : quote :: closing ++ [')'] <+: cs ++ back := ⟨rest, by simp [hcut]⟩
        rcases List.prefix_or_prefix_of_prefix (List.prefix_append cs back) hwhole with hcs | hcs
        · rcases List.prefix_concat_iff.1 hcs with rfl | hcs
          · exact .inr List.prefix_rfl
          · exact .inl hcs
        · exact .inr hcs
      rcases hstart with hcs | ⟨rest, rfl⟩
      · rcases List.mem_cons.1 (hcs.subset hbracket) with rfl | hmem
        · simp at hquote
        · exact absurd (hblank _ hmem) (by decide)
      · rw [List.cons_append, List.append_assoc, List.singleton_append,
          closingExtent_append hblank] at hend
        simp at hend

theorem reference?_append_right (h : reference? cs = some (name, n)) (back : List Char) :
    reference? (cs ++ back) = some (name, n) := by
  obtain ⟨blanks, quote, body, hblanks, hquote, rfl⟩ := exists_of_reference?_eq_some h
  rw [reference?_append hblanks hquote] at h
  obtain ⟨m, hm, hname⟩ := Option.map_eq_some_iff.1 h
  obtain ⟨-, hlength, -, hclosing, -⟩ := nameExtent?_eq_some hm
  rw [List.append_assoc, List.append_assoc, List.cons_append, reference?_append hblanks hquote,
    nameExtent?_append_right hquote hm, Option.map_some, List.take_append_of_le_length hlength,
    List.drop_append_of_le_length hlength, closingExtent_append_right hclosing, hname]

/-- Whether a text begins with a reference does not depend on what comes after the reference. -/
theorem isLocal_referenceExtent : IsLocal referenceExtent := by
  intro front back hextent
  cases hr : reference? (front ++ back) with
  | none =>
    have hnone : reference? front = none := by
      by_contra hne
      obtain ⟨found, hfound⟩ := Option.ne_none_iff_exists'.1 hne
      rw [reference?_append_right hfound back] at hr
      cases hr
    rw [referenceExtent, referenceExtent, hr, hnone]
  | some found =>
    obtain ⟨name, n⟩ := found
    have hn : n ≤ front.length := by simpa [referenceExtent, hr] using hextent
    obtain ⟨-, hown⟩ := reference?_eq_some hr
    rw [List.take_append_of_le_length hn] at hown
    have hfront := reference?_append_right hown (front.drop n)
    rw [List.take_append_drop] at hfront
    rw [referenceExtent, referenceExtent, hr, hfront]

/-- A name without the quote ends where the quote stands. -/
theorem nameExtent?_append {closing : List Char} (hname : name ≠ []) (hline : '\n' ∉ name)
    (hquote : quote ∉ name) (hclosing : ∀ c ∈ closing, isBlank c = true) (rest : List Char) :
    nameExtent? quote (name ++ quote :: (closing ++ ')' :: rest)) = some name.length := by
  induction name with
  | nil => exact absurd rfl hname
  | cons c name ih =>
    obtain ⟨hc, hline⟩ := not_or.1 (List.mem_cons.not.1 hline)
    obtain ⟨-, hquote⟩ := not_or.1 (List.mem_cons.not.1 hquote)
    rw [List.cons_append, nameExtent?_cons]
    refine ⟨Ne.symm hc, ?_⟩
    cases name with
    | nil => exact .inl ⟨by rw [List.nil_append, closingExtent_append hclosing]; simp, rfl⟩
    | cons d name =>
      refine .inr ⟨?_, _, ih (List.cons_ne_nil d name) hline hquote, rfl⟩
      by_contra hend
      obtain ⟨_, _, -, heq⟩ := exists_of_closingExtent hend
      exact hquote ((List.cons.inj heq).1 ▸ List.mem_cons_self)

/-- A reference whose name does not hold its quote is found wherever its text stands. -/
theorem reference?_text (r : Reference) (hplain : r.quote ∉ r.name) (rest : List Char) :
    reference? (r.text ++ rest) = some (r.name, r.text.length) := by
  have htext : r.text ++ rest = "token(".toList ++ (r.blanks ++
      r.quote :: (r.name ++ r.quote :: (r.closing ++ ')' :: rest))) := by
    simp [Reference.text_eq]
  have hlength : r.text.length = r.blanks.length + r.name.length + r.closing.length + 9 := by
    simp [Reference.text_eq]
    omega
  rw [htext, reference?_append r.isBlank_blanks r.isQuote, nameExtent?_append r.name_ne_nil
    r.newline_not_mem hplain r.isBlank_closing, Option.map_some, List.take_left, List.drop_left,
    closingExtent_append r.isBlank_closing, hlength]
  rfl

/-! ## 3. Parts of a value -/

/-- The parts of a value: characters that are kept, and references. -/
def partition (value : String) : List Part :=
  Text.partition referenceExtent value.toList

/-- What is put in the place of a reference. -/
def variableCall (tokenPrefix : String) (piece : List Char) : List Char :=
  ("var(" ++ tokenVariable tokenPrefix (referencedName piece) ++ ")").toList

/-- The parts of a value together are the value. -/
theorem flatMap_source (value : String) : (partition value).flatMap (·.source) = value.toList :=
  flatMap_source_partitionFrom 0 value.toList

/-- The custom property of a token is put in the place of every reference, and all that stands
between references is kept. -/
theorem substituteTokens_eq (tokenPrefix value : String) :
    substituteTokens tokenPrefix value =
      String.ofList ((partition value).flatMap (·.replaced (variableCall tokenPrefix))) :=
  congrArg _ (replaceFrom_eq (variableCall tokenPrefix) 0 value.toList)

/-- The names that a value is found to refer to are those of its references. -/
theorem references_eq (value : String) :
    references value = ((partition value).filterMap (·.piece?)).map referencedName :=
  congrArg _ (piecesFrom_eq 0 value.toList)

theorem mem_references_of_piece_mem {value : String} {piece : List Char}
    (h : .piece piece ∈ partition value) : referencedName piece ∈ references value := by
  rw [references_eq]
  exact List.mem_map_of_mem (List.mem_filterMap.2 ⟨_, h, rfl⟩)

/-- Every piece of a value is a reference, and is found to be one in its own text alone. -/
theorem exists_reference_of_piece_mem {value : String} {piece : List Char}
    (h : .piece piece ∈ partition value) :
    ∃ (r : Reference) (n : Nat), r.text = piece ∧ reference? piece = some (r.name, n) := by
  obtain ⟨rest, hshape, rfl, -⟩ := exists_of_piece_mem h
  cases hr : reference? rest with
  | none => simp [referenceExtent, hr] at hshape
  | some found =>
    obtain ⟨name, n⟩ := found
    obtain ⟨⟨r, rfl, htext⟩, hown⟩ := reference?_eq_some hr
    have hextent : referenceExtent rest = n := by simp [referenceExtent, hr]
    rw [hextent]
    exact ⟨r, n, htext, hown⟩

/-- No reference begins in a text without the word that opens one, whatever begins behind it. -/
theorem reference?_eq_none {front : List Char} (hfront : ¬"token(".toList <:+: front)
    (hne : front ≠ []) (rest : List Char) :
    reference? (front ++ ("token(".toList ++ rest)) = none := by
  by_contra hr
  obtain ⟨blanks, quote, body, -, -, heq⟩ := exists_of_reference? hr
  have hopening : "token(".toList <+: front ++ ("token(".toList ++ rest) :=
    ⟨blanks ++ quote :: body, heq.symm⟩
  rcases List.prefix_or_prefix_of_prefix hopening (List.prefix_append _ _) with hin | ⟨back, hback⟩
  · exact hfront hin.isInfix
  · -- the word would begin in the text and end behind it, but its first letter does not come again
    have hbehind : back <+: 't' :: ("oken(".toList ++ rest) := by
      rw [← hback, List.prefix_append_right_inj] at hopening
      rw [hback] at hopening
      exact hopening
    cases back with
    | nil => exact hfront ⟨[], [], by rw [← hback]; simp⟩
    | cons c back =>
      obtain ⟨rfl, -⟩ := List.cons_prefix_cons.1 hbehind
      cases front with
      | nil => exact hne rfl
      | cons d front =>
        have hrest : front ++ 't' :: back = "oken(".toList := (List.cons.inj hback).2
        have hmem : 't' ∈ "oken(".toList := hrest ▸ List.mem_append_right front List.mem_cons_self
        exact absurd hmem (by decide)

/-- A reference begins in the front of a value and ends behind it. -/
def Overlaps (front back : String) : Prop :=
  Straddles referenceExtent front.toList back.toList

/-- No reference goes over into another one from a text without the word that opens a reference. -/
theorem not_overlaps {front : String} (hfront : ¬"token(".toList <:+: front.toList) (r : Reference)
    (back : String) : ¬Overlaps front (String.ofList r.text ++ back) := by
  rintro ⟨parts, piece, rest, hparts, hbegin, -⟩
  have hvalue : partition (front ++ (String.ofList r.text ++ back)) =
      parts ++ .piece piece :: rest := by
    rw [← hparts, partition, String.toList_append]
  have hmem : .piece piece ∈ partition (front ++ (String.ofList r.text ++ back)) := by simp [hvalue]
  obtain ⟨found, n, -, hfound⟩ := exists_reference_of_piece_mem hmem
  have hdrop : front.toList.drop (parts.flatMap (·.source)).length ++
      (String.ofList r.text ++ back).toList = piece ++ rest.flatMap (·.source) := by
    have hsource := flatMap_source (front ++ (String.ofList r.text ++ back))
    rw [hvalue, List.flatMap_append, List.flatMap_cons, String.toList_append] at hsource
    rw [← List.drop_append_of_le_length hbegin.le, ← hsource, List.drop_left]
    rfl
  have hnone : reference? (front.toList.drop (parts.flatMap (·.source)).length ++
      (String.ofList r.text ++ back).toList) = none := by
    rw [String.toList_append, String.toList_ofList, Reference.text_eq, List.append_assoc]
    exact reference?_eq_none (fun hin => hfront (hin.trans (List.drop_suffix _ _).isInfix))
      (by simpa using hbegin) _
  rw [hdrop, reference?_append_right hfound] at hnone
  cases hnone

/-- The parts of a value may be replaced on their own where no reference is cut. -/
theorem substituteTokens_append {front back : String} (hfree : ¬Overlaps front back)
    (tokenPrefix : String) : substituteTokens tokenPrefix (front ++ back) =
      substituteTokens tokenPrefix front ++ substituteTokens tokenPrefix back := by
  simp only [substituteTokens_eq, partition, String.toList_append]
  rw [Text.partition_append isLocal_referenceExtent hfree, List.flatMap_append,
    String.ofList_append]

/-- In the place of a reference stands the custom property of the token that it names. -/
theorem substituteTokens_text_append {r : Reference} (hplain : r.quote ∉ r.name)
    (tokenPrefix back : String) :
    substituteTokens tokenPrefix (String.ofList r.text ++ back) =
      "var(" ++ tokenVariable tokenPrefix (String.ofList r.name) ++ ")" ++
        substituteTokens tokenPrefix back := by
  have hextent : referenceExtent (r.text ++ back.toList) = r.text.length := by
    rw [referenceExtent, reference?_text r hplain]
    rfl
  have hname : referencedName r.text = String.ofList r.name := by
    have hr := reference?_text r hplain []
    rw [List.append_nil] at hr
    rw [referencedName, hr]
    rfl
  rw [substituteTokens_eq, partition, String.toList_append, String.toList_ofList,
    partition_piece_append _ hextent (by simp [Reference.text_eq]), List.flatMap_cons,
    Part.replaced, variableCall, hname, substituteTokens_eq, String.ofList_append,
    String.ofList_toList]
  rfl

/-! ## 4. Custom properties -/

/-- A character that stands as a hyphen in the name of a custom property. -/
def isHyphenated (c : Char) : Bool := c == '-' || !isNameChar c

/-- Names that differ only where both have characters that stand as hyphens. -/
def SpelledAlike (a b : String) : Prop :=
  List.Forall₂ (fun c d => c = d ∨ isHyphenated c ∧ isHyphenated d) a.toList b.toList

instance (a b : String) : Decidable (SpelledAlike a b) :=
  inferInstanceAs (Decidable (List.Forall₂ _ _ _))

theorem SpelledAlike.refl (a : String) : SpelledAlike a a :=
  List.forall₂_same.2 fun _ _ => .inl rfl

/-- Two tokens have one custom property exactly when their names are spelled alike. -/
theorem tokenVariable_eq_iff {tokenPrefix a b : String} :
    tokenVariable tokenPrefix a = tokenVariable tokenPrefix b ↔ SpelledAlike a b := by
  have hchar : ∀ c d, ((if isNameChar c then c else '-') = if isNameChar d then d else '-') ↔
      (c = d ∨ isHyphenated c ∧ isHyphenated d) := by
    intro c d
    have hhyphen : isNameChar '-' = true := by decide
    by_cases hc : isNameChar c = true
    · by_cases hd : isNameChar d = true
      · simp only [hc, hd, if_true, isHyphenated, Bool.not_true, Bool.or_false, beq_iff_eq]
        exact ⟨.inl, fun h => h.elim (fun h => h) fun ⟨hc, hd⟩ => hc.trans hd.symm⟩
      · have hne : c ≠ d := fun h => hd (h ▸ hc)
        simp [hc, hd, isHyphenated, hne]
    · by_cases hd : isNameChar d = true
      · have hne : c ≠ d := fun h => hc (h ▸ hd)
        simpa [hc, hd, isHyphenated, hne] using eq_comm
      · simp [hc, hd, isHyphenated]
  rw [tokenVariable, tokenVariable, String.append_right_inj, String.ofList_inj,
    ← List.forall₂_eq_eq_eq, List.forall₂_map_left_iff, List.forall₂_map_right_iff]
  simp only [hchar]
  rfl

/-- Names that a custom property can take over as they are, are spelled alike only if they are the
same. -/
theorem eq_of_spelledAlike {a b : String} (ha : ∀ c ∈ a.toList, isNameChar c = true)
    (hb : ∀ c ∈ b.toList, isNameChar c = true) (h : SpelledAlike a b) : a = b := by
  have hself : ∀ s : String, (∀ c ∈ s.toList, isNameChar c = true) →
      (s.toList.map fun c => if isNameChar c then c else '-') = s.toList := fun s hs =>
    (List.map_congr_left fun c hc => if_pos (hs c hc)).trans (List.map_id' _)
  have heq : tokenVariable "" a = tokenVariable "" b := tokenVariable_eq_iff.2 h
  rw [tokenVariable, tokenVariable, hself a ha, hself b hb, String.append_right_inj,
    String.ofList_inj] at heq
  exact String.toList_injective heq

/-- The name of a custom property has only characters that such a name can hold, if the prefix
has. -/
theorem isNameChar_of_mem_tokenVariable {tokenPrefix : String}
    (hchars : ∀ c ∈ tokenPrefix.toList, isNameChar c = true) (name : String) :
    ∀ c ∈ (tokenVariable tokenPrefix name).toList, isNameChar c = true := by
  intro c hc
  rw [tokenVariable, String.toList_append, String.toList_append] at hc
  rcases List.mem_append.1 hc with hc | hc
  · rcases List.mem_append.1 hc with hc | hc
    · rw [List.eq_of_mem_replicate (show c ∈ List.replicate 2 '-' from hc)]
      decide
    · exact hchars c hc
  · rw [String.toList_ofList] at hc
    obtain ⟨d, -, rfl⟩ := List.mem_map.1 hc
    split
    · next hd => exact hd
    · decide

end Value

/-! ## 5. Spellings of a name -/

namespace Value

/-- Both spellings of a name have the same underscores. -/
theorem canonicalName_cssName (name : String) :
    canonicalName (cssName name) = canonicalName name := by
  simp only [canonicalName, cssName, Text.replaceChar, String.toList_ofList, List.map_map]
  congr 1
  refine List.map_congr_left fun c _ => ?_
  by_cases hc : c = '_'
  · simp [hc]
  · simp [hc]

theorem cssName_canonicalName (name : String) : cssName (canonicalName name) = cssName name := by
  simp only [canonicalName, cssName, Text.replaceChar, String.toList_ofList, List.map_map]
  congr 1
  refine List.map_congr_left fun c _ => ?_
  by_cases hc : c = '-'
  · simp [hc]
  · simp [hc]

theorem cssName_cssName (name : String) : cssName (cssName name) = cssName name := by
  rw [← cssName_canonicalName (cssName name), canonicalName_cssName, cssName_canonicalName]

/-- Two names are one name with hyphens when they are one name with underscores. -/
theorem canonicalName_eq_iff {m n : String} :
    canonicalName m = canonicalName n ↔ cssName m = cssName n := by
  constructor
  · intro h
    rw [← cssName_canonicalName, h, cssName_canonicalName]
  · intro h
    rw [← canonicalName_cssName, h, canonicalName_cssName]

end Value

end StyleLedger
