import StyleLedger.Proofs.Source.Cuts
import Mathlib.Data.Bool.AllAny

/-!
Where lexemes end.

How far a lexeme reaches is settled by its own characters and by what comes right after them
(`Lexeme.Ends`): a name is not followed by a character of a name, a value neither by a piece nor by a
further word. What has an end of its own is followed by anything.

* `Lexeme.ends_of_extent` — where a lexeme ends, what comes after it ends it.
* `Lexeme.extent_exchange` — whatever comes after a lexeme, if only it ends it, may be exchanged for
  anything else that does.
-/

namespace StyleLedger.Source

open Text

variable {x r r' : List Char}

/-! ## 1. Runs and pieces -/

theorem takeWhile_append_of_head {f : Char → Bool} (hx : ∀ c ∈ x, f c = true)
    (hr : ∀ c ∈ r.head?, f c = false) : (x ++ r).takeWhile f = x := by
  rw [List.takeWhile_append_of_pos hx]
  cases r with
  | nil => simp
  | cons c r => simp [hr c rfl]

/-- A run that reaches as far as a text holds all of it, and stops there. -/
theorem takeWhile_eq_of_length {f : Char → Bool}
    (h : ((x ++ r).takeWhile f).length = x.length) :
    (∀ c ∈ x, f c = true) ∧ ∀ c ∈ r.head?, f c = false := by
  have hx : (x ++ r).takeWhile f = x := by
    have hprefix : (x ++ r).takeWhile f <+: x ++ r := List.takeWhile_prefix f
    exact (List.prefix_of_prefix_length_le hprefix (List.prefix_append x r) h.le).eq_of_length h
  have hall : ∀ c ∈ x, f c = true := fun c hc => List.mem_takeWhile_imp (hx ▸ hc)
  refine ⟨hall, fun c hc => ?_⟩
  rw [List.takeWhile_append_of_pos hall, List.append_right_eq_self] at hx
  cases r with
  | nil => simp at hc
  | cons d r =>
    obtain rfl : d = c := by simpa using hc
    by_contra hd
    simp [hd] at hx

theorem quotedRest_pos {quote : Char} {cs : List Char} {n : Nat}
    (h : quotedRest quote cs = some n) : 0 < n := by
  match cs with
  | [] => simp [quotedRest] at h
  | [c] =>
    simp only [quotedRest] at h
    split_ifs at h
    exact Option.some.inj h ▸ Nat.one_pos
  | c :: d :: cs =>
    simp only [quotedRest] at h
    split_ifs at h
    · exact Option.some.inj h ▸ Nat.one_pos
    · obtain ⟨m, -, rfl⟩ := Option.map_eq_some_iff.1 h
      exact Nat.succ_pos _
    · obtain ⟨m, -, rfl⟩ := Option.map_eq_some_iff.1 h
      exact Nat.succ_pos _

theorem quotedRest_shrink {quote : Char} : ∀ {x : List Char} {n : Nat}, n ≤ x.length →
    quotedRest quote (x ++ r) = some n → quotedRest quote x = some n
  | [], n, hn, h => absurd (quotedRest_pos h) (Nat.not_lt.2 hn)
  | [c], n, hn, h => by
    cases r with
    | nil => exact h
    | cons d r =>
      simp only [List.cons_append, List.nil_append, quotedRest] at h ⊢
      split_ifs at h ⊢ with hc
      · exact h
      · obtain ⟨m, -, rfl⟩ := Option.map_eq_some_iff.1 h
        simp at hn
      · obtain ⟨m, hm, rfl⟩ := Option.map_eq_some_iff.1 h
        have := quotedRest_pos hm
        simp only [List.length_singleton] at hn
        omega
  | c :: d :: x, n, hn, h => by
    simp only [List.cons_append, quotedRest] at h ⊢
    split_ifs at h ⊢
    · exact h
    · obtain ⟨m, hm, rfl⟩ := Option.map_eq_some_iff.1 h
      rw [quotedRest_shrink (by simpa using hn) hm]
      rfl
    · obtain ⟨m, hm, rfl⟩ := Option.map_eq_some_iff.1 h
      rw [quotedRest_shrink (x := d :: x) (by simpa using hn) hm]
      rfl

theorem groupRest_pos {cs : List Char} {depth n : Nat} (h : groupRest depth cs = some n) :
    0 < n := by
  cases cs with
  | nil => simp [groupRest] at h
  | cons c cs =>
    have hmap : ∀ {found : Option Nat}, found.map (· + 1) = some n → 0 < n := by
      intro found hfound
      obtain ⟨m, -, rfl⟩ := Option.map_eq_some_iff.1 hfound
      exact Nat.succ_pos _
    simp only [groupRest] at h
    split_ifs at h
    · exact hmap h
    · exact Option.some.inj h ▸ Nat.one_pos
    · exact hmap h
    · exact hmap h

theorem groupRest_shrink : ∀ {x : List Char} {depth n : Nat}, n ≤ x.length →
    groupRest depth (x ++ r) = some n → groupRest depth x = some n
  | [], depth, n, hn, h => absurd (groupRest_pos h) (Nat.not_lt.2 hn)
  | c :: x, depth, n, hn, h => by
    have hmap : ∀ {inner : Nat}, (groupRest inner (x ++ r)).map (· + 1) = some n →
        (groupRest inner x).map (· + 1) = some n := by
      intro inner hinner
      obtain ⟨m, hm, rfl⟩ := Option.map_eq_some_iff.1 hinner
      rw [groupRest_shrink (by simpa using hn) hm]
      rfl
    simp only [List.cons_append, groupRest] at h ⊢
    split_ifs at h ⊢
    · exact hmap h
    · exact h
    · exact hmap h
    · exact hmap h

theorem blockCommentRest_ge {cs : List Char} {n : Nat} (h : blockCommentRest cs = some n) :
    2 ≤ n := by
  induction cs using blockCommentRest.induct generalizing n with
  | case1 | case2 => simp [blockCommentRest] at h
  | case3 c d cs hend =>
    rw [blockCommentRest, if_pos hend] at h
    exact (Option.some.inj h).le
  | case4 c d cs hend ih =>
    rw [blockCommentRest, if_neg hend] at h
    obtain ⟨m, hm, rfl⟩ := Option.map_eq_some_iff.1 h
    exact Nat.le_succ_of_le (ih hm)

theorem blockCommentRest_shrink : ∀ {x : List Char} {n : Nat}, n ≤ x.length →
    blockCommentRest (x ++ r) = some n → blockCommentRest x = some n
  | [], n, hn, h => absurd (blockCommentRest_ge h) (by simp only [List.length_nil] at hn; omega)
  | [c], n, hn, h =>
    absurd (blockCommentRest_ge h) (by simp only [List.length_singleton] at hn; omega)
  | c :: d :: x, n, hn, h => by
    simp only [List.cons_append, blockCommentRest] at h ⊢
    split_ifs at h ⊢
    · exact h
    · obtain ⟨m, hm, rfl⟩ := Option.map_eq_some_iff.1 h
      rw [blockCommentRest_shrink (x := d :: x) (by simpa using hn) hm]
      rfl

theorem quotedExtent_shrink (hx : x ≠ []) (h : quotedExtent (x ++ r) = x.length) :
    quotedExtent x = x.length := by
  cases x with
  | nil => exact absurd rfl hx
  | cons c x =>
    simp only [List.cons_append, quotedExtent, List.length_cons] at h ⊢
    split_ifs at h ⊢
    · cases hrest : quotedRest c (x ++ r) with
      | none => simp [hrest] at h
      | some n =>
        obtain rfl : n = x.length := by simpa [hrest] using h
        rw [quotedRest_shrink (Nat.le_refl _) hrest]
        rfl

theorem groupExtent_shrink (hx : x ≠ []) (h : groupExtent (x ++ r) = x.length) :
    groupExtent x = x.length := by
  cases x with
  | nil => exact absurd rfl hx
  | cons c x =>
    simp only [List.cons_append, groupExtent, List.length_cons] at h ⊢
    split_ifs at h ⊢
    · cases hrest : groupRest 1 (x ++ r) with
      | none => simp [hrest] at h
      | some n =>
        obtain rfl : n = x.length := by simpa [hrest] using h
        rw [groupRest_shrink (Nat.le_refl _) hrest]
        rfl

theorem blockCommentExtent_shrink (hx : x ≠ []) (h : blockCommentExtent (x ++ r) = x.length) :
    blockCommentExtent x = x.length := by
  have hne : blockCommentExtent (x ++ r) ≠ 0 := h ▸ mt List.length_eq_zero_iff.1 hx
  obtain ⟨ds, hds⟩ := exists_of_blockCommentExtent hne
  rw [hds] at h hne
  simp only [blockCommentExtent] at h hne
  cases hrest : blockCommentRest ds with
  | none => simp [hrest] at hne
  | some n =>
    have hlength : n + 2 = x.length := by simpa [hrest] using h
    rcases x with _ | ⟨c, _ | ⟨d, x⟩⟩
    · exact absurd rfl hx
    · simp at hlength
    · simp only [List.cons_append, List.cons.injEq] at hds
      obtain ⟨rfl, rfl, rfl⟩ := hds
      obtain rfl : n = x.length := by simpa using hlength
      simp [blockCommentExtent, blockCommentRest_shrink (Nat.le_refl _) hrest]

/-- A piece is whole wherever it stands. -/
theorem pieceExtent_exchange (hx : x ≠ []) (h : pieceExtent (x ++ r) = x.length) :
    pieceExtent (x ++ r') = x.length := by
  cases x with
  | nil => exact absurd rfl hx
  | cons c x =>
    have hquoted : quotedExtent (c :: x ++ r) = (c :: x).length →
        quotedExtent (c :: x ++ r') = (c :: x).length := by
      intro h
      have hown := quotedExtent_shrink hx h
      rw [(quotedExtent_append (by simp [hown])).2, hown]
    have hgroup : groupExtent (c :: x ++ r) = (c :: x).length →
        groupExtent (c :: x ++ r') = (c :: x).length := by
      intro h
      have hown := groupExtent_shrink hx h
      rw [(groupExtent_append (by simp [hown])).2, hown]
    simp only [List.cons_append, pieceExtent] at h hquoted hgroup ⊢
    split_ifs at h ⊢
    · exact hquoted h
    · exact hgroup h
    · exact h

/-- Pieces that cover a text cover it whatever comes after it, if no further piece begins there. A
piece may ask for a further one, or for the end of the text, where it ends. -/
theorem covered_exchange {shape : List Char → Nat} (hle : ∀ s, shape s ≤ s.length)
    (hstep : ∀ y z, y ≠ [] → (z ≠ [] → shape (z ++ r) ≠ 0) → shape (y ++ (z ++ r)) = y.length →
      shape (y ++ (z ++ r')) = y.length)
    (hstop : shape r' = 0) : ∀ {x : List Char}, covered shape (x ++ r) = x.length →
      covered shape (x ++ r') = x.length := by
  intro x h
  by_cases hx : x = []
  · subst hx
    exact covered_of_eq_zero hstop
  · have hpos : 0 < x.length := List.length_pos_iff.2 hx
    have hne : shape (x ++ r) ≠ 0 := by
      intro hzero
      rw [covered_of_eq_zero hzero] at h
      omega
    rw [covered_of_ne_zero hle hne] at h
    obtain ⟨y, z, rfl, hy⟩ : ∃ y z, x = y ++ z ∧ y.length = shape (x ++ r) := by
      refine ⟨x.take (shape (x ++ r)), x.drop (shape (x ++ r)),
        (List.take_append_drop _ x).symm, ?_⟩
      rw [List.length_take]
      omega
    have hdrop : (y ++ z ++ r).drop (shape (y ++ z ++ r)) = z ++ r := by
      rw [← hy, List.append_assoc, List.drop_left]
    rw [hdrop, ← hy, List.length_append] at h
    have hz : covered shape (z ++ r) = z.length := by omega
    have hynil : y ≠ [] := by
      rintro rfl
      exact hne hy.symm
    have hlater : z ≠ [] → shape (z ++ r) ≠ 0 := by
      intro hz' hzero
      rw [covered_of_eq_zero hzero] at hz
      exact hz' (List.length_eq_zero_iff.1 hz.symm)
    have hfirst : shape (y ++ (z ++ r')) = y.length := by
      refine hstep y z hynil hlater ?_
      rw [← List.append_assoc]
      exact hy.symm
    have hshorter : z.length < (y ++ z).length := by
      have := List.length_pos_iff.2 hynil
      rw [List.length_append]
      omega
    have hrest : covered shape (z ++ r') = z.length := covered_exchange hle hstep hstop hz
    have hne' : shape (y ++ (z ++ r')) ≠ 0 := by
      rw [hfirst]
      exact mt List.length_eq_zero_iff.1 hynil
    rw [List.append_assoc, covered_of_ne_zero hle hne', hfirst, List.drop_left, hrest,
      List.length_append]
termination_by x => x.length

theorem wordExtent_exchange (hstop : pieceExtent r' = 0) (h : wordExtent (x ++ r) = x.length) :
    wordExtent (x ++ r') = x.length :=
  covered_exchange pieceExtent_le_length (fun _ _ hy _ => pieceExtent_exchange hy) hstop h

/-- A run at the front of a text, if it does not go past a part of it. -/
theorem takeWhile_split {f : Char → Bool} (h : ((x ++ r).takeWhile f).length ≤ x.length) :
    ∃ a b, x = a ++ b ∧ (x ++ r).takeWhile f = a ∧ (x ++ r).dropWhile f = b ++ r ∧
      (∀ c ∈ a, f c = true) ∧ ∀ c ∈ (b ++ r).head?, f c = false := by
  have hprefix : (x ++ r).takeWhile f <+: x :=
    List.prefix_of_prefix_length_le (List.takeWhile_prefix f) (List.prefix_append x r) h
  obtain ⟨b, hb⟩ := hprefix
  have hdrop : (x ++ r).dropWhile f = b ++ r := by
    have hsplit := List.takeWhile_append_dropWhile (p := f) (l := x ++ r)
    have hall : x ++ r = (x ++ r).takeWhile f ++ (b ++ r) := by
      rw [← List.append_assoc, hb]
    exact List.append_cancel_left (hsplit.trans hall)
  refine ⟨_, b, hb.symm, rfl, hdrop, fun c hc => List.mem_takeWhile_imp hc, fun c hc => ?_⟩
  rw [← hdrop] at hc
  have := List.head?_dropWhile_not f (x ++ r)
  rw [Option.mem_def.1 hc] at this
  simpa using this

/-! ## 2. Values -/

/-- The characters that end a word of a value, white space among them. -/
def wordEnds : List Char :=
  [',', ';', '(', ')', '\'', '"'] ++ blankCodes.map Char.ofNat

theorem mem_wordEnds {c : Char} (h : endsWord c = true) : c ∈ wordEnds := by
  simp only [endsWord, Bool.or_eq_true, beq_iff_eq] at h
  rcases h with (((((h | rfl) | rfl) | rfl) | rfl) | rfl) | rfl
  · exact List.mem_append_right _ (mem_blankCodes h)
  all_goals exact List.mem_append_left _ (by decide)

/-- What ends a word of a value belongs to no word at all, and begins no comment. -/
theorem wordEnds_spec : ∀ c ∈ wordEnds, isWord c = false ∧ c ≠ '-' ∧ c ≠ '/' ∧ c ≠ '*' ∧
    isSpelled (foldChar c) = false :=
  List.all_iff_forall_prop.1 (by decide +kernel)

theorem endsWord_of_pieceExtent {c : Char} {cs : List Char} (h : pieceExtent (c :: cs) = 0) :
    endsWord c = true := by
  simp only [pieceExtent] at h
  split_ifs at h with hquote hopen hends
  · have hquote : c = '\'' ∨ c = '"' := by simpa using hquote
    rcases hquote with rfl | rfl <;> rfl
  · rw [hopen]
    rfl
  · exact hends

theorem isPrefixOf_append_of_pieceExtent {marks : List Char} (hr : pieceExtent r = 0)
    (hmarks : marks.any endsWord = false) :
    marks.isPrefixOf (x ++ r) = marks.isPrefixOf x := by
  induction marks generalizing x with
  | nil => simp
  | cons m marks ih =>
    rw [List.any_cons, Bool.or_eq_false_iff] at hmarks
    cases x with
    | cons c x => simp only [List.cons_append, List.isPrefixOf, ih hmarks.2]
    | nil =>
      cases r with
      | nil => rfl
      | cons c r =>
        have hne : m ≠ c := by
          rintro rfl
          simp [endsWord_of_pieceExtent hr] at hmarks
        simp [List.isPrefixOf, hne]

/-- No reserved word is spelled across the end of a word of a value. -/
theorem spelledAt_append_of_pieceExtent (hr : pieceExtent r = 0) (k : Keyword) :
    k.spelledAt (x ++ r) = k.spelledAt x := by
  have hspec : ∀ {word : List Char}, (∀ c ∈ wordEnds, foldChar c ∉ word.map foldChar) →
      spelledLength word (x ++ r) = spelledLength word x := by
    intro word hword
    cases word with
    | nil => rfl
    | cons w ws =>
      simp only [spelledLength]
      rcases Nat.lt_or_ge x.length (w :: ws).length with hlt | hle
      · have hshort : ¬(x.take (w :: ws).length).map foldChar = (w :: ws).map foldChar := by
          intro h
          have := congrArg List.length h
          simp only [List.length_map, List.length_take] at this
          omega
        have hlong : ¬((x ++ r).take (w :: ws).length).map foldChar = (w :: ws).map foldChar := by
          intro h
          cases r with
          | nil =>
            rw [List.append_nil] at h
            exact hshort h
          | cons c r =>
            refine hword c (mem_wordEnds (endsWord_of_pieceExtent hr)) (h ▸ ?_)
            refine List.mem_map_of_mem ?_
            obtain ⟨n, hn⟩ := Nat.exists_eq_add_of_lt hlt
            rw [hn, List.take_append, Nat.add_assoc, Nat.add_sub_cancel_left]
            exact List.mem_append_right _ List.mem_cons_self
        rw [if_neg hshort, if_neg hlong]
      · rw [List.take_append_of_le_length hle]
  exact hspec fun c hc => k.not_mem_spelling (wordEnds_spec c hc).2.2.2.2

/-- Whether a value stops where a word begins is settled by that word. -/
theorem stopsValue_append (hr : pieceExtent r = 0) : stopsValue (x ++ r) = stopsValue x := by
  have hmarks : ∀ marks ∈ ["--".toList, "/*".toList],
      marks.isPrefixOf (x ++ r) = marks.isPrefixOf x := by
    intro marks hmarks
    refine isPrefixOf_append_of_pieceExtent hr ?_
    have hall : ∀ marks ∈ ["--".toList, "/*".toList], marks.any endsWord = false := by decide
    exact hall marks hmarks
  have hword : ∀ n ≤ x.length,
      ((x ++ r).drop n).head?.any isWord = (x.drop n).head?.any isWord := by
    intro n hn
    rw [List.drop_append_of_le_length hn]
    cases x.drop n with
    | cons c cs => rfl
    | nil =>
      cases r with
      | nil => rfl
      | cons c r => exact (wordEnds_spec c (mem_wordEnds (endsWord_of_pieceExtent hr))).1
  simp only [stopsValue, hmarks _ List.mem_cons_self,
    hmarks _ (List.mem_cons_of_mem _ List.mem_cons_self)]
  congr 1
  rw [Bool.eq_iff_iff, List.any_eq_true, List.any_eq_true]
  refine exists_congr fun k => and_congr_right fun _ => ?_
  rw [spelledAt_append_of_pieceExtent hr k, hword (k.spelledAt x) (spelledLength_le_length _ _)]

/-- No piece begins where further words do. -/
theorem pieceExtent_of_further {z : List Char} (hz : z ≠ [] → nextWordExtent (z ++ r) ≠ 0)
    (hstop : pieceExtent r' = 0) : pieceExtent (z ++ r') = 0 := by
  cases z with
  | nil => exact hstop
  | cons c z =>
    obtain ⟨hblanks, -⟩ := nextWordExtent_cases (hz (by simp))
    by_cases hc : isBlank c = true
    · exact pieceExtent_of_isBlank hc
    · simp [hc] at hblanks

/-- A further word is whole wherever it stands, if what comes after it begins no piece. -/
theorem nextWordExtent_exchange {z : List Char} (hz : z ≠ [] → nextWordExtent (z ++ r) ≠ 0)
    (hstop : pieceExtent r' = 0) (hx : x ≠ [])
    (h : nextWordExtent (x ++ (z ++ r)) = x.length) :
    nextWordExtent (x ++ (z ++ r')) = x.length := by
  have hpiece : pieceExtent (z ++ r') = 0 := pieceExtent_of_further hz hstop
  have hne : nextWordExtent (x ++ (z ++ r)) ≠ 0 := h ▸ mt List.length_eq_zero_iff.1 hx
  obtain ⟨hblanks, hstops, hword, hdrop⟩ := nextWordExtent_cases hne
  have hlength : ((x ++ (z ++ r)).takeWhile isBlank).length +
      wordExtent ((x ++ (z ++ r)).dropWhile isBlank) = x.length := by
    rw [← h, nextWordExtent_eq, if_neg]
    simp only [Bool.or_eq_true, decide_eq_true_eq, not_or, Bool.not_eq_true]
    exact ⟨⟨hblanks, hstops⟩, hword⟩
  obtain ⟨a, b, rfl, ha, hb, hall, hhead⟩ := takeWhile_split (x := x) (r := z ++ r) (f := isBlank)
    (by omega)
  rw [ha] at hblanks hlength
  rw [hb] at hstops hword hlength hdrop
  have hbword : wordExtent (b ++ (z ++ r)) = b.length := by
    rw [List.length_append] at hlength
    omega
  have hbne : b ≠ [] := by
    rintro rfl
    exact hword hbword
  have hends : pieceExtent (z ++ r) = 0 := by
    have := shape_drop_covered pieceExtent_le_length (b ++ (z ++ r))
    rwa [show covered pieceExtent (b ++ (z ++ r)) = b.length from hbword, List.drop_left] at this
  have hhead' : ∀ c ∈ (b ++ (z ++ r')).head?, isBlank c = false := by
    cases b with
    | nil => exact absurd rfl hbne
    | cons c b => exact hhead
  have hblanks' : (a ++ (b ++ (z ++ r'))).takeWhile isBlank = a :=
    takeWhile_append_of_head hall hhead'
  have hrest' : (a ++ (b ++ (z ++ r'))).dropWhile isBlank = b ++ (z ++ r') := by
    rw [← drop_length_takeWhile, hblanks', List.drop_left]
  have hbword' : wordExtent (b ++ (z ++ r')) = b.length := wordExtent_exchange hpiece hbword
  rw [stopsValue_append hends] at hstops
  rw [List.append_assoc, nextWordExtent_eq, hblanks', hrest', hbword', stopsValue_append hpiece,
    hstops, if_neg, List.length_append]
  have := List.length_pos_iff.2 hbne
  simp only [Bool.or_false, Bool.or_eq_true, decide_eq_true_eq]
  omega

/-- A value is whole wherever it stands, if neither a piece nor a further word comes after it. -/
theorem valueExtent_exchange (hx : x ≠ []) (hpiece : pieceExtent r' = 0)
    (hnext : nextWordExtent r' = 0) (h : valueExtent (x ++ r) = x.length) :
    valueExtent (x ++ r') = x.length := by
  have hpos := List.length_pos_iff.2 hx
  rw [valueExtent_eq] at h
  split_ifs at h with hword
  · omega
  obtain ⟨w, z, rfl, hw⟩ : ∃ w z, x = w ++ z ∧ w.length = wordExtent (x ++ r) := by
    refine ⟨x.take (wordExtent (x ++ r)), x.drop (wordExtent (x ++ r)),
      (List.take_append_drop _ x).symm, ?_⟩
    rw [List.length_take]
    omega
  rw [List.append_assoc] at h hw hword
  rw [← hw, List.drop_left, List.length_append] at h
  have hmore : covered nextWordExtent (z ++ r) = z.length := by omega
  have hz : z ≠ [] → nextWordExtent (z ++ r) ≠ 0 := by
    intro hz hzero
    rw [covered_of_eq_zero hzero] at hmore
    exact hz (List.length_eq_zero_iff.1 hmore.symm)
  have hmore' : covered nextWordExtent (z ++ r') = z.length :=
    covered_exchange nextWordExtent_le_length
      (fun y z' hy hz' => nextWordExtent_exchange hz' hpiece hy) hnext hmore
  have hends : pieceExtent (z ++ r') = 0 := pieceExtent_of_further hz hpiece
  have hword' : wordExtent (w ++ (z ++ r')) = w.length := wordExtent_exchange hends hw.symm
  rw [List.append_assoc, valueExtent_eq, hword', if_neg (by omega), List.drop_left, hmore',
    List.length_append]

/-! ## 3. Names, numbers and marks -/

theorem spelledLength_exchange {word : List Char} (hx : x ≠ [])
    (h : spelledLength word (x ++ r) = x.length) : spelledLength word (x ++ r') = x.length := by
  have hpos := List.length_pos_iff.2 hx
  cases word with
  | nil =>
    simp only [spelledLength] at h
    omega
  | cons w ws =>
    simp only [spelledLength] at h ⊢
    split_ifs at h with hspelled
    · rw [h, List.take_left] at hspelled ⊢
      rw [if_pos hspelled]
    · omega

theorem fractionExtent_exchange (hx : x ≠ []) (h : fractionExtent (x ++ r) = x.length) :
    fractionExtent (x ++ r') = x.length := by
  cases x with
  | nil => exact absurd rfl hx
  | cons c x =>
    by_cases hsign : c = '%'
    · rw [hsign] at h ⊢
      exact h
    by_cases hpoint : c = '.'
    · rw [hpoint] at h ⊢
      simp only [List.cons_append, fractionExtent, List.length_cons] at h ⊢
      split_ifs at h with hfraction
      obtain ⟨a, b, rfl, ha, hb, hall, hhead⟩ :=
        takeWhile_split (x := x) (r := r) (f := isDecimal) (by omega)
      rw [drop_length_takeWhile, ha, hb] at hfraction
      rw [ha, List.length_append] at h
      simp only [ne_eq, Bool.and_eq_true, decide_eq_true_eq, beq_iff_eq] at hfraction
      obtain ⟨d, rfl⟩ : ∃ d, b = [d] := List.length_eq_one_iff.1 (by omega)
      have hagain : (a ++ [d] ++ r').takeWhile isDecimal = a := by
        rw [List.append_assoc]
        exact takeWhile_append_of_head hall hhead
      rw [hagain, List.append_assoc, List.drop_left, if_pos]
      · simp
      · simpa using hfraction
    · simp [fractionExtent, hsign, hpoint] at h

theorem percentageExtent_exchange (hx : x ≠ []) (h : percentageExtent (x ++ r) = x.length) :
    percentageExtent (x ++ r') = x.length := by
  have hpos := List.length_pos_iff.2 hx
  rw [percentageExtent_eq] at h
  split_ifs at h with hcond
  · omega
  obtain ⟨a, b, rfl, ha, hb, hall, hhead⟩ :=
    takeWhile_split (x := x) (r := r) (f := isDecimal) (by omega)
  rw [ha, hb] at h hcond
  simp only [Bool.or_eq_true, decide_eq_true_eq, not_or] at hcond
  rw [List.length_append] at h
  have hfraction : fractionExtent (b ++ r) = b.length := by omega
  have hbne : b ≠ [] := by
    rintro rfl
    exact hcond.2 hfraction
  have hhead' : ∀ c ∈ (b ++ r').head?, isDecimal c = false := by
    cases b with
    | nil => exact absurd rfl hbne
    | cons c b => exact hhead
  have ha' : (a ++ (b ++ r')).takeWhile isDecimal = a := takeWhile_append_of_head hall hhead'
  have hb' : (a ++ (b ++ r')).dropWhile isDecimal = b ++ r' := by
    rw [← drop_length_takeWhile, ha', List.drop_left]
  have hfraction' : fractionExtent (b ++ r') = b.length := fractionExtent_exchange hbne hfraction
  rw [List.append_assoc, percentageExtent_eq, ha', hb', hfraction', List.length_append, if_neg]
  have := List.length_pos_iff.2 hbne
  simp only [Bool.or_eq_true, decide_eq_true_eq]
  omega

/-- Whether a function stands somewhere is settled before a character that belongs neither to its
name nor to the blanks after it, but for a bracket at that place. -/
theorem functionAt_append_of_mem {stop : Char} {cs name : List Char} (hmem : stop ∈ cs)
    (hblank : isBlank stop = false) (hname : foldChar stop ∉ name.map foldChar) :
    functionAt (cs ++ r) name = functionAt cs name := by
  have hspelled : spelledLength name (cs ++ r) = spelledLength name cs := by
    cases name with
    | nil => rfl
    | cons w ws =>
      simp only [spelledLength]
      rcases Nat.lt_or_ge cs.length (w :: ws).length with hlt | hle
      · have hnone : ∀ r, ¬((cs ++ r).take (w :: ws).length).map foldChar =
            (w :: ws).map foldChar := by
          intro r h
          refine hname (h ▸ List.mem_map_of_mem ?_)
          rw [List.take_append, List.take_of_length_le hlt.le]
          exact List.mem_append_left _ hmem
        have hplain := hnone []
        rw [List.append_nil] at hplain
        rw [if_neg (hnone r), if_neg hplain]
      · rw [List.take_append_of_le_length hle]
  simp only [functionAt, hspelled]
  by_cases hn : spelledLength name cs = 0
  · simp [hn]
  have hle := spelledLength_le_length name cs
  have hrest : stop ∈ cs.drop (spelledLength name cs) := by
    rw [← List.take_append_drop (spelledLength name cs) cs, List.mem_append] at hmem
    refine hmem.resolve_left fun hfront => hname ?_
    rw [← take_spelledLength hn]
    exact List.mem_map_of_mem hfront
  have hne : (cs.drop (spelledLength name cs)).dropWhile isBlank ≠ [] := fun hnil => by
    have := List.dropWhile_eq_nil_iff.1 hnil stop hrest
    simp [hblank] at this
  obtain ⟨e, es, hes⟩ := List.exists_cons_of_ne_nil hne
  rw [List.drop_append_of_le_length hle, takeWhile_append_of_mem hrest hblank, ← List.drop_drop,
    ← List.drop_drop, List.drop_append_of_le_length hle,
    List.drop_append_of_le_length (length_takeWhile_le _ _), drop_length_takeWhile, hes]
  rfl

/-- A function holds its bracket. -/
theorem mem_of_functionExtent {n : Nat} {cs : List Char} (hn : n ≠ 0)
    (h : functionExtent cs = n) : '(' ∈ cs.take n := by
  rw [functionExtent_eq] at h
  cases hfind : functionNames.findSome? (functionAt cs) with
  | none =>
    rw [hfind] at h
    exact absurd h.symm hn
  | some m =>
    obtain rfl : m = n := by simpa [hfind] using h
    obtain ⟨name, -, hname⟩ := List.exists_of_findSome?_eq_some hfind
    simp only [functionAt] at hname
    split_ifs at hname with hcond
    obtain rfl := Option.some.inj hname
    simp only [Bool.and_eq_true, beq_iff_eq] at hcond
    rw [List.take_add, List.mem_append]
    right
    cases hdrop : cs.drop _ with
    | nil =>
      rw [hdrop] at hcond
      simp at hcond
    | cons c ds =>
      rw [hdrop] at hcond
      obtain rfl : c = '(' := by simpa using hcond.2
      exact List.mem_cons_self

theorem bracket_not_mem_functionNames : ∀ name ∈ functionNames, foldChar '(' ∉ name.map foldChar := by
  decide

/-- A function that has its bracket is the same whatever comes after it. -/
theorem functionExtent_append_of_mem (h : '(' ∈ x) : functionExtent (x ++ r) = functionExtent x := by
  have hmap : functionNames.map (functionAt (x ++ r)) = functionNames.map (functionAt x) :=
    List.map_congr_left fun name hname =>
      functionAt_append_of_mem h (by decide) (bracket_not_mem_functionNames name hname)
  have hfind := congrArg (List.findSome? id) hmap
  rw [List.findSome?_map, List.findSome?_map] at hfind
  rw [functionExtent_eq, functionExtent_eq]
  exact congrArg (·.getD 0) hfind

theorem functionExtent_exchange (hx : x ≠ []) (h : functionExtent (x ++ r) = x.length) :
    functionExtent (x ++ r') = x.length := by
  have hmem : '(' ∈ x := by
    have := mem_of_functionExtent (mt List.length_eq_zero_iff.1 hx) h
    rwa [List.take_left] at this
  rw [functionExtent_append_of_mem hmem, ← functionExtent_append_of_mem hmem (r := r), h]

/-! ## 4. Lexemes -/

/-- A text ends a token of a kind that stands right before it. -/
def Terminal.Ends : Terminal → List Char → List Char → Prop
  | .ident, _, r => ∀ c ∈ r.head?, isNameChar c = false
  | .value, _, r => pieceExtent r = 0 ∧ nextWordExtent r = 0
  | .comparison, x, r => x.length = 1 → r.head? ≠ some '='
  | .media, _, r => ∀ c ∈ r.head?, c = ';'
  | _, _, _ => True

/-- A text ends a lexeme that stands right before it. -/
def Lexeme.Ends : Lexeme → List Char → List Char → Prop
  | .separator, _, r => ∀ c ∈ r.head?, isSeparator c = false
  | .lineComment, _, r => ∀ c ∈ r.head?, c = '\n'
  | .blockComment, _, _ => True
  | .token t, x, r => t.Ends x r

theorem Terminal.ends_of_extent {t : Terminal} (hx : x ≠ []) (h : t.extent (x ++ r) = x.length) :
    t.Ends x r := by
  cases t with
  | ident =>
    cases x with
    | nil => exact absurd rfl hx
    | cons c x =>
      simp only [extent, List.cons_append, identExtent, List.length_cons] at h
      split_ifs at h
      exact (takeWhile_eq_of_length (x := x) (f := isNameChar) (by omega)).2
  | value =>
    have hne : valueExtent (x ++ r) ≠ 0 := fun hzero =>
      hx (List.length_eq_zero_iff.1 (h.symm.trans hzero))
    have hstop := valueExtent_stop hne
    rwa [show valueExtent (x ++ r) = x.length from h, List.drop_left] at hstop
  | comparison =>
    intro hone heq
    obtain ⟨c, rfl⟩ := List.length_eq_one_iff.1 hone
    simp only [extent, List.singleton_append, comparisonExtent, heq, beq_self_eq_true,
      if_true] at h
    split_ifs at h
    simp at h
  | media =>
    intro c hc
    simpa using (takeWhile_eq_of_length h).2 c hc
  | word | mark | quoted | percentage | function | group => trivial

/-- The body of a comment to the end of the line. -/
theorem exists_of_lineCommentExtent_append (hx : x ≠ [])
    (h : lineCommentExtent (x ++ r) = x.length) : ∃ body, x = '-' :: '-' :: body ∧
      ((body ++ r).takeWhile (· != '\n')).length = body.length := by
  obtain ⟨ds, hds⟩ := exists_of_lineCommentExtent (h ▸ mt List.length_eq_zero_iff.1 hx)
  rw [hds] at h
  simp only [lineCommentExtent] at h
  rcases x with _ | ⟨c, _ | ⟨d, x⟩⟩
  · exact absurd rfl hx
  · simp only [List.length_singleton] at h
    omega
  · simp only [List.cons_append, List.cons.injEq] at hds
    obtain ⟨rfl, rfl, rfl⟩ := hds
    simp only [List.length_cons] at h
    exact ⟨x, rfl, by omega⟩

theorem Lexeme.ends_of_extent {l : Lexeme} (hx : x ≠ []) (h : l.extent (x ++ r) = x.length) :
    l.Ends x r := by
  cases l with
  | separator => exact (takeWhile_eq_of_length h).2
  | lineComment =>
    obtain ⟨body, -, hbody⟩ := exists_of_lineCommentExtent_append hx h
    intro c hc
    simpa using (takeWhile_eq_of_length hbody).2 c hc
  | blockComment => trivial
  | token t => exact t.ends_of_extent hx h

theorem Terminal.extent_exchange {t : Terminal} (hx : x ≠ []) (h : t.extent (x ++ r) = x.length)
    (hends : t.Ends x r') : t.extent (x ++ r') = x.length := by
  cases t with
  | word k => exact spelledLength_exchange hx h
  | mark c =>
    cases x with
    | nil => exact absurd rfl hx
    | cons e x => exact h
  | comparison =>
    match x with
    | [] => exact absurd rfl hx
    | [c] =>
      have hne : ¬(r'.head? == some '=') = true := by simpa using hends rfl
      simp only [extent, List.singleton_append, comparisonExtent, if_neg hne] at h ⊢
      split_ifs at h ⊢ <;> simp_all
    | c :: d :: x => exact h
  | ident =>
    cases x with
    | nil => exact absurd rfl hx
    | cons c x =>
      simp only [extent, List.cons_append, identExtent, List.length_cons] at h ⊢
      split_ifs at h ⊢
      have hall := (takeWhile_eq_of_length (f := isNameChar) (x := x) (r := r) (by omega)).1
      rw [takeWhile_append_of_head hall hends]
      omega
  | quoted =>
    have hown := quotedExtent_shrink hx h
    have hne : quotedExtent x ≠ 0 := hown ▸ mt List.length_eq_zero_iff.1 hx
    exact (quotedExtent_append hne).2.trans hown
  | value => exact valueExtent_exchange hx hends.1 hends.2 h
  | percentage => exact percentageExtent_exchange hx h
  | function => exact functionExtent_exchange hx h
  | group =>
    have hown := groupExtent_shrink hx h
    have hne : groupExtent x ≠ 0 := hown ▸ mt List.length_eq_zero_iff.1 hx
    exact (groupExtent_append hne).2.trans hown
  | media =>
    have hall := (takeWhile_eq_of_length h).1
    have hhead : ∀ c ∈ r'.head?, (c != ';') = false := fun c hc => by simpa using hends c hc
    exact congrArg List.length (takeWhile_append_of_head hall hhead)

/-- A lexeme is whole wherever it stands, if what comes after it ends it. -/
theorem Lexeme.extent_exchange {l : Lexeme} (hx : x ≠ []) (h : l.extent (x ++ r) = x.length)
    (hends : l.Ends x r') : l.extent (x ++ r') = x.length := by
  cases l with
  | separator =>
    have hall := (takeWhile_eq_of_length h).1
    exact congrArg List.length (takeWhile_append_of_head hall hends)
  | lineComment =>
    obtain ⟨body, rfl, hbody⟩ := exists_of_lineCommentExtent_append hx h
    have hall := (takeWhile_eq_of_length hbody).1
    have hhead : ∀ c ∈ r'.head?, (c != '\n') = false := fun c hc => by simpa using hends c hc
    show 2 + ((body ++ r').takeWhile (· != '\n')).length = body.length + 1 + 1
    rw [takeWhile_append_of_head hall hhead]
    omega
  | blockComment =>
    have hown := blockCommentExtent_shrink hx h
    have hne : blockCommentExtent x ≠ 0 := hown ▸ mt List.length_eq_zero_iff.1 hx
    exact (blockCommentExtent_append hne).2.trans hown
  | token t => exact t.extent_exchange hx h hends

end StyleLedger.Source
