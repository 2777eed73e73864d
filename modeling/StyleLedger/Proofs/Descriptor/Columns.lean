import StyleLedger.Descriptor.Columns
import StyleLedger.Proofs.Outcome
import Mathlib.Data.List.TakeWhile

/-!
When the columns of a descriptor give the descriptor back.

A media descriptor keeps its features as one text, joined by ` and `, and the features are found
again by cutting that text at every separator: blanks, the word `and` in any letter case, blanks.
Every feature is a text in brackets, so no separator reaches over the end of a feature, and cutting
the joined text is the same as cutting each feature (`featuresOfText_intercalate`). The columns
therefore give back exactly the descriptors none of whose features has a separator inside.

* `HasSeparator` — the word `and` between two blanks, said without the reader.
* `IsMerged` — the descriptors that conditions merge into, one constructor per kind.
-/

namespace StyleLedger

/-! ## 1. The parts of a text -/

namespace Text

variable {shape : List Char → Nat}

theorem partsFrom_keep {c : Char} {cs : List Char} (h : shape (c :: cs) = 0) (part : List Char) :
    partsFrom shape part 0 (c :: cs) = partsFrom shape (c :: part) 0 cs := by
  simp only [partsFrom, h]

theorem partsFrom_cut {c : Char} {cs : List Char} {n : Nat} (h : shape (c :: cs) = n + 1)
    (part : List Char) :
    partsFrom shape part 0 (c :: cs) = part.reverse :: partsFrom shape [] n cs := by
  simp only [partsFrom, h]

theorem partsFrom_ne_nil (shape : List Char → Nat) (part : List Char) (skip : Nat)
    (cs : List Char) : partsFrom shape part skip cs ≠ [] := by
  induction cs generalizing part skip with
  | nil => simp [partsFrom]
  | cons c cs ih =>
    cases skip with
    | succ n => exact ih part n
    | zero =>
      cases hs : shape (c :: cs) with
      | zero => rw [partsFrom_keep hs]; exact ih (c :: part) 0
      | succ n => rw [partsFrom_cut hs]; simp

theorem partsFrom_of_not_occurs {cs : List Char} (h : occurs shape cs = false)
    (part : List Char) : partsFrom shape part 0 cs = [part.reverse ++ cs] := by
  induction cs generalizing part with
  | nil => simp [partsFrom]
  | cons c cs ih =>
    simp only [occurs, Bool.or_eq_false_iff, bne_eq_false_iff_eq] at h
    rw [partsFrom_keep h.1, ih h.2]
    simp

theorem two_le_length_partsFrom {cs : List Char} (hnil : shape [] = 0)
    (h : occurs shape cs = true) (part : List Char) :
    2 ≤ (partsFrom shape part 0 cs).length := by
  induction cs generalizing part with
  | nil => simp [occurs, hnil] at h
  | cons c cs ih =>
    cases hs : shape (c :: cs) with
    | zero =>
      have hrest : occurs shape cs = true := by simpa [occurs, hs] using h
      rw [partsFrom_keep hs]
      exact ih hrest (c :: part)
    | succ n =>
      have hpos := List.length_pos_iff.2 (partsFrom_ne_nil shape [] n cs)
      rw [partsFrom_cut hs, List.length_cons]
      omega

end Text

namespace Descriptor

open Text Outcome

/-! ## 2. Separators -/

/-- Somewhere in the text the word `and`, in any letter case, stands between two blanks. -/
def HasSeparator (cs : List Char) : Prop :=
  ∃ front a word b back, cs = front ++ a :: (word ++ b :: back) ∧
    isBlank a = true ∧ isBlank b = true ∧ word.map asciiLower = ['a', 'n', 'd']

theorem HasSeparator.append {cs : List Char} (h : HasSeparator cs) (ds : List Char) :
    HasSeparator (ds ++ cs) := by
  obtain ⟨front, a, word, b, back, rfl, ha, hb, hw⟩ := h
  exact ⟨ds ++ front, a, word, b, back, by simp, ha, hb, hw⟩

theorem isBlank_eq_false_of_asciiLower {c : Char} (h : asciiLower c ∈ ['a', 'n', 'd']) :
    isBlank c = false := by
  by_cases hb : isBlank c = true
  · have hlow : asciiLower c = c := by
      unfold asciiLower
      split
      · next hr =>
        simp only [isBlank, Bool.and_eq_true, decide_eq_true_eq, Bool.or_eq_true, beq_iff_eq,
          Char.le_def, UInt32.le_iff_toNat_le] at hb hr
        have h1 : 'A'.val.toNat = 65 := rfl
        have h2 : 'Z'.val.toNat = 90 := rfl
        have h3 : c.toNat = c.val.toNat := rfl
        omega
      · rfl
    rw [hlow] at h
    simp only [List.mem_cons, List.not_mem_nil, or_false] at h
    rcases h with rfl | rfl | rfl <;> exact absurd hb (by decide)
  · simpa using hb

/-- What a text that begins with a separator looks like. -/
theorem exists_of_separatorLength_ne_zero {cs : List Char} (h : separatorLength cs ≠ 0) :
    ∃ blanks word b back, cs = blanks ++ (word ++ b :: back) ∧ blanks ≠ [] ∧
      (∀ c ∈ blanks, isBlank c = true) ∧ isBlank b = true ∧
      word.map asciiLower = ['a', 'n', 'd'] := by
  unfold separatorLength at h
  simp only [ne_eq, ite_eq_left_iff, Classical.not_imp, Bool.not_eq_true, Bool.or_eq_false_iff,
    decide_eq_false_iff_not, bne_eq_false_iff_eq] at h
  obtain ⟨⟨⟨hbefore, hword⟩, hafter⟩, -⟩ := h
  set n := (cs.takeWhile isBlank).length with hn
  have htake : cs.take n = cs.takeWhile isBlank := by
    rw [hn]
    exact (List.prefix_iff_eq_take.1 (List.takeWhile_prefix isBlank)).symm
  obtain ⟨b, back, hback, hb⟩ : ∃ b back, cs.drop (n + 3) = b :: back ∧ isBlank b = true := by
    cases hd : cs.drop (n + 3) with
    | nil => simp [hd] at hafter
    | cons b back =>
      refine ⟨b, back, rfl, ?_⟩
      by_contra hblank
      simp [hd, hblank] at hafter
  refine ⟨cs.take n, (cs.drop n).take 3, b, back, ?_, ?_, ?_, hb, hword⟩
  · rw [← hback, ← List.drop_drop, List.take_append_drop, List.take_append_drop]
  · intro hnil
    rw [htake] at hnil
    exact hbefore (by rw [hn, hnil]; rfl)
  · intro c hc
    rw [htake] at hc
    exact List.mem_takeWhile_imp hc

theorem separatorLength_cons {a b : Char} {word back : List Char} (ha : isBlank a = true)
    (hb : isBlank b = true) (hw : word.map asciiLower = ['a', 'n', 'd']) :
    separatorLength (a :: (word ++ b :: back)) ≠ 0 := by
  obtain ⟨x, y, z, rfl⟩ : ∃ x y z, word = [x, y, z] := by
    have hlen : word.length = 3 := by simpa using congrArg List.length hw
    match word, hlen with
    | [x, y, z], _ => exact ⟨x, y, z, rfl⟩
  have hx : isBlank x = false :=
    isBlank_eq_false_of_asciiLower (by
      simp only [List.map_cons, List.cons.injEq] at hw
      simp [hw.1])
  simp only [List.map_cons, List.map_nil] at hw
  simp [separatorLength, ha, hb, hx, hw]

/-- A separator is found where the text has one, and nowhere else. -/
theorem occurs_separatorLength_iff (cs : List Char) :
    occurs separatorLength cs = true ↔ HasSeparator cs := by
  constructor
  · induction cs with
    | nil => intro h; exact absurd h (by decide)
    | cons c cs ih =>
      intro h
      simp only [occurs, Bool.or_eq_true, bne_iff_ne] at h
      rcases h with h | h
      · obtain ⟨blanks, word, b, back, heq, hne, hall, hb, hw⟩ :=
          exists_of_separatorLength_ne_zero h
        refine ⟨blanks.dropLast, blanks.getLast hne, word, b, back, ?_,
          hall _ (List.getLast_mem hne), hb, hw⟩
        calc c :: cs = blanks ++ (word ++ b :: back) := heq
          _ = (blanks.dropLast ++ [blanks.getLast hne]) ++ (word ++ b :: back) := by
            rw [List.dropLast_concat_getLast hne]
          _ = blanks.dropLast ++ blanks.getLast hne :: (word ++ b :: back) := by
            rw [List.append_assoc, List.singleton_append]
      · exact (ih h).append [c]
  · rintro ⟨front, a, word, b, back, rfl, ha, hb, hw⟩
    induction front with
    | nil =>
      simp only [List.nil_append, occurs, Bool.or_eq_true, bne_iff_ne]
      exact Or.inl (separatorLength_cons ha hb hw)
    | cons c front ih => simp [occurs, ih]

instance : DecidablePred HasSeparator := fun cs =>
  decidable_of_iff _ (occurs_separatorLength_iff cs)

theorem length_featuresOfText_pos (f : String) : 0 < (featuresOfText f).length := by
  simp only [featuresOfText, List.length_map]
  exact List.length_pos_iff.2 (partsFrom_ne_nil separatorLength [] 0 f.toList)

/-- A text is one feature exactly when it has no separator inside. -/
theorem featuresOfText_eq_singleton_iff (f : String) :
    featuresOfText f = [f] ↔ ¬ HasSeparator f.toList := by
  rw [← occurs_separatorLength_iff, Bool.not_eq_true]
  constructor
  · intro h
    by_contra hocc
    have htwo := two_le_length_partsFrom rfl (Bool.not_eq_false _ ▸ hocc) []
    have hone := congrArg List.length h
    simp only [featuresOfText, List.length_map, List.length_singleton, parts] at hone
    omega
  · intro h
    simp [featuresOfText, parts, partsFrom_of_not_occurs h]

/-! ## 3. Features in brackets -/

/-- A text that begins with an opening bracket and ends in a closing one. -/
def IsBracketed (f : String) : Prop :=
  ∃ inner, f.toList = '(' :: (inner ++ [')'])

theorem takeWhile_isBlank_close (cs tail : List Char) :
    (cs ++ ')' :: tail).takeWhile isBlank = cs.takeWhile isBlank := by
  induction cs with
  | nil => rfl
  | cons c cs ih =>
    by_cases hc : isBlank c = true
    · simp [hc, ih]
    · simp [hc]

/-- What follows a closing bracket has no part in a separator before it. -/
theorem separatorLength_close (cs tail : List Char) :
    separatorLength (cs ++ ')' :: tail) = separatorLength (cs ++ [')']) ∧
      separatorLength (cs ++ [')']) ≤ cs.length := by
  unfold separatorLength
  simp only [takeWhile_isBlank_close]
  set n := (cs.takeWhile isBlank).length with hn
  have hle : n ≤ cs.length := (List.takeWhile_prefix isBlank).length_le
  simp only [List.drop_append_of_le_length hle]
  set rest := cs.drop n with hrest
  have hlen : rest.length = cs.length - n := by simp [hrest]
  by_cases hshort : rest.length < 3
  · -- the bracket would have to be a letter of the word
    have hword : ∀ t : List Char,
        (((rest ++ ')' :: t).take 3).map asciiLower != ['a', 'n', 'd']) = true := by
      intro t
      rw [bne_iff_ne]
      intro h
      have hmem : ')' ∈ (rest ++ ')' :: t).take 3 := by
        match rest, hshort with
        | [], _ => simp
        | [_], _ => simp
        | [_, _], _ => simp
      have := List.mem_map_of_mem (f := asciiLower) hmem
      rw [h] at this
      exact absurd this (by decide)
    simp only [hword, Bool.or_true, Bool.true_or, if_true, true_and]
    exact Nat.zero_le _
  · have htake : ∀ t : List Char, (rest ++ t).take 3 = rest.take 3 := fun t =>
      List.take_append_of_le_length (by omega)
    have hdrop : ∀ t : List Char, (cs ++ t).drop (n + 3) = cs.drop (n + 3) ++ t := fun t =>
      List.drop_append_of_le_length (by omega)
    simp only [htake, hdrop, takeWhile_isBlank_close, true_and]
    split
    · omega
    · have := (List.takeWhile_prefix isBlank (l := cs.drop (n + 3))).length_le
      simp only [List.length_drop] at this
      omega

theorem separatorLength_join {rest : List Char} (h : ∀ c ∈ rest.head?, isBlank c = false) :
    separatorLength (" and ".toList ++ rest) = 5 := by
  cases rest with
  | nil => decide
  | cons c cs =>
    have hc : isBlank c = false := h c (by simp)
    have hspace : isBlank ' ' = true := by decide
    have ha : isBlank 'a' = false := by decide
    have hword : ['a', 'n', 'd'].map asciiLower = ['a', 'n', 'd'] := by decide
    simp only [List.map_cons, List.map_nil] at hword
    simp [separatorLength, hc, hspace, ha, hword]

/-- The text behind a feature is cut on its own. -/
theorem partsFrom_close {rest : List Char} (hrest : ∀ c ∈ rest.head?, isBlank c = false)
    (inner part : List Char) (skip : Nat) (hskip : skip ≤ inner.length) :
    partsFrom separatorLength part skip (inner ++ ')' :: (" and ".toList ++ rest)) =
      partsFrom separatorLength part skip (inner ++ [')']) ++
        partsFrom separatorLength [] 0 rest := by
  induction inner generalizing part skip with
  | nil =>
    obtain rfl : skip = 0 := by simpa using hskip
    have hclose : ∀ t, separatorLength (')' :: t) = 0 := fun t => by
      simp [separatorLength, isBlank]
    have hjoin := separatorLength_join hrest
    simp only [List.nil_append, partsFrom_keep (hclose _), partsFrom]
    rw [show " and ".toList ++ rest = ' ' :: ("and ".toList ++ rest) from rfl] at hjoin ⊢
    rw [partsFrom_cut hjoin]
    rfl
  | cons c inner ih =>
    cases skip with
    | succ n => exact ih part n (by simpa using hskip)
    | zero =>
      obtain ⟨heq, hle⟩ := separatorLength_close (c :: inner) (" and ".toList ++ rest)
      simp only [List.cons_append] at heq hle ⊢
      cases hs : separatorLength (c :: (inner ++ [')'])) with
      | zero =>
        rw [partsFrom_keep (heq.trans hs), partsFrom_keep hs]
        exact ih (c :: part) 0 (Nat.zero_le _)
      | succ n =>
        rw [hs] at hle
        rw [partsFrom_cut (heq.trans hs), partsFrom_cut hs, ih [] n (by simpa using hle)]
        rfl

/-- Cutting joined features is cutting each of them. -/
theorem featuresOfText_intercalate : ∀ {fs : List String}, fs ≠ [] → (∀ f ∈ fs, IsBracketed f) →
    featuresOfText (" and ".intercalate fs) = fs.flatMap featuresOfText
  | [f], _, _ => by simp
  | f :: g :: fs, _, h => by
    obtain ⟨inner, hf⟩ := h f (by simp)
    obtain ⟨inner', hg⟩ := h g (by simp)
    have ih := featuresOfText_intercalate (List.cons_ne_nil g fs)
      (fun x hx => h x (List.mem_cons_of_mem _ hx))
    have hhead : ∀ c ∈ (" and ".intercalate (g :: fs)).toList.head?, isBlank c = false := by
      have : (" and ".intercalate (g :: fs)).toList.head? = some '(' := by
        cases fs with
        | nil => simp [hg]
        | cons k fs => simp [String.intercalate_cons_cons, hg]
      rw [this]
      simp [isBlank]
    rw [List.flatMap_cons, ← ih, String.intercalate_cons_cons]
    have := partsFrom_close hhead ('(' :: inner) [] 0 (Nat.zero_le _)
    simp only [featuresOfText, parts, String.toList_append, hf, ← List.map_append]
    simp only [List.cons_append, List.append_assoc, List.nil_append] at this ⊢
    rw [this]

theorem flatMap_featuresOfText_eq_self_iff (fs : List String) :
    fs.flatMap featuresOfText = fs ↔ ∀ f ∈ fs, ¬ HasSeparator f.toList := by
  have hlong : ∀ gs : List String, gs.length ≤ (gs.flatMap featuresOfText).length := by
    intro gs
    induction gs with
    | nil => simp
    | cons g gs ih =>
      have := length_featuresOfText_pos g
      simp only [List.flatMap_cons, List.length_append, List.length_cons]
      omega
  induction fs with
  | nil => simp
  | cons f fs ih =>
    rw [List.flatMap_cons, List.forall_mem_cons, ← featuresOfText_eq_singleton_iff]
    constructor
    · intro h
      -- a feature in two parts would leave more parts than there were features
      have hone : (featuresOfText f).length = 1 := by
        have hlen := congrArg List.length h
        have hpos := length_featuresOfText_pos f
        have := hlong fs
        simp only [List.length_append, List.length_cons] at hlen
        omega
      obtain ⟨g, hg⟩ := List.length_eq_one_iff.1 hone
      rw [hg, List.singleton_append, List.cons.injEq] at h
      exact ⟨by rw [hg, h.1], ih.1 h.2⟩
    · rintro ⟨hf, hfs⟩
      rw [hf, ih.2 hfs, List.singleton_append]

/-! ## 4. Descriptors that conditions merge into -/

/-- The descriptors that conditions merge into. -/
inductive IsMerged : Descriptor → Prop
  | media (min max supports : Json) (features : List String) (h : ∀ f ∈ features, IsBracketed f) :
    IsMerged { kind := .media, min, max, features, supports }
  | container (name min max axis supports : Json) :
    IsMerged { kind := .container, name, min, max, axis, supports }
  | containerStyle (name condition supports : Json) :
    IsMerged { kind := .containerStyle, name, condition, supports }
  | supports (condition : Json) : IsMerged { kind := .supports, condition }

theorem isBracketed_of_featureText {name value : Json} {f : String}
    (h : featureText name value = .ok f) : IsBracketed f := by
  unfold featureText at h
  split at h
  · next name =>
    obtain ⟨v, -, h⟩ := bind_eq_ok.1 h
    obtain rfl := pure_eq_ok.1 h
    refine ⟨(name.map fun c => if c = '_' then '-' else c).toList ++ (": " ++ v).toList, ?_⟩
    simp
  · simp at h

theorem Parts.add_width {p q : Parts} {min max : Json} (h : p.add (.width min max) = .ok q) :
    ∃ lo hi, (lo = p.min ∨ bound min = .ok lo) ∧ (hi = p.max ∨ bound max = .ok hi) ∧
      q = { p with min := lo, max := hi } := by
  have hif : ∀ (v previous : Json) (next : Json → Except CompositionError Parts),
      (if v.isNull = true then pure previous >>= next else bound v >>= next) = .ok q →
        ∃ b, (b = previous ∨ bound v = .ok b) ∧ next b = .ok q := by
    intro v previous next h
    split at h
    · obtain ⟨b, hb, h⟩ := bind_eq_ok.1 h
      exact ⟨b, .inl (pure_eq_ok.1 hb).symm, h⟩
    · obtain ⟨b, hb, h⟩ := bind_eq_ok.1 h
      exact ⟨b, .inr hb, h⟩
  obtain ⟨lo, hlo, h⟩ := hif _ _ _ h
  obtain ⟨hi, hhi, h⟩ := hif _ _ _ h
  exact ⟨lo, hi, hlo, hhi, (pure_eq_ok.1 h).symm⟩

theorem Parts.add_isBracketed {p q : Parts} {a : Atom} (hp : ∀ f ∈ p.features, IsBracketed f)
    (h : p.add a = .ok q) : ∀ f ∈ q.features, IsBracketed f := by
  cases a with
  | width min max =>
    obtain ⟨lo, hi, -, -, rfl⟩ := Parts.add_width h
    exact hp
  | feature name value =>
    simp only [Parts.add, bind_eq_ok, pure_eq_ok] at h
    obtain ⟨f, hf, rfl⟩ := h
    intro g hg
    rcases List.mem_append.1 hg with hg | hg
    · exact hp g hg
    · rw [List.mem_singleton.1 hg]
      exact isBracketed_of_featureText hf
  | supports condition =>
    simp only [Parts.add, bind_eq_ok, pure_eq_ok] at h
    obtain ⟨text, -, rfl⟩ := h
    exact hp
  | container name min max axis =>
    simp only [Parts.add, bind_eq_ok, pure_eq_ok] at h
    obtain ⟨c, -, rfl⟩ := h
    exact hp
  | containerStyle name condition =>
    simp only [Parts.add] at h
    split at h
    · simp at h
    · obtain rfl := Except.ok.inj h
      exact hp

theorem Parts.descriptor_isMerged {p : Parts} {d : Descriptor}
    (hp : ∀ f ∈ p.features, IsBracketed f) (h : p.descriptor = .ok (some d)) : IsMerged d := by
  unfold Parts.descriptor at h
  split at h
  · split at h
    · simp at h
    · split at h
      · obtain rfl := Option.some.inj (Except.ok.inj h)
        exact .containerStyle ..
      · simp only [bind_eq_ok, pure_eq_ok, Option.some.injEq] at h
        obtain ⟨lo, -, hi, -, rfl⟩ := h
        exact .container ..
  · split at h
    · obtain rfl := Option.some.inj (Except.ok.inj h)
      exact .media _ _ _ _ hp
    · split at h
      · simp at h
      · obtain rfl := Option.some.inj (Except.ok.inj h)
        exact .supports _

/-- A descriptor that a condition addresses comes from the atoms of an alternative. -/
theorem exists_parts_of_ofCondition {c : Option Condition} {ds : List (Option Descriptor)}
    (h : ofCondition c = .ok ds) {d : Descriptor} (hd : some d ∈ ds) :
    ∃ c' ∈ c, ∃ atoms ∈ c'.alternatives, ∃ p, Parts.ofAtoms atoms = .ok p ∧
      p.descriptor = .ok (some d) := by
  cases c with
  | none =>
    obtain rfl := Except.ok.inj h
    simp at hd
  | some c =>
    simp only [ofCondition] at h
    split at h
    · simp at h
    · obtain ⟨atoms, hatoms, hd⟩ := mem_of_mapM h _ hd
      obtain ⟨p, hp, hd⟩ := bind_eq_ok.1 hd
      exact ⟨c, rfl, atoms, hatoms, p, hp, hd⟩

/-- Every descriptor a condition addresses has merged from atoms. -/
theorem isMerged_of_ofCondition {c : Option Condition} {ds : List (Option Descriptor)}
    (h : ofCondition c = .ok ds) {d : Descriptor} (hd : some d ∈ ds) : IsMerged d := by
  obtain ⟨-, -, atoms, -, p, hp, hd⟩ := exists_parts_of_ofCondition h hd
  have hbracketed : ∀ f ∈ p.features, IsBracketed f :=
    foldlM_keeps (fun a _ p q hp hq => Parts.add_isBracketed hp hq) (by simp) hp
  exact Parts.descriptor_isMerged hbracketed hd

/-! ## 5. There and back -/

/-- No feature of a bucket's wrapper has a separator inside. -/
def IsClean (d : Option Descriptor) : Prop :=
  ∀ f ∈ d.elim [] Descriptor.features, ¬ HasSeparator f.toList

instance : DecidablePred IsClean := fun d =>
  inferInstanceAs (Decidable (∀ f ∈ d.elim [] Descriptor.features, ¬ HasSeparator f.toList))

theorem intercalate_ne_empty : ∀ {fs : List String}, fs ≠ [] → (∀ f ∈ fs, IsBracketed f) →
    " and ".intercalate fs ≠ ""
  | f :: fs, _, h => by
    obtain ⟨inner, hf⟩ := h f (by simp)
    intro hempty
    have := congrArg String.toList hempty
    cases fs with
    | nil => simp [hf] at this
    | cons g gs => simp [String.intercalate_cons_cons, hf] at this

/-- The columns give a merged descriptor back exactly when none of its features has a separator
inside. -/
theorem IsMerged.ofColumns_columns_iff {d : Descriptor} (hd : IsMerged d) :
    ofColumns (columns (some d)) = some d ↔ ∀ f ∈ d.features, ¬ HasSeparator f.toList := by
  cases hd with
  | container => simp [columns, ofColumns, DescriptorKind.cell, DescriptorKind.ofCell, Json.isTrue]
  | containerStyle =>
    simp [columns, ofColumns, DescriptorKind.cell, DescriptorKind.ofCell, Json.isTrue]
  | supports => simp [columns, ofColumns, DescriptorKind.cell, DescriptorKind.ofCell, Json.isTrue]
  | media min max supports features h =>
    rw [← flatMap_featuresOfText_eq_self_iff]
    by_cases hnil : features = []
    · subst hnil
      simp [columns, ofColumns, DescriptorKind.cell, DescriptorKind.ofCell, Json.isTrue,
        Json.textOrNull, nonEmpty?]
    · have hne := intercalate_ne_empty hnil h
      rw [← featuresOfText_intercalate hnil h]
      simp [columns, ofColumns, DescriptorKind.cell, DescriptorKind.ofCell, Json.isTrue,
        Json.textOrNull, nonEmpty?, hne]

/-- The columns give back every descriptor that a condition addresses, no descriptor included,
exactly when no feature of it has a separator inside; and of two such descriptors the columns
never give one for the other. -/
theorem ofColumns_columns_iff_isClean {c c' : Option Condition} {ds ds' : List (Option Descriptor)}
    (h : ofCondition c = .ok ds) (h' : ofCondition c' = .ok ds') :
    ∀ d ∈ ds, (ofColumns (columns d) = d ↔ IsClean d) ∧
      ∀ d' ∈ ds', IsClean d → IsClean d' → ofColumns (columns d) = ofColumns (columns d') →
        d = d' := by
  have hrestored : ∀ {c ds}, ofCondition c = .ok ds → ∀ d ∈ ds,
      (ofColumns (columns d) = d ↔ IsClean d) := by
    intro c ds h d hd
    cases d with
    | none => simp [columns, ofColumns, Json.isTrue, IsClean]
    | some d => exact (isMerged_of_ofCondition h hd).ofColumns_columns_iff
  intro d hd
  refine ⟨hrestored h d hd, fun d' hd' hclean hclean' heq => ?_⟩
  rw [(hrestored h d hd).2 hclean, (hrestored h' d' hd').2 hclean'] at heq
  exact heq

/-- Two features and a bound between them come back; so does the same with the bound alone, and the
two are told apart. -/
theorem ofColumns_columns_hover_pointer :
    let bounded : Descriptor := { kind := .media, min := .text "600px" }
    let featured : Descriptor :=
      { bounded with features := ["(hover: hover)", "(any-pointer: fine)"] }
    ofColumns (columns (some featured)) = some featured ∧
      ofColumns (columns (some featured)) ≠ ofColumns (columns (some bounded)) := by
  intro bounded featured
  have hfeatured : ofCondition (some (.all [.atom (.feature (.text "hover") (.text "hover")),
      .atom (.width (.text "600px") .null),
      .atom (.feature (.text "any_pointer") (.text "fine"))])) = .ok [some featured] := by
    decide +kernel
  have hbounded : ofCondition (some (.atom (.width (.text " 600px") (.text "inf")))) =
      .ok [some bounded] := by decide +kernel
  obtain ⟨hback, happart⟩ :=
    ofColumns_columns_iff_isClean hfeatured hbounded (some featured) (by simp)
  refine ⟨hback.2 (by decide +kernel), fun heq => ?_⟩
  have := happart (some bounded) (by simp) (by decide +kernel) (by decide +kernel) heq
  exact absurd this (by decide +kernel)

/-- A feature whose quoted value holds the word `and` comes back in two parts, and so does one
that differs from it by a blank. -/
theorem ofColumns_columns_quoted_and :
    let feature (value : String) : Option Condition :=
      some (.atom (.feature (.text "foo") (.text value)))
    let wrapper (value : String) : Descriptor :=
      { kind := .media, features := ["(foo: " ++ value ++ ")"] }
    ofCondition (feature "'x and y'") = .ok [some (wrapper "'x and y'")] ∧
      ofCondition (feature "'x  and y'") = .ok [some (wrapper "'x  and y'")] ∧
      ofColumns (columns (some (wrapper "'x and y'"))) ≠ some (wrapper "'x and y'") ∧
      wrapper "'x and y'" ≠ wrapper "'x  and y'" ∧
      ofColumns (columns (some (wrapper "'x and y'"))) =
        ofColumns (columns (some (wrapper "'x  and y'"))) := by
  decide +kernel

end Descriptor

end StyleLedger
