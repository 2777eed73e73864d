import Mathlib.Data.Bool.AllAny
import StyleLedger.Proofs.Selector.References
import StyleLedger.Proofs.Value
import StyleLedger.Selector.Specificity

/-!
The specificity of two selectors in a row is the sum of theirs.

A specificity is counted in rounds. Each round finds the pieces of one shape and takes them out
before the next, so two neighbours can become one piece only if nothing is left between them. What
stands between the two sides of a combinator, or between two selectors of a list, is left by every
round: none of its characters begins a piece, and no name goes on through it. So every round finds
in the whole text what it finds on either side (`IsCutBy`), provided that nothing open is left of
the separator: neither the bracket of an attribute nor that of an argument (`IsSealed`). The text of
a definition whose names are plain is sealed, which is shown along the definition and the references
in it.

* `Text.StaysWithin`, `Text.IsCutBy` — where the pieces of a text and of what follows it part.
* `Specificity.IsSealed` — texts in which nothing is open.
* `Selector.IsPlainlyNamed`, `Selector.Uses` — plain names, also behind references.
* `Selector.specificity_eq_add` — specificities add up.
-/

namespace StyleLedger

/-! ## 1. Pieces on both sides of a separator -/

namespace Text

variable {shape : List Char → Nat} {front back separator : List Char}

/-- A text without the pieces of a shape. -/
def without (shape : List Char → Nat) (cs : List Char) : List Char :=
  replaceAll shape (fun _ => []) cs

theorem pieces_eq_partition (cs : List Char) :
    pieces shape cs = (partition shape cs).filterMap (·.piece?) :=
  piecesFrom_eq 0 cs

theorem without_eq_partition (cs : List Char) :
    without shape cs = (partition shape cs).flatMap (·.replaced fun _ => []) :=
  replaceFrom_eq _ 0 cs

theorem pieces_of_eq_zero {c : Char} {cs : List Char} (h : shape (c :: cs) = 0) :
    pieces shape (c :: cs) = pieces shape cs := by
  simp only [pieces_eq_partition, partition_cons, h]
  rfl

theorem pieces_of_eq_succ {c : Char} {cs : List Char} {n : Nat} (h : shape (c :: cs) = n + 1) :
    pieces shape (c :: cs) = (c :: cs).take (n + 1) :: pieces shape (cs.drop n) := by
  simp only [pieces_eq_partition, partition_cons, h]
  rfl

theorem sublist_without (cs : List Char) : (without shape cs).Sublist cs := by
  have hparts : ∀ parts : List Part,
      (parts.flatMap (·.replaced fun _ => [])).Sublist (parts.flatMap (·.source)) := by
    intro parts
    induction parts with
    | nil => exact List.Sublist.refl _
    | cons part parts ih =>
      rw [List.flatMap_cons, List.flatMap_cons]
      refine List.Sublist.append ?_ ih
      cases part with
      | kept c => exact List.Sublist.refl _
      | piece cs => exact List.nil_sublist _
  have hsource : (partition shape cs).flatMap (·.source) = cs := flatMap_source_partitionFrom 0 cs
  have hsublist := hparts (partition shape cs)
  rw [hsource] at hsublist
  rwa [without_eq_partition]

/-- What a shape covers at any place of a text stays in the text, whatever stands behind it. -/
def StaysWithin (shape : List Char → Nat) (front back : List Char) : Prop :=
  ∀ u, u <:+ front → u ≠ [] → shape (u ++ back) = shape u ∧ shape u ≤ u.length

theorem StaysWithin.partition_append (h : StaysWithin shape front back) :
    partition shape (front ++ back) = partition shape front ++ partition shape back := by
  induction hlength : front.length using Nat.strong_induction_on generalizing front with
  | _ length ih =>
    cases front with
    | nil => rfl
    | cons c cs =>
      have hrest : ∀ n, 0 < n → partition shape ((c :: cs).drop n ++ back) =
          partition shape ((c :: cs).drop n) ++ partition shape back := by
        intro n hn
        refine ih _ ?_ (fun u hu => h u (hu.trans (List.drop_suffix n _))) rfl
        rw [List.length_drop]
        simp only [List.length_cons] at hlength ⊢
        omega
      obtain ⟨hsame, hle⟩ := h (c :: cs) List.suffix_rfl (by simp)
      rw [List.cons_append] at hsame
      rw [List.cons_append, partition_cons, partition_cons c cs, hsame]
      cases hn : shape (c :: cs) with
      | zero => exact congrArg (Part.kept c :: ·) (hrest 1 Nat.one_pos)
      | succ n =>
        have htake : (c :: cs ++ back).take (n + 1) = (c :: cs).take (n + 1) :=
          List.take_append_of_le_length (hn ▸ hle)
        have hdrop : (c :: cs ++ back).drop (n + 1) = (c :: cs).drop (n + 1) ++ back :=
          List.drop_append_of_le_length (hn ▸ hle)
        rw [List.cons_append] at htake hdrop
        simp only [htake, hdrop]
        exact congrArg (Part.piece ((c :: cs).take (n + 1)) :: ·) (hrest (n + 1) n.succ_pos)

/-- Characters at which no piece begins are kept. -/
theorem partition_append_of_forall (h : ∀ c ∈ separator, ∀ cs, shape (c :: cs) = 0) :
    partition shape (separator ++ back) = separator.map .kept ++ partition shape back := by
  induction separator with
  | nil => rfl
  | cons c cs ih =>
    obtain ⟨hc, hcs⟩ := List.forall_mem_cons.1 h
    rw [List.cons_append, partition_cons, hc]
    exact congrArg (Part.kept c :: ·) (ih hcs)

/-- The pieces of a shape in a text end in front of a separator, and none begins in it. -/
structure IsCutBy (shape : List Char → Nat) (front separator : List Char) : Prop where
  staysWithin : ∀ back, StaysWithin shape front (separator ++ back)
  begins_not : ∀ c ∈ separator, ∀ cs, shape (c :: cs) = 0

namespace IsCutBy

theorem partition_eq (h : IsCutBy shape front separator) (back : List Char) :
    partition shape (front ++ (separator ++ back)) =
      partition shape front ++ (separator.map .kept ++ partition shape back) := by
  rw [(h.staysWithin back).partition_append, partition_append_of_forall h.begins_not]

theorem pieces_eq (h : IsCutBy shape front separator) (back : List Char) :
    pieces shape (front ++ (separator ++ back)) = pieces shape front ++ pieces shape back := by
  have hkept : (separator.map Part.kept).filterMap (·.piece?) = [] := by
    simp [List.filterMap_map, Part.piece?]
  simp only [pieces_eq_partition, h.partition_eq, List.filterMap_append, hkept, List.nil_append]

theorem without_eq (h : IsCutBy shape front separator) (back : List Char) :
    without shape (front ++ (separator ++ back)) =
      without shape front ++ (separator ++ without shape back) := by
  have hkept : (separator.map Part.kept).flatMap (·.replaced fun _ => []) = separator := by
    simp [List.flatMap_map, Part.replaced]
  simp only [without_eq_partition, h.partition_eq, List.flatMap_append, hkept]

end IsCutBy

/-- A run of characters ends where a character does not belong to it. -/
theorem takeWhile_append_stop {p : Char → Bool} {x : Char} (hx : p x = false)
    (cs rest : List Char) : (cs ++ x :: rest).takeWhile p = cs.takeWhile p := by
  rw [List.takeWhile_append, List.takeWhile_cons, hx]
  split
  · next hlength =>
    rw [(List.takeWhile_prefix p).eq_of_length hlength]
    simp
  · rfl

/-- A suffix of two texts lies in the second, or begins in the first. -/
theorem suffix_append_cases {u : List Char} (h : u <:+ front ++ back) :
    u <:+ back ∨ ∃ v, v <:+ front ∧ u = v ++ back := by
  obtain ⟨w, hw⟩ := h
  rcases List.append_eq_append_iff.1 hw with ⟨v, rfl, rfl⟩ | ⟨v, rfl, rfl⟩
  · exact .inr ⟨v, ⟨w, rfl⟩, rfl⟩
  · exact .inl ⟨v, rfl⟩

end Text

/-! ## 2. The rounds of a specificity -/

namespace Specificity

open Text

/-- Specificities are added count by count. -/
instance : Add Specificity :=
  ⟨fun a b => ⟨a.ids + b.ids, a.classes + b.classes, a.elements + b.elements⟩⟩

theorem mk_add_mk (a b c d e f : Nat) :
    (⟨a, b, c⟩ + ⟨d, e, f⟩ : Specificity) = ⟨a + d, b + e, c + f⟩ := rfl

/-- The signs that a separator is made of. -/
def separatorSigns : List Char := [' ', '>', '+', '~', ',']

/-- What stands between two selectors: signs, and a blank at the end. -/
def IsSeparator (separator : List Char) : Prop :=
  (∀ c ∈ separator, c ∈ separatorSigns) ∧ separator.getLast? = some ' '

/-- Nothing begins with one of these signs and no name goes on over it. -/
theorem separatorSigns_spec : ∀ c ∈ separatorSigns, isNameChar c = false ∧
    isAsciiLetter c = false ∧ c ∉ ['[', ':', '#', '.', '('] :=
  List.all_iff_forall_prop.1 (by decide)

/-- A text in which every bracket of an attribute is closed, and which has no bracket of an argument
outside of attributes. -/
structure IsSealed (cs : List Char) : Prop where
  closed : ∀ u, '[' :: u <:+ cs → ']' ∈ u
  bare : '(' ∉ without attributeExtent cs

variable {front separator back u rest : List Char} {x : Char}

theorem attributeExtent_le_length (u : List Char) : attributeExtent u ≤ u.length := by
  unfold attributeExtent
  split
  · next cs =>
    dsimp only
    split
    · exact Nat.zero_le _
    · next hmore =>
      rw [List.isEmpty_iff, List.drop_eq_nil_iff, Nat.not_le] at hmore
      simp only [List.length_cons]
      omega
  · exact Nat.zero_le _

theorem staysWithin_attribute (h : ∀ u, '[' :: u <:+ front → ']' ∈ u) (back : List Char) :
    StaysWithin attributeExtent front back := by
  intro u hu hne
  refine ⟨?_, attributeExtent_le_length u⟩
  cases u with
  | nil => exact absurd rfl hne
  | cons c cs =>
    by_cases hc : c = '['
    · subst hc
      have hmem := h cs hu
      -- the run up to the closing bracket is over before the text ends
      have hrun : (cs ++ back).takeWhile (· != ']') = cs.takeWhile (· != ']') := by
        obtain ⟨a, b, rfl⟩ := List.append_of_mem hmem
        rw [List.append_assoc, List.cons_append, takeWhile_append_stop (by simp),
          takeWhile_append_stop (by simp)]
      have hlength : (cs.takeWhile (· != ']')).length < cs.length := by
        obtain ⟨a, b, rfl⟩ := List.append_of_mem hmem
        have hle := (List.takeWhile_prefix (· != ']') (l := a)).length_le
        rw [takeWhile_append_stop (by simp), List.length_append, List.length_cons]
        omega
      simp only [List.cons_append, attributeExtent, hrun, List.isEmpty_iff, List.drop_eq_nil_iff,
        List.length_append]
      rw [if_neg (by omega), if_neg (by omega)]
    · simp [attributeExtent, hc]

theorem startsWith_append_stop {sign : List Char} (hx : x ∉ sign) (u rest : List Char) :
    startsWith sign (u ++ x :: rest) = startsWith sign u := by
  rw [Bool.eq_iff_iff, startsWith, startsWith, List.isPrefixOf_iff_prefix,
    List.isPrefixOf_iff_prefix]
  refine ⟨fun h => ?_, fun h => h.trans (List.prefix_append u _)⟩
  have hother : u ++ [x] <+: u ++ x :: rest := ⟨rest, by simp⟩
  rcases List.prefix_or_prefix_of_prefix h hother with hshort | hlong
  · rcases List.prefix_concat_iff.1 hshort with rfl | hu
    · simp at hx
    · exact hu
  · exact absurd (hlong.subset (by simp)) hx

theorem namedExtent_append_stop {sign : List Char} (hname : isNameChar x = false) (hx : x ∉ sign)
    (u rest : List Char) : namedExtent sign (u ++ x :: rest) = namedExtent sign u := by
  simp only [namedExtent, startsWith_append_stop hx]
  cases hstart : startsWith sign u with
  | false => rfl
  | true =>
    obtain ⟨w, rfl⟩ := List.isPrefixOf_iff_prefix.1 hstart
    rw [List.append_assoc, List.drop_left, List.drop_left, takeWhile_append_stop hname]

theorem namedExtent_le_length (sign u : List Char) : namedExtent sign u ≤ u.length := by
  unfold namedExtent
  dsimp only
  split
  · next h =>
    obtain ⟨hstart, -⟩ := Bool.and_eq_true_iff.1 h
    obtain ⟨w, rfl⟩ := List.isPrefixOf_iff_prefix.1 hstart
    rw [List.drop_left, List.length_append]
    exact Nat.add_le_add_left (List.takeWhile_prefix _).length_le _
  · exact Nat.zero_le _

theorem namedExtent_cons_of_ne {c s : Char} (h : c ≠ s) (sign cs : List Char) :
    namedExtent (s :: sign) (c :: cs) = 0 := by
  simp [namedExtent, startsWith, List.isPrefixOf, h.symm]

/-- Where no bracket follows its name, a pseudo-class is its name. -/
theorem pseudoClassExtent_eq {cs : List Char}
    (h : (cs.drop (namedExtent [':'] cs)).head? ≠ some '(') :
    pseudoClassExtent cs = namedExtent [':'] cs := by
  unfold pseudoClassExtent
  dsimp only
  split
  · next hzero => exact hzero.symm
  · split
    · next hopen => simp [hopen] at h
    · rfl

theorem pseudoClassExtent_append_stop (hname : isNameChar x = false) (hx : x ∉ [':', '('])
    (hu : '(' ∉ u) (rest : List Char) :
    pseudoClassExtent (u ++ x :: rest) = namedExtent [':'] u ∧
      pseudoClassExtent u = namedExtent [':'] u := by
  obtain ⟨hcolon, hbracket⟩ : x ≠ ':' ∧ x ≠ '(' := by simpa using hx
  have hsame : namedExtent [':'] (u ++ x :: rest) = namedExtent [':'] u :=
    namedExtent_append_stop hname (by simpa using hcolon) u rest
  have hopen : ∀ n, (u.drop n).head? ≠ some '(' := fun n h =>
    hu (List.mem_of_mem_drop (List.mem_of_head? h))
  refine ⟨?_, pseudoClassExtent_eq (hopen _)⟩
  rw [← hsame]
  refine pseudoClassExtent_eq ?_
  rw [hsame, List.drop_append_of_le_length (namedExtent_le_length _ u), List.head?_append]
  cases hhead : (u.drop (namedExtent [':'] u)).head? with
  | none => simpa using hbracket
  | some c =>
    rintro h
    exact hopen _ (hhead.trans h)

section Separator

variable (hseparator : IsSeparator separator)

include hseparator

theorem IsSeparator.exists_cons : ∃ x rest, separator = x :: rest ∧ x ∈ separatorSigns := by
  obtain ⟨hsigns, hlast⟩ := hseparator
  cases separator with
  | nil => simp at hlast
  | cons x rest => exact ⟨x, rest, rfl, hsigns x List.mem_cons_self⟩

theorem IsSeparator.isCutBy_attribute (h : ∀ u, '[' :: u <:+ front → ']' ∈ u) :
    IsCutBy attributeExtent front separator := by
  refine ⟨fun back => staysWithin_attribute h _, fun c hc cs => ?_⟩
  obtain ⟨-, -, hnot⟩ := separatorSigns_spec c (hseparator.1 c hc)
  have hbracket : c ≠ '[' := by
    rintro rfl
    simp at hnot
  simp [attributeExtent, hbracket]

/-- A separator ends every name. -/
theorem IsSeparator.isCutBy_named {s : Char} {sign : List Char}
    (hsign : ∀ c ∈ s :: sign, c ∈ [':', '#', '.']) (front : List Char) :
    IsCutBy (namedExtent (s :: sign)) front separator := by
  have hnot : ∀ c ∈ separatorSigns, c ∉ s :: sign := by
    intro c hc hmem
    obtain ⟨-, -, hother⟩ := separatorSigns_spec c hc
    have hsigns := hsign c hmem
    simp only [List.mem_cons, List.not_mem_nil, or_false] at hsigns hother
    tauto
  constructor
  · intro back u _ _
    obtain ⟨x, rest, rfl, hx⟩ := hseparator.exists_cons
    exact ⟨namedExtent_append_stop (separatorSigns_spec x hx).1 (hnot x hx) u _,
      namedExtent_le_length _ u⟩
  · intro c hc cs
    exact namedExtent_cons_of_ne (fun h => hnot c (hseparator.1 c hc) (by simp [h])) sign cs

theorem IsSeparator.isCutBy_pseudoClass (h : '(' ∉ front) :
    IsCutBy pseudoClassExtent front separator := by
  constructor
  · intro back u hu _
    obtain ⟨x, rest, rfl, hx⟩ := hseparator.exists_cons
    obtain ⟨hname, -, hnot⟩ := separatorSigns_spec x hx
    obtain ⟨happend, halone⟩ := pseudoClassExtent_append_stop hname
      (fun hmem => hnot (by simp at hmem ⊢; tauto)) (fun hmem => h (hu.subset hmem)) (rest ++ back)
    exact ⟨happend.trans halone.symm, halone ▸ namedExtent_le_length _ u⟩
  · intro c hc cs
    obtain ⟨-, -, hnot⟩ := separatorSigns_spec c (hseparator.1 c hc)
    have hzero : namedExtent [':'] (c :: cs) = 0 :=
      namedExtent_cons_of_ne (by rintro rfl; simp at hnot) [] cs
    simp [pseudoClassExtent, hzero]

/-! ### Elements -/

omit hseparator in
theorem elementNameExtent_append_stop (hx : isNameChar x = false)
    (hletter : isAsciiLetter x = false) (u rest : List Char) :
    elementNameExtent (u ++ x :: rest) = elementNameExtent u := by
  cases u with
  | nil => simp [elementNameExtent, hletter]
  | cons c cs => simp only [List.cons_append, elementNameExtent, takeWhile_append_stop hx]

omit hseparator in
theorem elementNameExtent_le_length (u : List Char) : elementNameExtent u ≤ u.length := by
  unfold elementNameExtent
  split
  · exact Nat.zero_le _
  · next c cs =>
    split
    · have hle := (List.takeWhile_prefix isNameChar (l := cs)).length_le
      rw [List.length_cons]
      omega
    · exact Nat.zero_le _

omit hseparator in
theorem staysWithin_element (hx : isNameChar x = false) (hletter : isAsciiLetter x = false)
    (front rest : List Char) : StaysWithin elementExtent front (x :: rest) := by
  intro u _ _
  cases u with
  | nil => contradiction
  | cons c cs =>
    have hle := elementNameExtent_le_length cs
    simp only [List.cons_append, elementExtent, elementNameExtent_append_stop hx hletter]
    refine ⟨trivial, ?_⟩
    split
    · rw [List.length_cons]
      omega
    · exact Nat.zero_le _

/-- Behind a separator an element is found where it stands at the front of a text. -/
theorem IsSeparator.length_pieces_element (back : List Char) :
    (pieces elementExtent (separator ++ back)).length = countElements back := by
  obtain ⟨hsigns, hlast⟩ := hseparator
  induction separator with
  | nil => simp at hlast
  | cons c cs ih =>
    cases cs with
    | nil =>
      obtain rfl : c = ' ' := by simpa using hlast
      have hblank : precedesElement ' ' = true := by decide
      rw [List.cons_append, List.nil_append, countElements]
      by_cases hfront : elementNameExtent back = 0
      · rw [pieces_of_eq_zero (by simp [elementExtent, hfront])]
        simp [hfront]
      · rw [pieces_of_eq_succ (n := elementNameExtent back)
          (by simp [elementExtent, hblank, hfront, Nat.add_comm])]
        simp [hfront, Nat.add_comm]
    | cons d ds =>
      obtain ⟨-, hcs⟩ := List.forall_mem_cons.1 hsigns
      obtain ⟨hname, hletter, -⟩ := separatorSigns_spec d (hcs d List.mem_cons_self)
      have hzero : elementNameExtent (d :: (ds ++ back)) = 0 :=
        elementNameExtent_append_stop hname hletter [] _
      rw [List.cons_append, List.cons_append, pieces_of_eq_zero (by simp [elementExtent, hzero])]
      exact ih hcs (by simpa using hlast)

theorem IsSeparator.countElements_eq (front back : List Char) :
    countElements (front ++ (separator ++ back)) = countElements front + countElements back := by
  have hback := hseparator.length_pieces_element back
  obtain ⟨x, rest, rfl, hx⟩ := hseparator.exists_cons
  obtain ⟨hname, hletter, -⟩ := separatorSigns_spec x hx
  have hpieces := (staysWithin_element hname hletter
    (front.drop (elementNameExtent front)) (rest ++ back)).partition_append
  rw [List.cons_append] at hback ⊢
  rw [countElements, countElements.eq_1 front, elementNameExtent_append_stop hname hletter,
    List.drop_append_of_le_length (elementNameExtent_le_length front), pieces_eq_partition, hpieces,
    List.filterMap_append, ← pieces_eq_partition, ← pieces_eq_partition, List.length_append, hback]
  omega

end Separator

/-! ## 3. Texts in a row -/

/-- The rounds of a specificity. -/
theorem ofText_eq (s : String) : ofText s =
    let a := without attributeExtent s.toList
    let p := without pseudoElementExtent a
    let q := without pseudoClassExtent p
    ⟨(pieces idExtent q).length,
      (pieces classExtent q).length + (pieces attributeExtent s.toList).length +
        (pieces pseudoClassExtent p).length,
      countElements q + (pieces pseudoElementExtent a).length⟩ := rfl

/-- The specificity of two texts with a separator between them is the sum of theirs, if nothing is
left open in the first. -/
theorem ofText_append {front separator back : String} (hfront : IsSealed front.toList)
    (hseparator : IsSeparator separator.toList) :
    ofText (front ++ separator ++ back) = ofText front + ofText back := by
  have hattribute := hseparator.isCutBy_attribute hfront.closed
  have hbare := hfront.bare
  simp only [ofText_eq, String.toList_append, List.append_assoc, hattribute.without_eq,
    hattribute.pieces_eq]
  -- each round leaves a text of which the next one only has to know that no bracket is in it
  generalize without attributeExtent front.toList = a at hbare ⊢
  have hpseudoElement : IsCutBy pseudoElementExtent a separator.toList :=
    hseparator.isCutBy_named (by simp) a
  replace hbare : '(' ∉ without pseudoElementExtent a :=
    fun h => hbare ((sublist_without a).subset h)
  simp only [hpseudoElement.without_eq, hpseudoElement.pieces_eq]
  generalize without pseudoElementExtent a = p at hbare ⊢
  have hpseudoClass := hseparator.isCutBy_pseudoClass hbare
  simp only [hpseudoClass.without_eq, hpseudoClass.pieces_eq]
  generalize without pseudoClassExtent p = q
  have hid : IsCutBy idExtent q separator.toList := hseparator.isCutBy_named (by simp) q
  have hclass : IsCutBy classExtent q separator.toList := hseparator.isCutBy_named (by simp) q
  simp only [hid.pieces_eq, hclass.pieces_eq, hseparator.countElements_eq, List.length_append,
    mk_add_mk, mk.injEq]
  refine ⟨trivial, ?_, ?_⟩
  · omega
  · omega

/-! ## 4. Sealed texts -/

namespace IsSealed

theorem of_not_mem {cs : List Char} (hbracket : '[' ∉ cs) (hopen : '(' ∉ cs) : IsSealed cs where
  closed _ hu := absurd (hu.subset List.mem_cons_self) hbracket
  bare h := hopen ((sublist_without cs).subset h)

theorem append {cs ds : List Char} (hcs : IsSealed cs) (hds : IsSealed ds) :
    IsSealed (cs ++ ds) where
  closed u hu := by
    rcases suffix_append_cases hu with hu | ⟨v, hv, hsplit⟩
    · exact hds.closed u hu
    · cases v with
      | nil => exact hds.closed u ⟨[], by simpa using hsplit⟩
      | cons c v =>
        obtain ⟨rfl, rfl⟩ : '[' = c ∧ u = v ++ ds := by simpa using hsplit
        exact List.mem_append_left ds (hcs.closed v hv)
  bare := by
    rw [without_eq_partition, (staysWithin_attribute hcs.closed ds).partition_append,
      List.flatMap_append, ← without_eq_partition, ← without_eq_partition, List.mem_append]
    exact not_or.2 ⟨hcs.bare, hds.bare⟩

/-- An attribute is a piece as a whole. -/
theorem bracketed {inner : List Char} (h : ']' ∉ inner) : IsSealed ('[' :: (inner ++ [']'])) where
  closed u hu := by
    rcases List.eq_nil_or_concat u with rfl | ⟨v, c, rfl⟩
    · have hlast := hu.getLast (by simp)
      simp at hlast
    · have hlast := hu.getLast (by simp)
      simp at hlast
      simp [hlast]
  bare := by
    have hall : ∀ c ∈ inner, (c != ']') = true := by
      intro c hc
      simpa using fun hclose : c = ']' => h (hclose ▸ hc)
    have hextent : attributeExtent ('[' :: (inner ++ [']'])) =
        ('[' :: (inner ++ [']'])).length := by
      simp only [attributeExtent, List.takeWhile_append_of_pos hall]
      simp
    have hpartition : partition attributeExtent ('[' :: (inner ++ [']']) ++ []) = _ :=
      partition_piece_append [] (by simpa using hextent) (List.cons_ne_nil '[' (inner ++ [']']))
    rw [List.append_nil] at hpartition
    rw [without_eq_partition, hpartition]
    simp [Part.replaced, partition, partitionFrom]

end IsSealed

end Specificity

/-! ## 5. Definitions with plain names -/

namespace Selector

open Text Specificity

/-- A letter, and then letters, digits, underscores and hyphens. -/
def isPlainName : Json → Bool
  | .text s =>
    match s.toList with
    | [] => false
    | c :: cs => isAsciiLetter c && cs.all isNameChar
  | _ => false

/-- An attribute with a plain name, an operator and a flag of the source language, and a value
without a closing bracket. -/
structure IsPlainAttribute (name value operator flag : Json) : Prop where
  name : isPlainName name = true
  value : value ≠ .null → ∃ v, value = .text v ∧ ']' ∉ v.toList
  operator : operator ≠ .null → ∃ o ∈ attributeOperators, operator = .text o
  flag : flag ≠ .null → ∃ f, flag = .text f ∧ lower f ∈ attributeFlags

mutual

/-- All names in a definition are plain, and so are its attributes. -/
def IsPlainlyNamed : Selector → Prop
  | element v | cls v | id v | pseudo v | pseudoElement v => isPlainName v = true
  | reference name => isPlainName name = true
  | attr name value operator flag => IsPlainAttribute name value operator flag
  | and parts | or parts => ArePlainlyNamed parts
  | child l r | descendant l r | join _ l r => IsPlainlyNamed l ∧ IsPlainlyNamed r

/-- All names in some definitions are plain. -/
def ArePlainlyNamed : List Selector → Prop
  | [] => True
  | s :: ss => IsPlainlyNamed s ∧ ArePlainlyNamed ss

end

/-- The definitions that the text of one is made of: itself, and those that references lead to. -/
inductive Uses (definitions : Table Json Selector) (s : Selector) : Selector → Prop
  | self : Uses definitions s s
  | target {t target : Selector} {name : Json} (h : Uses definitions s t)
      (hname : name ∈ t.references) (htarget : definitions.get? name = some target) :
      Uses definitions s target

/-- A name is written without brackets. -/
theorem not_mem_shown {v : Json} (h : isPlainName v = true) {x : Char}
    (hx : isNameChar x = false) : x ∉ v.shown.toList := by
  cases v with
  | text s =>
    rw [Json.shown_text]
    unfold isPlainName at h
    dsimp only at h
    split at h
    · simp at h
    · next c cs hcs =>
      rw [hcs]
      simp only [Bool.and_eq_true, List.all_eq_true] at h
      intro hmem
      rcases List.mem_cons.1 hmem with rfl | hmem
      · simp [isNameChar, h.1] at hx
      · simp [h.2 x hmem] at hx
  | _ => simp [isPlainName] at h

theorem isSealed_shown {v : Json} (h : isPlainName v = true) (sign : String)
    (hsign : '[' ∉ sign.toList ∧ '(' ∉ sign.toList) : IsSealed (sign ++ v.shown).toList := by
  rw [String.toList_append]
  exact (IsSealed.of_not_mem hsign.1 hsign.2).append
    (.of_not_mem (not_mem_shown h rfl) (not_mem_shown h rfl))

theorem isSealed_renderAttr {name value operator flag : Json}
    (h : IsPlainAttribute name value operator flag) :
    IsSealed (renderAttr name value operator flag).toList := by
  have hname := not_mem_shown h.name (x := ']') rfl
  unfold renderAttr
  split
  · simpa [String.toList_append] using IsSealed.bracketed hname
  · next hvalue =>
    obtain ⟨v, rfl, hv⟩ := h.value (by rintro rfl; simp [Json.isNull] at hvalue)
    have hoperator : ']' ∉ (operator.orElse (.text "=")).shown.toList := by
      by_cases hnull : operator = .null
      · rw [hnull]
        decide
      · obtain ⟨o, ho, rfl⟩ := h.operator hnull
        have hall : ∀ o ∈ attributeOperators,
            ']' ∉ ((Json.text o).orElse (.text "=")).shown.toList := by decide
        exact hall o ho
    have hflag : ']' ∉ flag.shown.toList := by
      by_cases hnull : flag = .null
      · rw [hnull]
        decide
      · obtain ⟨f, rfl, hf⟩ := h.flag hnull
        have hall : ∀ f ∈ attributeFlags, ']' ∉ f.toList := by decide
        intro hmem
        refine hall _ hf ?_
        simp only [lower, String.toList_ofList]
        exact List.mem_map.2 ⟨']', hmem, by decide⟩
    have hinner : ']' ∉ name.shown.toList ++ ((operator.orElse (.text "=")).shown.toList ++
        ('"' :: (v.toList ++ ('"' ::
          (if flag.isTrue then " " ++ flag.shown else "").toList)))) := by
      simp only [List.mem_append, List.mem_cons, not_or]
      refine ⟨hname, hoperator, by decide, hv, by decide, ?_⟩
      split
      · simpa [String.toList_append] using hflag
      · simp
    simpa [String.toList_append] using IsSealed.bracketed hinner

theorem isSealed_intercalate {separator : String} (hseparator : IsSealed separator.toList) :
    ∀ {xs : List String}, (∀ x ∈ xs, IsSealed x.toList) →
      IsSealed (separator.intercalate xs).toList
  | [], _ => by
    have hempty : IsSealed [] := .of_not_mem List.not_mem_nil List.not_mem_nil
    simpa using hempty
  | [x], h => by simpa using h
  | x :: y :: ys, h => by
    obtain ⟨hx, hxs⟩ := List.forall_mem_cons.1 h
    rw [String.intercalate_cons_cons, String.toList_append, String.toList_append]
    exact (hx.append hseparator).append (isSealed_intercalate hseparator hxs)

theorem isSealed_separator (kind : JoinKind) : IsSealed kind.separator.toList := by
  cases kind <;> exact .of_not_mem (by decide) (by decide)

mutual

/-- The text of a plainly named definition is sealed, if what its references stand for is. -/
theorem isSealed_render {text : Json → String} : ∀ {s : Selector}, s.IsPlainlyNamed →
    (∀ name ∈ s.references, IsSealed (text name).toList) → IsSealed (s.render text).toList
  | element v, h, _ => by simpa [render] using isSealed_shown h "" (by decide)
  | cls v, h, _ => isSealed_shown h "." (by decide)
  | id v, h, _ => isSealed_shown h "#" (by decide)
  | pseudo v, h, _ => isSealed_shown h ":" (by decide)
  | pseudoElement v, h, _ => isSealed_shown h "::" (by decide)
  | attr .., h, _ => isSealed_renderAttr h
  | .reference name, _, href => href name (List.mem_singleton_self name)
  | and parts, h, href =>
    isSealed_intercalate (.of_not_mem (by decide) (by decide)) (isSealed_renderParts h href)
  | or parts, h, href =>
    isSealed_intercalate (.of_not_mem (by decide) (by decide)) (isSealed_renderParts h href)
  | child l r, h, href => by
    obtain ⟨hl, hr⟩ := List.forall_mem_append.1 href
    rw [render, String.toList_append, String.toList_append]
    exact ((isSealed_render h.1 hl).append (isSealed_separator .child)).append
      (isSealed_render h.2 hr)
  | descendant l r, h, href => by
    obtain ⟨hl, hr⟩ := List.forall_mem_append.1 href
    rw [render, String.toList_append, String.toList_append]
    exact ((isSealed_render h.1 hl).append (isSealed_separator .desc)).append
      (isSealed_render h.2 hr)
  | join kind l r, h, href => by
    obtain ⟨hl, hr⟩ := List.forall_mem_append.1 href
    rw [render, String.toList_append, String.toList_append]
    exact ((isSealed_render h.1 hl).append (isSealed_separator kind)).append
      (isSealed_render h.2 hr)

theorem isSealed_renderParts {text : Json → String} : ∀ {ss : List Selector}, ArePlainlyNamed ss →
    (∀ name ∈ referencesOf ss, IsSealed (text name).toList) →
      ∀ x ∈ renderParts text ss, IsSealed x.toList
  | [], _, _ => by simp [renderParts]
  | s :: ss, h, href => by
    obtain ⟨hs, hss⟩ := List.forall_mem_append.1 href
    rw [renderParts, List.forall_mem_cons]
    exact ⟨isSealed_render h.1 hs, isSealed_renderParts h.2 hss⟩

end

mutual

theorem isPlainName_of_mem_references : ∀ {s : Selector}, s.IsPlainlyNamed →
    ∀ name ∈ s.references, isPlainName name = true
  | element _, _ | cls _, _ | id _, _ | pseudo _, _ | pseudoElement _, _ | attr .., _ => by
    simp [references]
  | .reference name, h => by
    simp only [references, List.mem_singleton, forall_eq]
    exact h
  | and _, h | or _, h => isPlainName_of_mem_referencesOf h
  | child _ _, h | descendant _ _, h | join _ _ _, h =>
    List.forall_mem_append.2 ⟨isPlainName_of_mem_references h.1, isPlainName_of_mem_references h.2⟩

theorem isPlainName_of_mem_referencesOf : ∀ {ss : List Selector}, ArePlainlyNamed ss →
    ∀ name ∈ referencesOf ss, isPlainName name = true
  | [], _ => by simp [referencesOf]
  | _ :: _, h => List.forall_mem_append.2
    ⟨isPlainName_of_mem_references h.1, isPlainName_of_mem_referencesOf h.2⟩

end

/-- A smaller table leads nowhere else. -/
theorem Uses.of_erase {definitions : Table Json Selector} {name : Json} {s t : Selector}
    (h : Uses (definitions.erase name) s t) : Uses definitions s t := by
  induction h with
  | self => exact .self
  | target _ hname htarget ih =>
    refine ih.target hname ?_
    rw [get?_erase] at htarget
    split at htarget
    · simp at htarget
    · exact htarget

/-- What a definition uses is used by those that refer to it. -/
theorem Uses.of_target {definitions : Table Json Selector} {s target t : Selector} {name : Json}
    (hname : name ∈ s.references) (htarget : definitions.get? name = some target)
    (h : Uses definitions target t) : Uses definitions s t := by
  induction h with
  | self => exact .target .self hname htarget
  | target _ hn ht ih => exact ih.target hn ht

theorem isSealed_resolveWithin {depth : Nat} {definitions : Table Json Selector} {s : Selector}
    (h : ∀ t, Uses definitions s t → t.IsPlainlyNamed) :
    IsSealed (resolveWithin depth definitions s).toList := by
  have hclass : ∀ name ∈ s.references, IsSealed (asClass name).toList := fun name hname =>
    isSealed_shown (isPlainName_of_mem_references (h s .self) name hname) "." (by decide)
  induction depth generalizing definitions s with
  | zero => exact isSealed_render (h s .self) hclass
  | succ depth ih =>
    refine isSealed_render (h s .self) fun name hname => ?_
    cases htarget : definitions.get? name with
    | none => exact hclass name hname
    | some target =>
      have hsmaller : ∀ t, Uses (definitions.erase name) target t → t.IsPlainlyNamed :=
        fun t ht => h t (.of_target hname htarget ht.of_erase)
      exact ih hsmaller fun n hn => isSealed_shown
        (isPlainName_of_mem_references (hsmaller target .self) n hn) "." (by decide)

/-! ## 6. Specificities of combined definitions -/

/-- All definitions are written with the same text for each name. -/
theorem exists_resolve_eq_render (definitions : Table Json Selector) :
    ∃ text, ∀ s, resolve definitions s = s.render text := by
  unfold resolve
  cases definitions.size with
  | zero => exact ⟨asClass, fun _ => rfl⟩
  | succ depth => exact ⟨_, fun _ => rfl⟩

theorem isSeparator_of_ne {kind : JoinKind} (h : kind ≠ .and) :
    IsSeparator kind.separator.toList := by
  cases kind with
  | and => exact absurd rfl h
  | desc | child | adj | sib => exact ⟨List.all_iff_forall_prop.1 (by decide), rfl⟩

/-- The specificity of a child, a descendant, a list of two and two definitions joined otherwise
than on one element is the sum of the specificities of the two sides, if all names in the first are
plain, and all in the definitions that its references lead to. The second may be any. -/
theorem specificity_eq_add {definitions : Table Json Selector} {l : Selector}
    (hl : ∀ t, Uses definitions l t → t.IsPlainlyNamed) (r : Selector) :
    Specificity.ofText (resolve definitions (child l r)) =
      Specificity.ofText (resolve definitions l) + Specificity.ofText (resolve definitions r) ∧
    Specificity.ofText (resolve definitions (descendant l r)) =
      Specificity.ofText (resolve definitions l) + Specificity.ofText (resolve definitions r) ∧
    Specificity.ofText (resolve definitions (or [l, r])) =
      Specificity.ofText (resolve definitions l) + Specificity.ofText (resolve definitions r) ∧
    ∀ kind, kind ≠ .and → Specificity.ofText (resolve definitions (join kind l r)) =
      Specificity.ofText (resolve definitions l) + Specificity.ofText (resolve definitions r) := by
  have hsealed : IsSealed (resolve definitions l).toList := isSealed_resolveWithin hl
  obtain ⟨text, htext⟩ := exists_resolve_eq_render definitions
  simp only [htext] at hsealed ⊢
  refine ⟨?_, ?_, ?_, fun kind hkind => ?_⟩
  · have hchild : JoinKind.child ≠ .and := nofun
    exact Specificity.ofText_append hsealed (isSeparator_of_ne hchild)
  · have hdescendant : JoinKind.desc ≠ .and := nofun
    exact Specificity.ofText_append hsealed (isSeparator_of_ne hdescendant)
  · have hlist : (or [l, r]).render text = l.render text ++ ", " ++ r.render text := by
      simp [render, renderParts]
    rw [hlist]
    exact Specificity.ofText_append hsealed ⟨List.all_iff_forall_prop.1 (by decide), rfl⟩
  · exact Specificity.ofText_append hsealed (isSeparator_of_ne hkind)

/-- A link as a definition of its own. -/
def hoveredLink : Selector :=
  and [element (.text "a"), attr (.text "href") (.text "x[(y") (.text "^=") (.text "I"),
    pseudo (.text "hover")]

theorem specificity_eq_add_hoveredLink :
    let definitions : Table Json Selector := ⟨[(.text "link", hoveredLink)]⟩
    let l := and [reference (.text "link"), pseudoElement (.text "before")]
    let r := join .adj (id (.text "main")) (reference (.text "missing"))
    (∀ t, Uses definitions l t → t.IsPlainlyNamed) ∧
      resolve definitions (child l r) =
        "a[href^=\"x[(y\" I]:hover::before > #main + .missing" ∧
      Specificity.ofText (resolve definitions l) = ⟨0, 2, 2⟩ ∧
      Specificity.ofText (resolve definitions r) = ⟨1, 1, 0⟩ ∧
      Specificity.ofText (resolve definitions (child l r)) =
        Specificity.ofText (resolve definitions l) +
          Specificity.ofText (resolve definitions r) := by
  intro definitions l r
  have hattribute : IsPlainAttribute (.text "href") (.text "x[(y") (.text "^=") (.text "I") :=
    { name := by decide
      value := fun _ => ⟨_, rfl, by decide⟩
      operator := fun _ => ⟨_, by decide, rfl⟩
      flag := fun _ => ⟨_, rfl, by decide⟩ }
  have hlink : hoveredLink.IsPlainlyNamed :=
    ⟨show isPlainName _ = true by decide, hattribute, show isPlainName _ = true by decide, trivial⟩
  have hleft : l.IsPlainlyNamed :=
    ⟨show isPlainName _ = true by decide, show isPlainName _ = true by decide, trivial⟩
  have hl : ∀ t, Uses definitions l t → t.IsPlainlyNamed := by
    intro t ht
    induction ht with
    | self => exact hleft
    | @target t target name _ _ htarget _ =>
      obtain ⟨_, -, hmem⟩ := Table.lookup_mem htarget
      obtain ⟨-, rfl⟩ := Prod.mk.inj (List.mem_singleton.1 hmem)
      exact hlink
  exact ⟨hl, by decide +kernel, by decide +kernel, by decide +kernel, (specificity_eq_add hl r).1⟩

end Selector

end StyleLedger
