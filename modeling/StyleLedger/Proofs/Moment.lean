import Mathlib.Algebra.Order.Ring.Nat
import Mathlib.Data.List.Forall2
import StyleLedger.Moment.Basic

/-!
Stamps stand in the order of their moments.

A stamp is the parts of a moment in digits, the greatest part first. Numbers that are padded to one
width differ first at the first digit in which they differ, so they are in the order of their texts
(`padded_lt_padded`), and so are lists of numbers whose widths are fixed place by place
(`digitsOf_lt_digitsOf`). The year of a stamp is not padded; from the year 1000 on it has its four
digits all the same.

* `Moment.Precedes` — the order of moments by their seconds.
* `Moment.stamp_lt_stamp` — the order of their stamps.
-/

namespace StyleLedger.Moment

/-! ## 1. Numbers of a width -/

section Lexicographic

variable {α : Type} [LT α]

/-- Of two texts of one length the smaller one is smaller whatever follows. -/
theorem append_lt_append {xs ys : List α} (hlength : xs.length = ys.length) (h : xs < ys)
    (as bs : List α) : xs ++ as < ys ++ bs := by
  induction xs generalizing ys with
  | nil =>
    obtain rfl : ys = [] := List.eq_nil_of_length_eq_zero hlength.symm
    exact absurd h (List.not_lt_nil _)
  | cons x xs ih =>
    cases ys with
    | nil => simp at hlength
    | cons y ys =>
      rw [List.cons_append, List.cons_append, List.cons_lt_cons_iff]
      rcases List.cons_lt_cons_iff.1 h with hxy | ⟨rfl, hrest⟩
      · exact .inl hxy
      · exact .inr ⟨rfl, ih (by simpa using hlength) hrest⟩

theorem append_lt_append_left (xs : List α) {as bs : List α} (h : as < bs) :
    xs ++ as < xs ++ bs := by
  induction xs with
  | nil => exact h
  | cons x xs ih =>
    rw [List.cons_append, List.cons_append, List.cons_lt_cons_iff]
    exact .inr ⟨rfl, ih⟩

end Lexicographic

theorem toList_padded (width n : Nat) : (padded width n).toList =
    List.replicate (width - (Nat.toDigits 10 n).length) '0' ++ Nat.toDigits 10 n := by
  simp [padded]

theorem length_padded {width n : Nat} (hwidth : 0 < width) (h : n < 10 ^ width) :
    (padded width n).toList.length = width := by
  have hle := (Nat.length_toDigits_le_iff (by decide) hwidth).2 h
  rw [toList_padded, List.length_append, List.length_replicate]
  omega

theorem isDigit_of_mem_padded {width n : Nat} {c : Char} (h : c ∈ (padded width n).toList) :
    c.isDigit = true := by
  rw [toList_padded, List.mem_append] at h
  rcases h with h | h
  · rw [List.eq_of_mem_replicate h]
    rfl
  · exact Nat.isDigit_of_mem_toDigits (by decide) (by decide) h

/-- The last digit comes off the end. -/
theorem padded_succ {width : Nat} (hwidth : 0 < width) (n : Nat) :
    (padded (width + 1) n).toList =
      (padded width (n / 10)).toList ++ [Nat.digitChar (n % 10)] := by
  rw [toList_padded, toList_padded]
  by_cases hn : n < 10
  · have hdiv : n / 10 = 0 := Nat.div_eq_of_lt hn
    rw [Nat.toDigits_of_lt_base hn, hdiv, Nat.toDigits_zero, Nat.mod_eq_of_lt hn]
    obtain ⟨k, rfl⟩ := Nat.exists_eq_add_of_lt hwidth
    simp [List.replicate_succ']
  · rw [Nat.toDigits_of_base_le (by decide) (Nat.le_of_not_lt hn), List.length_append,
      List.length_singleton, Nat.add_sub_add_right, List.append_assoc]

theorem digitChar_lt : ∀ b < 10, ∀ a < b, Nat.digitChar a < Nat.digitChar b := by
  decide

/-- Numbers of one width are in the order of their texts. -/
theorem padded_lt_padded {width : Nat} (hwidth : 0 < width) {a b : Nat} (hab : a < b)
    (hb : b < 10 ^ width) : (padded width a).toList < (padded width b).toList := by
  induction width generalizing a b with
  | zero => exact absurd hwidth (Nat.lt_irrefl 0)
  | succ width ih =>
    rcases Nat.eq_zero_or_pos width with rfl | hpos
    · rw [Nat.zero_add, Nat.pow_one] at hb
      rw [toList_padded, toList_padded, Nat.toDigits_of_lt_base (Nat.lt_trans hab hb),
        Nat.toDigits_of_lt_base hb]
      exact List.cons_lt_cons_iff.2 (.inl (digitChar_lt b hb a hab))
    · rw [padded_succ hpos, padded_succ hpos]
      rw [Nat.pow_succ] at hb
      have hb' : b / 10 < 10 ^ width := by omega
      by_cases hfront : a / 10 < b / 10
      · refine append_lt_append ?_ (ih hpos hfront hb') _ _
        rw [length_padded hpos (Nat.lt_trans hfront hb'), length_padded hpos hb']
      · have hsame : a / 10 = b / 10 := by omega
        have hlast : a % 10 < b % 10 := by omega
        rw [hsame]
        refine append_lt_append_left _ (List.cons_lt_cons_iff.2 (.inl ?_))
        exact digitChar_lt _ (Nat.mod_lt b (by decide)) _ hlast

/-! ## 2. Parts of a moment -/

/-- The parts of a moment down to the second, the greatest first. -/
def parts (t : Moment) : List Nat :=
  [t.date.year, t.date.month, t.date.day, t.hour, t.minute, t.second]

/-- A moment is at an earlier second than another. -/
def Precedes (t u : Moment) : Prop :=
  t.parts < u.parts

instance (t u : Moment) : Decidable (t.Precedes u) :=
  inferInstanceAs (Decidable (t.parts < u.parts))

/-- A moment is in the calendar, and in a year that has four digits. -/
structure IsStampable (t : Moment) : Prop where
  date : t.date.isValid = true
  year : 1000 ≤ t.date.year
  hour : t.hour < 24
  minute : t.minute < 60
  second : t.second < 60

/-- The number of digits of each part. -/
def widths : List Nat := [4, 2, 2, 2, 2, 2]

/-- A number fits a width. -/
def FitsIn (n width : Nat) : Prop :=
  0 < width ∧ n < 10 ^ width

/-- Numbers in digits, one after the other, each of its width. -/
def digitsOf (ns ws : List Nat) : List Char :=
  (ns.zip ws).flatMap fun (n, w) => (padded w n).toList

variable {ns ms ws : List Nat} {t u : Moment}

theorem length_digitsOf (h : List.Forall₂ FitsIn ns ws) : (digitsOf ns ws).length = ws.sum := by
  induction h with
  | nil => rfl
  | cons hfit _ ih =>
    rw [digitsOf, List.zip_cons_cons, List.flatMap_cons, List.length_append,
      length_padded hfit.1 hfit.2, List.sum_cons]
    exact congrArg _ ih

/-- Lists of numbers are in the order of their digits. -/
theorem digitsOf_lt_digitsOf (hns : List.Forall₂ FitsIn ns ws) (hms : List.Forall₂ FitsIn ms ws)
    (h : ns < ms) : digitsOf ns ws < digitsOf ms ws := by
  induction hns generalizing ms with
  | nil =>
    cases hms
    exact absurd h (List.not_lt_nil _)
  | @cons n w ns ws hn hns ih =>
    obtain ⟨m, ms, hm, hrest, rfl⟩ := List.forall₂_cons_right_iff.1 hms
    show (padded w n).toList ++ digitsOf ns ws < (padded w m).toList ++ digitsOf ms ws
    rcases List.cons_lt_cons_iff.1 h with hlt | ⟨rfl, hlt⟩
    · refine append_lt_append ?_ (padded_lt_padded hn.1 hlt hm.2) _ _
      rw [length_padded hn.1 hn.2, length_padded hm.1 hm.2]
    · exact append_lt_append_left _ (ih hrest hlt)

theorem isDigit_of_mem_stamp {c : Char} (h : c ∈ t.stamp.toList) : c.isDigit = true := by
  rw [stamp, String.toList_join, List.flatMap_cons, List.mem_append, List.mem_flatMap] at h
  rcases h with h | ⟨s, hs, h⟩
  · exact isDigit_of_mem_padded h
  · obtain ⟨n, -, rfl⟩ := List.mem_map.1 hs
    exact isDigit_of_mem_padded h

/-! ## 3. Stamps -/

namespace IsStampable

theorem bounds (h : t.IsStampable) : t.date.month < 100 ∧ t.date.day < 100 := by
  have hdate := h.date
  simp only [Date.isValid, Bool.and_eq_true, decide_eq_true_eq] at hdate
  obtain ⟨⟨⟨-, -⟩, hone⟩, hday⟩ := hdate
  have hshort : ∀ n ∈ Date.monthLengths t.date.year, n ≤ 31 := by
    unfold Date.monthLengths
    split <;> decide
  cases hmonth : (Date.monthLengths t.date.year)[t.date.month - 1]? with
  | none =>
    -- a month that is not there has no days
    rw [hmonth, Option.getD_none] at hday
    omega
  | some n =>
    rw [hmonth, Option.getD_some] at hday
    obtain ⟨hlt, rfl⟩ := List.getElem?_eq_some_iff.1 hmonth
    have hle := hshort _ (List.getElem_mem hlt)
    have hlength : (Date.monthLengths t.date.year).length = 12 := rfl
    omega

theorem fits (h : t.IsStampable) : List.Forall₂ FitsIn t.parts widths := by
  have hdate := h.date
  simp only [Date.isValid, Bool.and_eq_true, decide_eq_true_eq] at hdate
  obtain ⟨⟨⟨⟨-, hyear⟩, -⟩, -⟩, -⟩ := hdate
  have hfour : FitsIn t.date.year 4 := ⟨by decide, by omega⟩
  have htwo : ∀ n < 100, FitsIn n 2 := fun n hn => ⟨by decide, by omega⟩
  have hhour : t.hour < 100 := Nat.lt_trans h.hour (by decide)
  have hminute : t.minute < 100 := Nat.lt_trans h.minute (by decide)
  have hsecond : t.second < 100 := Nat.lt_trans h.second (by decide)
  exact .cons hfour (.cons (htwo _ h.bounds.1) (.cons (htwo _ h.bounds.2) (.cons (htwo _ hhour)
    (.cons (htwo _ hminute) (.cons (htwo _ hsecond) .nil)))))

/-- The parts of a stamp have their widths. -/
theorem toList_stamp (h : t.IsStampable) : t.stamp.toList = digitsOf t.parts widths := by
  have hyear : (padded 0 t.date.year).toList = (padded 4 t.date.year).toList := by
    have hfour : ¬(Nat.toDigits 10 t.date.year).length ≤ 3 := by
      rw [Nat.length_toDigits_le_iff (by decide) (by decide), Nat.not_lt]
      exact h.year
    rw [toList_padded, toList_padded, Nat.zero_sub, Nat.sub_eq_zero_of_le (by omega)]
  rw [stamp, String.toList_join, List.flatMap_cons, hyear]
  simp [digitsOf, parts, widths]

theorem length_stamp (h : t.IsStampable) : t.stamp.toList.length = 14 := by
  rw [h.toList_stamp, length_digitsOf h.fits]
  rfl

end IsStampable

/-- An earlier second has a smaller stamp. -/
theorem stamp_lt_stamp (ht : t.IsStampable) (hu : u.IsStampable) (h : t.Precedes u) :
    t.stamp.toList < u.stamp.toList := by
  rw [ht.toList_stamp, hu.toList_stamp]
  exact digitsOf_lt_digitsOf ht.fits hu.fits h

end StyleLedger.Moment
