import StyleLedger.Proofs.Cascade.Buckets

/-!
What the operations of an index of buckets do, whatever the keys are.

In an index no two buckets and no two properties of a bucket are found under one key, and no bucket
is empty. This needs nothing about the keys, and it is enough to say of each operation what it does
as one equation: both kinds of writes put one property into one bucket and mark it (`add_eq`,
`set_eq`), a deletion takes properties out of the bucket written last (`delete_eq`), and a drop
keeps the buckets of other selectors and layers.

* `BucketIndex.IsProper` — the invariant.
* `BucketIndex.property?` — what an index holds.
* `Bucket.without` — what a deletion leaves of a bucket.
-/

namespace StyleLedger

open Keyed (key)

theorem BucketKey.isFor_congr {k l : BucketKey} (h : key k = key l) (selector layer : Json) :
    k.isFor selector layer = l.isFor selector layer := by
  have hselector : k.selector.key = l.selector.key := congrArg BucketKey.selector h
  have hlayer : k.layer.key = l.layer.key := congrArg BucketKey.layer h
  simp only [BucketKey.isFor, Json.alike, hselector, hlayer]

/-- No two properties have one name, and there is a property. -/
structure Bucket.IsProper (b : Bucket) : Prop where
  distinct : b.properties.IsDistinct
  nonempty : b.properties.entries ≠ []

/-- The properties that are left when one of them is taken out, or all. -/
def Bucket.others (name : Option Json) (b : Bucket) : Table Json StyleProperty :=
  b.properties.filter fun n _ => name.any fun m => decide (key n ≠ key m)

/-- What is left of a bucket when a property is taken out of it, or all of them; nothing if no
property is left. -/
def Bucket.without (name : Option Json) (b : Bucket) : Option Bucket :=
  if (b.others name).isEmpty then none else some { b with properties := b.others name }

theorem Bucket.without_none (b : Bucket) : b.without none = none := by
  simp [Bucket.without, Bucket.others, Table.isEmpty, Table.filter]

theorem Bucket.get?_others (name : Option Json) (b : Bucket) (n : Json) :
    (b.others name).get? n = if ∀ m ∈ name, key m = key n then none else b.properties.get? n := by
  rw [Bucket.others, Table.get?_filter (p := fun n => name.any fun m => decide (key n ≠ key m))
    fun _ _ h => by simp only [h]]
  cases name with
  | none => simp
  | some m =>
    by_cases hm : key m = key n
    · simp [hm]
    · simp [hm, Ne.symm hm]

theorem Bucket.properties_without (name : Option Json) (b : Bucket) :
    ((b.without name).map (·.properties)).getD {} = b.others name := by
  unfold Bucket.without
  split
  · next hempty => exact congrArg Table.mk (List.isEmpty_iff.1 hempty).symm
  · rfl

/-- Taking out a property that is not there changes nothing. -/
theorem Bucket.IsProper.without_eq_self {b : Bucket} (h : b.IsProper) {m : Json}
    (hm : ¬b.properties.contains m = true) : b.without (some m) = some b := by
  have hkeep : ∀ e ∈ b.properties.entries, key e.1 ≠ key m := fun e he hem =>
    hm (Table.isSome_get?_iff.2 ⟨e, he, hem⟩)
  have hothers : b.others (some m) = b.properties := by
    rw [Bucket.others, Table.filter, List.filter_eq_self.2 fun e he => by simpa using hkeep e he]
  rw [Bucket.without, hothers, if_neg]
  simpa [Table.isEmpty] using h.nonempty

/-- What is left of a bucket has some of its properties, and its time. -/
theorem Bucket.eq_of_without {name : Option Json} {b left : Bucket}
    (h : b.without name = some left) : left.touched = b.touched ∧
      left.properties.entries.Sublist b.properties.entries ∧ left.properties.entries ≠ [] := by
  unfold Bucket.without at h
  split at h
  · simp at h
  · next hne =>
    obtain rfl := Option.some.inj h
    refine ⟨rfl, List.filter_sublist, ?_⟩
    simpa [Table.isEmpty] using hne

theorem Bucket.IsProper.of_without {name : Option Json} {b left : Bucket} (h : b.IsProper)
    (hleft : b.without name = some left) : left.IsProper := by
  obtain ⟨-, hsub, hne⟩ := Bucket.eq_of_without hleft
  exact ⟨h.distinct.of_sublist hsub, hne⟩

namespace BucketIndex

variable {index : BucketIndex} {k l : BucketKey} {m n : Json}

/-- The property of a key with a name. -/
def property? (index : BucketIndex) (k : BucketKey) (n : Json) : Option StyleProperty :=
  (index.propertiesOf k).get? n

/-- No two buckets have one key, and every bucket is proper. -/
structure IsProper (index : BucketIndex) : Prop where
  distinct : index.buckets.IsDistinct
  bucket : ∀ e ∈ index.buckets.entries, e.2.IsProper

/-! ## 1. Writes to one key -/

theorem property?_empty (k : BucketKey) (n : Json) : property? {} k n = none :=
  rfl

theorem propertiesOf_congr (h : key k = key l) : index.propertiesOf k = index.propertiesOf l := by
  rw [propertiesOf, propertiesOf, get?, get?, Table.get?_congr h]

theorem property?_congr (hk : key k = key l) (hn : key m = key n) :
    index.property? k m = index.property? l n := by
  rw [property?, property?, propertiesOf_congr hk, Table.get?_congr hn]

theorem propertiesOf_of_get? {b : Bucket} (h : index.get? k = some b) :
    index.propertiesOf k = b.properties := by
  simp [propertiesOf, h]

theorem propertiesOf_of_get?_eq_none (h : index.get? k = none) : index.propertiesOf k = {} := by
  simp [propertiesOf, h]

theorem propertiesOf_putTouched (k l : BucketKey) (properties : Table Json StyleProperty) :
    (index.putTouched k properties).propertiesOf l =
      if key l = key k then properties else index.propertiesOf l := by
  simp only [putTouched, propertiesOf, get?, Table.get?_put]
  split
  · rfl
  · rfl

theorem touch_of_isSome (h : (index.get? k).isSome) :
    (index.touch k).1 = index.putTouched k (index.propertiesOf k) := by
  obtain ⟨b, hb⟩ := Option.isSome_iff_exists.1 h
  simp [touch, propertiesOf, hb]

theorem touch_of_eq_none (h : index.get? k = none) : (index.touch k).1 = index := by
  simp [touch, h]

theorem set_eq (p : StyleProperty) : index.set k m p = index.putTouched k
    ((index.propertiesOf k).put m (((index.property? k m).map (overwrite · p)).getD p)) := by
  simp only [set, property?]
  cases (index.propertiesOf k).get? m with
  | none => rfl
  | some old => rfl

/-- Adding is writing the property that is there, if there is one. -/
theorem add_eq (p : StyleProperty) : (index.add k m p).1 = index.putTouched k
    ((index.propertiesOf k).put m ((index.property? k m).getD p)) := by
  by_cases hm : (index.propertiesOf k).contains m = true
  · obtain ⟨old, hold⟩ := Option.isSome_iff_exists.1 hm
    rw [property?, hold, Option.getD_some, Table.put_self hold]
    simp [BucketIndex.add, hm]
  · have hnone : index.property? k m = none := by simpa [property?, Table.contains] using hm
    simp [BucketIndex.add, hm, hnone]

/-- What an index holds once a property was put into a bucket. -/
theorem property?_write (k l : BucketKey) (m n : Json) (p : StyleProperty) :
    (index.putTouched k ((index.propertiesOf k).put m p)).property? l n =
      if key l = key k ∧ key n = key m then some p else index.property? l n := by
  rw [property?, propertiesOf_putTouched]
  by_cases hl : key l = key k
  · rw [if_pos hl, Table.get?_put, property?, propertiesOf_congr hl]
    simp only [hl, true_and]
  · rw [if_neg hl, if_neg fun h => hl h.1, property?]

namespace IsProper

theorem empty : IsProper {} :=
  ⟨Table.IsDistinct.empty, fun _ he => absurd he List.not_mem_nil⟩

theorem isProper_of_get? (h : index.IsProper) {b : Bucket} (hb : index.get? k = some b) :
    b.IsProper := by
  obtain ⟨l, -, hl⟩ := Table.lookup_mem hb
  exact h.bucket _ hl

theorem isDistinct_propertiesOf (h : index.IsProper) (k : BucketKey) :
    (index.propertiesOf k).IsDistinct := by
  cases hb : index.get? k with
  | none =>
    rw [propertiesOf_of_get?_eq_none hb]
    exact Table.IsDistinct.empty
  | some b =>
    rw [propertiesOf_of_get? hb]
    exact (h.isProper_of_get? hb).distinct

/-- A key has a bucket when it has a property. -/
theorem isSome_get?_iff (h : index.IsProper) (k : BucketKey) :
    (index.get? k).isSome ↔ ∃ n, (index.property? k n).isSome := by
  cases hb : index.get? k with
  | none => simp [property?, propertiesOf_of_get?_eq_none hb, Table.get?, Table.lookup]
  | some b =>
    obtain ⟨e, he⟩ := List.exists_mem_of_ne_nil _ (h.isProper_of_get? hb).nonempty
    simp only [Option.isSome_some, true_iff, property?, propertiesOf_of_get? hb]
    exact ⟨e.1, Table.isSome_get?_iff.2 ⟨e, he, rfl⟩⟩

/-- Touching a bucket is writing a property that is there. -/
theorem touch_eq (h : index.IsProper) {b : Bucket} (hb : index.get? k = some b) :
    ∃ f ∈ (index.propertiesOf k).entries, index.property? k f.1 = some f.2 ∧
      (index.touch k).1 = index.putTouched k ((index.propertiesOf k).put f.1 f.2) := by
  obtain ⟨f, hf⟩ := List.exists_mem_of_ne_nil _ (h.isProper_of_get? hb).nonempty
  have hdistinct := h.isDistinct_propertiesOf k
  rw [← propertiesOf_of_get? hb] at hf
  have hget : index.property? k f.1 = some f.2 := hdistinct.get?_eq_some_iff.2 ⟨f.1, rfl, hf⟩
  refine ⟨f, hf, hget, ?_⟩
  rw [touch_of_isSome (by simp [hb]), Table.put_self hget]

theorem putTouched (h : index.IsProper) (k : BucketKey) {properties : Table Json StyleProperty}
    (hdistinct : properties.IsDistinct) (hne : properties.entries ≠ []) :
    (index.putTouched k properties).IsProper := by
  refine ⟨h.distinct.put _ _, fun e he => ?_⟩
  rcases h.distinct.mem_put he with ⟨-, hv⟩ | ⟨he, -⟩
  · rw [hv]
    exact ⟨hdistinct, hne⟩
  · exact h.bucket e he

theorem touch (h : index.IsProper) (k : BucketKey) : (index.touch k).1.IsProper := by
  cases hb : index.get? k with
  | none =>
    rw [touch_of_eq_none hb]
    exact h
  | some b =>
    rw [touch_of_isSome (by simp [hb]), propertiesOf_of_get? hb]
    exact h.putTouched k (h.isProper_of_get? hb).distinct (h.isProper_of_get? hb).nonempty

theorem add (h : index.IsProper) (k : BucketKey) (m : Json) (p : StyleProperty) :
    (index.add k m p).1.IsProper := by
  rw [add_eq]
  exact h.putTouched k ((h.isDistinct_propertiesOf k).put _ _) (Table.put_entries_ne_nil _ _ _)

theorem set (h : index.IsProper) (k : BucketKey) (m : Json) (p : StyleProperty) :
    (index.set k m p).IsProper := by
  rw [set_eq]
  exact h.putTouched k ((h.isDistinct_propertiesOf k).put _ _) (Table.put_entries_ne_nil _ _ _)

end IsProper

/-! ## 2. Writes to a selector and a layer -/

theorem propertiesOf_drop (selector layer : Json) : (index.drop selector layer).1.propertiesOf l =
    if l.isFor selector layer then {} else index.propertiesOf l := by
  have hget := Table.get?_filter (p := fun k : BucketKey => !k.isFor selector layer)
    (fun k l h => by simp only [BucketKey.isFor_congr h]) index.buckets l
  simp only [drop, propertiesOf, get?, hget]
  cases l.isFor selector layer with
  | true => rfl
  | false => rfl

theorem delete_of_eq_none {selector layer : Json} (h : index.mostRecent? selector layer = none)
    (name : Option Json) : (index.delete selector layer name).1 = index := by
  simp only [delete, h]

namespace IsProper

theorem drop (h : index.IsProper) (selector layer : Json) :
    (index.drop selector layer).1.IsProper :=
  ⟨h.distinct.of_sublist List.filter_sublist, fun e he => h.bucket e (List.mem_of_mem_filter he)⟩

theorem get?_of_mem (h : index.IsProper) {e : BucketKey × Bucket}
    (he : e ∈ index.buckets.entries) : index.get? e.1 = some e.2 :=
  h.distinct.get?_eq_some_iff.2 ⟨e.1, rfl, he⟩

/-- A deletion takes properties out of the bucket written last. -/
theorem delete_eq (h : index.IsProper) {selector layer : Json} {e : BucketKey × Bucket}
    (he : index.mostRecent? selector layer = some e) (name : Option Json) :
    (index.delete selector layer name).1 =
      { index with buckets := index.buckets.alter e.1 (Bucket.without name) } := by
  obtain ⟨k, b⟩ := e
  have hmem := (mostRecent?_eq_some he).1
  have hget : index.buckets.get? k = some b := h.get?_of_mem hmem
  simp only [BucketIndex.delete, he]
  cases name with
  | none =>
    rw [h.distinct.alter_of_none hget b.without_none]
    rfl
  | some m =>
    by_cases hm : b.properties.contains m = true
    · have herase : b.properties.erase m = b.others (some m) := rfl
      by_cases hleft : (b.properties.erase m).isEmpty = true
      · have hwithout : Bucket.without (some m) b = none := by
          rw [Bucket.without, ← herase, if_pos hleft]
        rw [h.distinct.alter_of_none hget hwithout]
        simp [hm, hleft]
      · have hwithout : Bucket.without (some m) b =
            some { b with properties := b.properties.erase m } := by
          rw [Bucket.without, ← herase, if_neg hleft]
        rw [h.distinct.alter_of_some hget hwithout]
        simp [hm, hleft]
    · rw [h.distinct.alter_of_some hget ((h.bucket _ hmem).without_eq_self hm),
        Table.put_self hget]
      simp [hm]

/-- A deletion changes nothing if the bucket written last does not hold the property. -/
theorem delete_of_absent (h : index.IsProper) {selector layer : Json} {e : BucketKey × Bucket}
    (he : index.mostRecent? selector layer = some e) (hn : index.property? e.1 n = none) :
    (index.delete selector layer (some n)).1 = index := by
  have hget := h.get?_of_mem (mostRecent?_eq_some he).1
  rw [property?, propertiesOf_of_get? hget] at hn
  simp [BucketIndex.delete, he, Table.contains, hn]

theorem alter (h : index.IsProper) (k : BucketKey) (name : Option Json) :
    IsProper { index with buckets := index.buckets.alter k (Bucket.without name) } := by
  refine ⟨h.distinct.alter k _, fun e he => ?_⟩
  rcases Table.mem_alter he with ⟨b, hb, -, hleft⟩ | ⟨he, -⟩
  · exact (h.bucket _ hb).of_without hleft
  · exact h.bucket e he

theorem delete (h : index.IsProper) (selector layer : Json) (name : Option Json) :
    (index.delete selector layer name).1.IsProper := by
  cases he : index.mostRecent? selector layer with
  | none =>
    rw [delete_of_eq_none he]
    exact h
  | some e =>
    rw [h.delete_eq he]
    exact h.alter e.1 name

/-- What a deletion leaves under a key. -/
theorem propertiesOf_alter (h : index.IsProper) (k l : BucketKey) (name : Option Json) :
    propertiesOf { index with buckets := index.buckets.alter k (Bucket.without name) } l =
      if key l = key k then ((index.get? k).map (·.others name)).getD {}
      else index.propertiesOf l := by
  simp only [propertiesOf, BucketIndex.get?, h.distinct.get?_alter]
  split
  · cases index.buckets.get? k with
    | none => rfl
    | some b => exact b.properties_without name
  · rfl

theorem property?_alter (h : index.IsProper) (k l : BucketKey) (name : Option Json) (n : Json) :
    property? { index with buckets := index.buckets.alter k (Bucket.without name) } l n =
      if key l = key k ∧ ∀ m ∈ name, key m = key n then none else index.property? l n := by
  rw [property?, h.propertiesOf_alter]
  by_cases hl : key l = key k
  · rw [if_pos hl, property?, propertiesOf_congr hl]
    cases hb : index.get? k with
    | none => simp [propertiesOf_of_get?_eq_none hb, Table.get?, Table.lookup]
    | some b =>
      rw [propertiesOf_of_get? hb, Option.map_some, Option.getD_some, b.get?_others]
      simp [hl]
  · rw [if_neg hl, if_neg fun h => hl h.1]
    rfl

/-- A deletion takes names out and leaves the others in their order. -/
theorem keys_propertiesOf_alter (h : index.IsProper) (k l : BucketKey) (name : Option Json) :
    (propertiesOf { index with buckets := index.buckets.alter k (Bucket.without name) }
      l).keys.Sublist (index.propertiesOf l).keys := by
  rw [h.propertiesOf_alter]
  split
  · next hl =>
    rw [propertiesOf_congr hl]
    cases hb : index.get? k with
    | none => exact List.nil_sublist _
    | some b =>
      rw [propertiesOf_of_get? hb]
      exact List.filter_sublist.map _
  · exact List.Sublist.refl _

end IsProper

end BucketIndex

end StyleLedger
