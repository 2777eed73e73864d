import StyleLedger.Proofs.Trace.Agreement

/-!
An index of buckets is the one that the history of its calls dictates.

Contents and orders follow the history call by call: a call that neither removes nor sets a property
leaves the write that counts, and a call puts a bucket or a property at the end only if it was
absent. Section 3 puts together what a whole trace amounts to.

* `BucketTrace.Precedes` — the order of arrival.
* `BucketTrace.Dictates` — the index is the one the history dictates.
-/

namespace StyleLedger

open Keyed (key)

open BucketIndex (ofCalls ofCalls_concat)

namespace BucketTrace

/-! ## 1. Contents -/

section Contents

variable {calls : List BucketCall} {c : BucketCall} {k : BucketKey} {n : Json} {p q : StyleProperty}

/-- A call that neither removes nor sets a property leaves its content, also if it adds it. -/
theorem HasContent.concat (h : HasContent calls k n p) (hr : ¬Removes calls c k n)
    (hset : ∀ q, ¬c.Sets k n q) : HasContent (calls ++ [c]) k n p := by
  rcases h with ⟨i, q, ⟨hi, hsince, hlast⟩, hsame⟩ | ⟨hnone, i, q, ⟨hi, hsince, hfirst⟩, hsame⟩
  · refine .inl ⟨i, q, ⟨setsAt_concat.2 (.inl hi), (since_concat hi.lt).2 ⟨hsince, hr⟩, ?_⟩, hsame⟩
    intro j q' hj hsets
    rcases setsAt_concat.1 hsets with hsets | ⟨-, hsets⟩
    · exact hlast j q' hj hsets
    · exact hset q' hsets
  · refine .inr ⟨fun j q' hsets hsince' => ?_, i, q,
      ⟨addsAt_concat.2 (.inl hi), (since_concat hi.lt).2 ⟨hsince, hr⟩, fun j q' hj hadds => ?_⟩,
      hsame⟩
    · rcases setsAt_concat.1 hsets with hsets | ⟨-, hsets⟩
      · exact hnone j q' hsets ((since_concat hsets.lt).1 hsince').1
      · exact hset q' hsets
    · rcases addsAt_concat.1 hadds with hadds | ⟨rfl, -⟩
      · exact fun hsince' => hfirst j q' hj hadds ((since_concat hadds.lt).1 hsince').1
      · have := hi.lt
        omega

theorem hasContent_of_sets (hc : c.Sets k n q) (hsame : SameContent p q) :
    HasContent (calls ++ [c]) k n p := by
  refine .inl ⟨calls.length, q, ⟨setsAt_concat.2 (.inr ⟨rfl, hc⟩), since_length, ?_⟩, hsame⟩
  intro j q' hj hsets
  have hlt := hsets.lt
  rw [List.length_append, List.length_singleton] at hlt
  omega

/-- An add counts where the property was absent: everything that was written before is undone. -/
theorem hasContent_of_adds (hc : c.Adds k n p) (habsent : ¬Holds calls k n) :
    HasContent (calls ++ [c]) k n p := by
  rw [holds_iff] at habsent
  refine .inr ⟨fun j q hsets hsince => ?_, calls.length, p,
    ⟨addsAt_concat.2 (.inr ⟨rfl, hc⟩), since_length, fun j q hj hadds hsince => ?_⟩,
    rfl, rfl, rfl, rfl⟩
  · rcases setsAt_concat.1 hsets with hsets | ⟨-, hsets⟩
    · exact habsent ⟨j, ⟨hsets.1, q, .inr hsets.2⟩, ((since_concat hsets.lt).1 hsince).1⟩
    · exact hc.not_sets hsets
  · rcases addsAt_concat.1 hadds with hadds | ⟨rfl, -⟩
    · exact habsent ⟨j, ⟨hadds.1, q, .inl hadds.2⟩, ((since_concat hadds.lt).1 hsince).1⟩
    · omega

theorem sameContent_overwrite (old : Option StyleProperty) (p : StyleProperty) :
    SameContent ((old.map (BucketIndex.overwrite · p)).getD p) p := by
  cases old with
  | none => exact ⟨rfl, rfl, rfl, rfl⟩
  | some old => exact ⟨rfl, rfl, rfl, rfl⟩

theorem hasContent (calls : List BucketCall) {k : BucketKey} {n : Json} {p : StyleProperty}
    (h : (ofCalls calls).property? k n = some p) : HasContent calls k n p := by
  induction calls using List.reverseRecOn generalizing p with
  | nil => simp [ofCalls, BucketIndex.property?_empty] at h
  | append_singleton calls c ih =>
    have hpast := agrees_take calls
    rw [ofCalls_concat] at h
    by_cases hw : c.Writes k n
    · obtain ⟨q, hc | hc⟩ := hw
      · have hr : ¬Removes calls c k n := not_removes_of_writes ⟨q, .inl hc⟩
        rw [property?_of_adds hc] at h
        cases hold : (ofCalls calls).property? k n with
        | none =>
          rw [hold] at h
          obtain rfl := Option.some.inj h
          exact hasContent_of_adds hc fun hholds => by
            simpa [hold] using ((agrees calls).holds k n).2 hholds
        | some old =>
          rw [hold] at h
          obtain rfl := Option.some.inj h
          exact (ih hold).concat hr fun q' => hc.not_sets
      · rw [property?_of_sets hc] at h
        obtain rfl := Option.some.inj h
        exact hasContent_of_sets hc (sameContent_overwrite _ q)
    · by_cases hr : Removes calls c k n
      · simp [property?_of_removes hpast hr] at h
      · rw [property?_of_keeps hpast hr hw] at h
        exact (ih h).concat hr fun q hsets => hw ⟨q, .inr hsets⟩

end Contents

/-! ## 2. Orders -/

section Orders

variable {calls : List BucketCall} {c : BucketCall} {i : Nat} {k : BucketKey} {n : Json}

theorem ArrivedAt.concat {present : List BucketCall → Prop} (h : ArrivedAt present calls i)
    (hi : i < calls.length) (hc : present (calls ++ [c])) :
    ArrivedAt present (calls ++ [c]) i := by
  refine ⟨by rw [List.take_append_of_le_length (Nat.le_of_lt hi)]; exact h.1, fun j hij hj => ?_⟩
  rcases Nat.lt_or_ge calls.length j with hlt | hle
  · rwa [List.take_of_length_le (by simp; omega)]
  · rw [List.take_append_of_le_length hle]
    exact h.2 j hij hle

theorem arrivedAt_length {present : List BucketCall → Prop} (h : ¬present calls)
    (hc : present (calls ++ [c])) : ArrivedAt present (calls ++ [c]) calls.length := by
  refine ⟨by rwa [List.take_left], fun j hij hj => ?_⟩
  rwa [List.take_of_length_le (by simp; omega)]

/-- What is so now and was not so before any call has become so at some call. -/
theorem exists_arrivedAt {present : List BucketCall → Prop} (hnil : ¬present [])
    (h : present calls) : ∃ i, i < calls.length ∧ ArrivedAt present calls i := by
  induction calls using List.reverseRecOn with
  | nil => exact absurd h hnil
  | append_singleton calls c ih =>
    by_cases hpast : present calls
    · obtain ⟨i, hi, harrived⟩ := ih hpast
      exact ⟨i, by simp; omega, harrived.concat hi h⟩
    · exact ⟨calls.length, by simp, arrivedAt_length hpast h⟩

/-- One of two things has become so before the other. -/
def Precedes {κ : Type} (present : List BucketCall → κ → Prop) (calls : List BucketCall)
    (a b : κ) : Prop :=
  ∃ i j, ArrivedAt (present · a) calls i ∧ ArrivedAt (present · b) calls j ∧ i < j ∧
    j < calls.length

/-- A list stays in the order of arrival when a call takes things out of it, or puts one at its end
that was absent. -/
theorem pairwise_precedes_concat {κ : Type} {present : List BucketCall → κ → Prop}
    (hnil : ∀ a, ¬present [] a) {old new : List κ} (hold : old.Pairwise (Precedes present calls))
    (hpresent : ∀ a ∈ old, present calls a) (hnew : ∀ a ∈ new, present (calls ++ [c]) a)
    (hstep : new.Sublist old ∨ ∃ a, ¬present calls a ∧ new = old ++ [a]) :
    new.Pairwise (Precedes present (calls ++ [c])) := by
  have hkept : ∀ a b, present (calls ++ [c]) a → present (calls ++ [c]) b →
      Precedes present calls a b → Precedes present (calls ++ [c]) a b := by
    rintro a b ha hb ⟨i, j, hi, hj, hij, hlt⟩
    exact ⟨i, j, hi.concat (by omega) ha, hj.concat hlt hb, hij, by simp; omega⟩
  rcases hstep with hsub | ⟨b, hb, rfl⟩
  · exact (hold.sublist hsub).imp_of_mem fun ha hb => hkept _ _ (hnew _ ha) (hnew _ hb)
  · refine List.pairwise_append.2 ⟨?_, List.pairwise_singleton _ _, fun a ha b' hb' => ?_⟩
    · exact hold.imp_of_mem fun ha hb =>
        hkept _ _ (hnew _ (List.mem_append_left _ ha)) (hnew _ (List.mem_append_left _ hb))
    · obtain rfl := List.mem_singleton.1 hb'
      obtain ⟨i, hi, harrived⟩ := @exists_arrivedAt calls (present · a) (hnil a) (hpresent a ha)
      exact ⟨i, calls.length, harrived.concat hi (hnew a (List.mem_append_left _ ha)),
        arrivedAt_length hb (hnew b' (List.mem_append_right _ hb')), hi, by simp⟩

/-- A call takes buckets out, or puts one at the end that was not there. -/
theorem Agrees.keys_call (h : Agrees calls) (c : BucketCall) :
    ((ofCalls calls).call c).buckets.keys.Sublist (ofCalls calls).buckets.keys ∨
      ∃ k, ¬IsLive calls k ∧
        ((ofCalls calls).call c).buckets.keys = (ofCalls calls).buckets.keys ++ [k] := by
  have hput : ∀ k properties,
      ((ofCalls calls).putTouched k properties).buckets.keys.Sublist (ofCalls calls).buckets.keys ∨
        ∃ k', ¬IsLive calls k' ∧ ((ofCalls calls).putTouched k properties).buckets.keys =
          (ofCalls calls).buckets.keys ++ [k'] := by
    intro k properties
    rw [BucketIndex.putTouched, Table.keys_put]
    split
    · exact .inl (List.Sublist.refl _)
    · next hnone => exact .inr ⟨k, fun hlive => hnone ((h.isLive_iff k).2 hlive), rfl⟩
  cases c with
  | add k m p =>
    rw [BucketIndex.call, BucketIndex.add_eq]
    exact hput k _
  | set k m p => exact hput k _
  | touch k =>
    rw [BucketIndex.call, BucketIndex.touch]
    split
    · exact hput k _
    · exact .inl (List.Sublist.refl _)
  | delete selector layer name =>
    rw [BucketIndex.call]
    cases he : (ofCalls calls).mostRecent? selector layer with
    | none =>
      rw [BucketIndex.delete_of_eq_none he]
      exact .inl (List.Sublist.refl _)
    | some e =>
      rw [h.proper.delete_eq he]
      exact .inl (Table.keys_alter_sublist _ _ _)
  | drop selector layer => exact .inl (List.filter_sublist.map _)

/-- A call takes properties out of a bucket, or puts one at its end that the bucket did not hold. -/
theorem Agrees.keys_propertiesOf_call (h : Agrees calls) (c : BucketCall) (k : BucketKey) :
    (((ofCalls calls).call c).propertiesOf k).keys.Sublist ((ofCalls calls).propertiesOf k).keys ∨
      ∃ n, ¬Holds calls k n ∧ (((ofCalls calls).call c).propertiesOf k).keys =
        ((ofCalls calls).propertiesOf k).keys ++ [n] := by
  have hput : ∀ k' m q, (((ofCalls calls).putTouched k' (((ofCalls calls).propertiesOf k').put m
      q)).propertiesOf k).keys.Sublist ((ofCalls calls).propertiesOf k).keys ∨
        ∃ n, ¬Holds calls k n ∧ (((ofCalls calls).putTouched k' (((ofCalls calls).propertiesOf
          k').put m q)).propertiesOf k).keys = ((ofCalls calls).propertiesOf k).keys ++ [n] := by
    intro k' m q
    rw [BucketIndex.propertiesOf_putTouched]
    split
    · next hk =>
      rw [BucketIndex.propertiesOf_congr hk, Table.keys_put]
      split
      · exact .inl (List.Sublist.refl _)
      · next hnone =>
        refine .inr ⟨m, fun hholds => hnone ?_, rfl⟩
        have hsome := (h.holds k m).2 hholds
        rwa [BucketIndex.property?, BucketIndex.propertiesOf_congr hk] at hsome
    · exact .inl (List.Sublist.refl _)
  cases c with
  | add k' m p =>
    rw [BucketIndex.call, BucketIndex.add_eq]
    exact hput k' m _
  | set k' m p =>
    rw [BucketIndex.call, BucketIndex.set_eq]
    exact hput k' m _
  | touch k' =>
    rw [BucketIndex.call]
    cases hk' : (ofCalls calls).get? k' with
    | none =>
      rw [BucketIndex.touch_of_eq_none hk']
      exact .inl (List.Sublist.refl _)
    | some b =>
      rw [BucketIndex.touch_of_isSome (by simp [hk']), BucketIndex.propertiesOf_putTouched]
      split
      · next hk =>
        rw [BucketIndex.propertiesOf_congr hk]
        exact .inl (List.Sublist.refl _)
      · exact .inl (List.Sublist.refl _)
  | delete selector layer name =>
    rw [BucketIndex.call]
    cases he : (ofCalls calls).mostRecent? selector layer with
    | none =>
      rw [BucketIndex.delete_of_eq_none he]
      exact .inl (List.Sublist.refl _)
    | some e =>
      rw [h.proper.delete_eq he]
      exact .inl (h.proper.keys_propertiesOf_alter _ _ _)
  | drop selector layer =>
    rw [BucketIndex.call, BucketIndex.propertiesOf_drop]
    split
    · exact .inl (List.nil_sublist _)
    · exact .inl (List.Sublist.refl _)

theorem Agrees.isLive_of_mem_keys (h : Agrees calls) (hk : k ∈ (ofCalls calls).buckets.keys) :
    IsLive calls k := by
  obtain ⟨e, he, rfl⟩ := List.mem_map.1 hk
  exact h.isLive_of_mem he

theorem Agrees.holds_of_mem_keys (h : Agrees calls)
    (hn : n ∈ ((ofCalls calls).propertiesOf k).keys) : Holds calls k n := by
  obtain ⟨e, he, rfl⟩ := List.mem_map.1 hn
  exact (h.holds k e.1).1 (Table.isSome_get?_iff.2 ⟨e, he, rfl⟩)

theorem not_isLive_nil (k : BucketKey) : ¬IsLive [] k := by
  rw [isLive_iff]
  rintro ⟨n, hn⟩
  exact not_holds_nil k n hn

theorem pairwise_buckets (calls : List BucketCall) :
    (ofCalls calls).buckets.keys.Pairwise (Precedes IsLive calls) := by
  induction calls using List.reverseRecOn with
  | nil => exact List.Pairwise.nil
  | append_singleton calls c ih =>
    have hnew := fun l => (agrees (calls ++ [c])).isLive_of_mem_keys (k := l)
    rw [ofCalls_concat] at hnew ⊢
    exact pairwise_precedes_concat not_isLive_nil ih
      (fun _ => (agrees calls).isLive_of_mem_keys) hnew ((agrees calls).keys_call c)

theorem pairwise_properties (calls : List BucketCall) (k : BucketKey) :
    ((ofCalls calls).propertiesOf k).keys.Pairwise (Precedes (Holds · k ·) calls) := by
  induction calls using List.reverseRecOn with
  | nil => exact List.Pairwise.nil
  | append_singleton calls c ih =>
    have hnew := fun n => (agrees (calls ++ [c])).holds_of_mem_keys (k := k) (n := n)
    rw [ofCalls_concat] at hnew ⊢
    exact pairwise_precedes_concat (not_holds_nil k) ih
      (fun _ => (agrees calls).holds_of_mem_keys) hnew ((agrees calls).keys_propertiesOf_call c k)

/-- A property becomes held by being written. -/
theorem firstWriteAt_of_arrivedAt (h : ArrivedAt (Holds · k n) calls i) (hi : i < calls.length) :
    FirstWriteAt calls i k n := by
  have hnext := h.2 (i + 1) (Nat.lt_succ_self i) hi
  rw [List.take_succ_eq_append_getElem hi, holds_concat] at hnext
  rcases hnext with hw | ⟨hpast, -⟩
  · exact ⟨⟨hi, hw⟩, h⟩
  · exact absurd hpast h.1

/-- A bucket comes into being with a write to it. -/
theorem firstBucketWriteAt_of_arrivedAt (h : ArrivedAt (IsLive · k) calls i)
    (hi : i < calls.length) : FirstBucketWriteAt calls i k := by
  have hnext := h.2 (i + 1) (Nat.lt_succ_self i) hi
  obtain ⟨n, hn⟩ := isLive_iff.1 hnext
  rw [List.take_succ_eq_append_getElem hi, holds_concat] at hn
  rcases hn with hw | ⟨hpast, -⟩
  · exact ⟨⟨n, hi, hw⟩, h⟩
  · exact absurd (isLive_iff.2 ⟨n, hpast⟩) h.1

end Orders

/-! ## 3. What a trace amounts to -/

/-- An index is the one that a history of calls dictates.

A key holds a property when some call has written it since the last call that removed it, and its
content is that of the last set since then, or of the first add. Buckets, and properties in a
bucket, stand in the order of their first write since they were last absent. There is one bucket
that a deletion is aimed at if there is any bucket for the selector and the layer; what was asked
for is taken out of it, and it goes if nothing is left. A drop takes out all buckets of its selector
and layer. -/
structure Dictates (calls : List BucketCall) (index : BucketIndex) : Prop where
  holds : ∀ k n, (index.property? k n).isSome ↔
    ∃ i, WritesAt calls i k n ∧ ∀ j, i < j → ¬RemovedAt calls j k n
  content : ∀ k n p, index.property? k n = some p → HasContent calls k n p
  live : ∀ k, (index.get? k).isSome ↔ IsLive calls k
  buckets : index.buckets.keys.Pairwise fun k l => ∃ i j,
    FirstBucketWriteAt calls i k ∧ FirstBucketWriteAt calls j l ∧ i < j
  properties : ∀ k, (index.propertiesOf k).keys.Pairwise fun m n => ∃ i j,
    FirstWriteAt calls i k m ∧ FirstWriteAt calls j k n ∧ i < j
  target : ∀ selector layer, (∃ k, IsTarget calls selector layer k) ↔
    ∃ k, IsLive calls k ∧ k.isFor selector layer
  unique : ∀ selector layer k l, IsTarget calls selector layer k → IsTarget calls selector layer l →
    key k = key l
  delete : ∀ selector layer name k, IsTarget calls selector layer k →
    (index.delete selector layer name).1 =
      { index with buckets := index.buckets.alter k (Bucket.without name) }
  deleteAbsent : ∀ selector layer n,
    (∀ k, IsTarget calls selector layer k → ¬Holds calls k n) →
    (index.delete selector layer (some n)).1 = index
  deleteNothing : ∀ selector layer name, (∀ k, ¬IsTarget calls selector layer k) →
    (index.delete selector layer name).1 = index
  drop : ∀ selector layer, (index.drop selector layer).1 =
    { index with buckets := index.buckets.filter fun k _ => !k.isFor selector layer }

/-- After any calls on an empty index, the index is the one that the calls dictate. -/
theorem dictates_ofCalls (calls : List BucketCall) : Dictates calls (ofCalls calls) := by
  have hpast := agrees_take calls
  have h := agrees calls
  have hdelete : ∀ selector layer name k, IsTarget calls selector layer k →
      ((ofCalls calls).delete selector layer name).1 = { ofCalls calls with
        buckets := (ofCalls calls).buckets.alter k (Bucket.without name) } := by
    intro selector layer name k hk
    obtain ⟨e, he, hek⟩ := (isTarget_iff hpast).1 hk
    rw [h.proper.delete_eq he, Table.alter, Table.alter, hek]
  constructor
  case holds =>
    intro k n
    rw [h.holds, Holds]
  case content => exact fun k n p => hasContent calls
  case live => exact h.isLive_iff
  case buckets =>
    refine (pairwise_buckets calls).imp fun hkl => ?_
    obtain ⟨i, j, hi, hj, hij, hlt⟩ := hkl
    exact ⟨i, j, firstBucketWriteAt_of_arrivedAt hi (by omega),
      firstBucketWriteAt_of_arrivedAt hj hlt, hij⟩
  case properties =>
    intro k
    refine (pairwise_properties calls k).imp fun hmn => ?_
    obtain ⟨i, j, hi, hj, hij, hlt⟩ := hmn
    exact ⟨i, j, firstWriteAt_of_arrivedAt hi (by omega), firstWriteAt_of_arrivedAt hj hlt, hij⟩
  case target =>
    intro selector layer
    constructor
    · rintro ⟨k, hk⟩
      rw [IsTarget] at hk
      exact ⟨k, hk.1, hk.2.1⟩
    · rintro ⟨k, hk, hfor⟩
      obtain ⟨d, hd, hdk⟩ := h.exists_mem hk
      cases he : (ofCalls calls).mostRecent? selector layer with
      | none =>
        rw [← BucketKey.isFor_congr hdk] at hfor
        exact absurd hfor (BucketIndex.mostRecent?_eq_none.1 he d hd)
      | some e => exact ⟨e.1, isTarget_of_mostRecent? hpast he⟩
  case unique =>
    intro selector layer k l hk hl
    obtain ⟨d, hd, hdk⟩ := (isTarget_iff hpast).1 hk
    obtain ⟨e, he, hel⟩ := (isTarget_iff hpast).1 hl
    obtain rfl : d = e := Option.some.inj (hd.symm.trans he)
    exact hdk.symm.trans hel
  case delete => exact hdelete
  case deleteAbsent =>
    intro selector layer n hn
    cases he : (ofCalls calls).mostRecent? selector layer with
    | none => exact BucketIndex.delete_of_eq_none he _
    | some e =>
      have habsent := hn e.1 (isTarget_of_mostRecent? hpast he)
      rw [← h.holds, Option.not_isSome_iff_eq_none] at habsent
      exact h.proper.delete_of_absent he habsent
  case deleteNothing =>
    intro selector layer name hnone
    cases he : (ofCalls calls).mostRecent? selector layer with
    | none => exact BucketIndex.delete_of_eq_none he _
    | some e => exact absurd (isTarget_of_mostRecent? hpast he) (hnone e.1)
  case drop => exact fun selector layer => rfl

end BucketTrace

end StyleLedger
