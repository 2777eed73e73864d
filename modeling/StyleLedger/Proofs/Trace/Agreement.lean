import StyleLedger.Proofs.Trace.Basic

/-!
An index of buckets agrees with the history of its calls.

The invariant says that the index holds what the history says, and that every bucket bears the time
that the clock showed when it was marked for the last time. Times are therefore in the order of the
marks, so the bucket with the latest time is the target that the history dictates (`isTarget_iff`),
and one more call does to every property what the history says (`Agrees.concat`).

* `BucketTrace.Agrees` — the invariant.
* `BucketTrace.agrees_take` — it holds after every number of calls.
-/

namespace StyleLedger

open Keyed (key)

open BucketIndex (ofCalls ofCalls_concat)

namespace BucketTrace

/-! ## 1. The invariant -/

/-- What the clock shows before call number `i`. -/
def clockAt (calls : List BucketCall) (i : Nat) : Int :=
  (ofCalls (calls.take i)).clock

theorem clockAt_mono (calls : List BucketCall) {i j : Nat} (h : i ≤ j) :
    clockAt calls i ≤ clockAt calls j := by
  induction h with
  | refl => exact Int.le_refl _
  | @step j _ ih =>
    refine Int.le_trans ih ?_
    unfold clockAt
    rcases Nat.lt_or_ge j calls.length with hj | hj
    · rw [List.take_succ_eq_append_getElem hj, ofCalls_concat]
      exact BucketIndex.clock_le_call _ _
    · refine Int.le_of_eq ?_
      rw [List.take_of_length_le hj, List.take_of_length_le (by omega)]

/-- Call number `i` is the last one that marks a bucket. -/
def LastMarkAt (calls : List BucketCall) (i : Nat) (k : BucketKey) : Prop :=
  MarkedAt calls i k ∧ ∀ j, i < j → ¬MarkedAt calls j k

/-- The index holds what the history says, and every bucket bears the time of its last mark. -/
structure Agrees (calls : List BucketCall) : Prop where
  proper : (ofCalls calls).IsProper
  holds : ∀ k n, ((ofCalls calls).property? k n).isSome ↔ Holds calls k n
  marked : ∀ e ∈ (ofCalls calls).buckets.entries, ∃ i, LastMarkAt calls i e.1 ∧
    e.2.touched = .int (clockAt calls (i + 1))

section Agreement

variable {calls : List BucketCall} {c : BucketCall} {i : Nat} {k l : BucketKey} {n : Json}
  {selector layer : Json}

/-- A call marks at most one bucket. -/
theorem Marks.key_eq (hk : Marks calls c k) (hl : Marks calls c l) : key k = key l := by
  cases c with
  | add k' _ _ =>
    rw [Marks] at hk hl
    exact hk.symm.trans hl
  | set k' _ _ =>
    rw [Marks] at hk hl
    exact hk.symm.trans hl
  | touch k' =>
    rw [Marks] at hk hl
    exact hk.1.symm.trans hl.1
  | delete _ _ _ => simp [Marks] at hk
  | drop _ _ => simp [Marks] at hk

namespace Agrees

theorem isLive_iff (h : Agrees calls) (k : BucketKey) :
    ((ofCalls calls).get? k).isSome ↔ IsLive calls k := by
  rw [h.proper.isSome_get?_iff, BucketTrace.isLive_iff]
  exact exists_congr (h.holds k)

theorem isLive_congr (h : Agrees calls) (hkl : key k = key l) (hk : IsLive calls k) :
    IsLive calls l := by
  rw [← h.isLive_iff, BucketIndex.get?] at hk ⊢
  rwa [← Table.get?_congr hkl]

theorem marks_congr (h : Agrees calls) (hkl : key k = key l) (hk : Marks calls c k) :
    Marks calls c l := by
  cases c with
  | add k' _ _ =>
    rw [Marks] at hk ⊢
    exact hk.trans hkl
  | set k' _ _ =>
    rw [Marks] at hk ⊢
    exact hk.trans hkl
  | touch k' =>
    rw [Marks] at hk ⊢
    exact ⟨hk.1.trans hkl, h.isLive_congr hkl hk.2⟩
  | delete _ _ _ => simp [Marks] at hk
  | drop _ _ => simp [Marks] at hk

/-- A bucket that is there has an entry. -/
theorem exists_mem (h : Agrees calls) (hk : IsLive calls k) :
    ∃ e ∈ (ofCalls calls).buckets.entries, key e.1 = key k :=
  Table.isSome_get?_iff.1 ((h.isLive_iff k).2 hk)

theorem isLive_of_mem (h : Agrees calls) {e : BucketKey × Bucket}
    (he : e ∈ (ofCalls calls).buckets.entries) : IsLive calls e.1 :=
  (h.isLive_iff e.1).1 (by rw [h.proper.get?_of_mem he]; rfl)

/-- A call that marks a bucket writes it, at the time that the clock shows next. -/
theorem exists_putTouched (h : Agrees calls) (hk : Marks calls c k) : ∃ l properties,
    key l = key k ∧ (ofCalls calls).call c = (ofCalls calls).putTouched l properties := by
  cases c with
  | add k' m p =>
    rw [Marks] at hk
    exact ⟨k', _, hk, BucketIndex.add_eq p⟩
  | set k' m p =>
    rw [Marks] at hk
    exact ⟨k', _, hk, BucketIndex.set_eq p⟩
  | touch k' =>
    rw [Marks] at hk
    have hlive := (h.isLive_iff k').2 (h.isLive_congr hk.1.symm hk.2)
    exact ⟨k', _, hk.1, BucketIndex.touch_of_isSome hlive⟩
  | delete _ _ _ => simp [Marks] at hk
  | drop _ _ => simp [Marks] at hk

/-- A call that marks no bucket only takes out what it removes. -/
theorem exists_mem_of_call (h : Agrees calls) (hc : ∀ k, ¬Marks calls c k)
    {e : BucketKey × Bucket} (he : e ∈ ((ofCalls calls).call c).buckets.entries) :
    ∃ b, (e.1, b) ∈ (ofCalls calls).buckets.entries ∧ e.2.touched = b.touched := by
  cases c with
  | add k' m p => exact absurd (by rw [Marks]) (hc k')
  | set k' m p => exact absurd (by rw [Marks]) (hc k')
  | touch k' =>
    have hnone : (ofCalls calls).get? k' = none := by
      refine Option.not_isSome_iff_eq_none.1 fun hsome => hc k' ?_
      rw [Marks]
      exact ⟨rfl, (h.isLive_iff k').1 hsome⟩
    rw [BucketIndex.call, BucketIndex.touch_of_eq_none hnone] at he
    exact ⟨e.2, he, rfl⟩
  | delete selector layer name =>
    rw [BucketIndex.call] at he
    cases hd : (ofCalls calls).mostRecent? selector layer with
    | none =>
      rw [BucketIndex.delete_of_eq_none hd] at he
      exact ⟨e.2, he, rfl⟩
    | some d =>
      rw [h.proper.delete_eq hd] at he
      rcases Table.mem_alter he with ⟨b, hb, -, hleft⟩ | ⟨he, -⟩
      · exact ⟨b, hb, (Bucket.eq_of_without hleft).1⟩
      · exact ⟨e.2, he, rfl⟩
  | drop selector layer => exact ⟨e.2, List.mem_of_mem_filter he, rfl⟩

/-- The entries after a call: what it marks bears the new time, and everything else the old one. -/
theorem mem_call (h : Agrees calls) {e : BucketKey × Bucket}
    (he : e ∈ ((ofCalls calls).call c).buckets.entries) :
    Marks calls c e.1 ∧ e.2.touched = .int ((ofCalls calls).call c).clock ∨
      ¬Marks calls c e.1 ∧
        ∃ b, (e.1, b) ∈ (ofCalls calls).buckets.entries ∧ e.2.touched = b.touched := by
  by_cases hmarks : ∃ k, Marks calls c k
  · obtain ⟨k, hk⟩ := hmarks
    obtain ⟨l, properties, hl, hcall⟩ := h.exists_putTouched hk
    rw [hcall] at he ⊢
    rcases h.proper.distinct.mem_put he with ⟨hel, hv⟩ | ⟨he, hel⟩
    · refine .inl ⟨h.marks_congr (hl.symm.trans hel.symm) hk, ?_⟩
      rw [hv]
      rfl
    · exact .inr ⟨fun hmark => hel ((hmark.key_eq hk).trans hl.symm), e.2, he, rfl⟩
  · rw [not_exists] at hmarks
    exact .inr ⟨hmarks e.1, h.exists_mem_of_call hmarks he⟩

end Agrees

theorem take_length_succ (calls : List BucketCall) (c : BucketCall) :
    (calls ++ [c]).take (calls.length + 1) = calls ++ [c] :=
  List.take_of_length_le (by simp)

theorem clockAt_concat (hi : i ≤ calls.length) : clockAt (calls ++ [c]) i = clockAt calls i := by
  rw [clockAt, List.take_append_of_le_length hi, clockAt]

/-- After a call the buckets bear the times of their last marks again. -/
theorem Agrees.marked_concat (h : Agrees calls) (c : BucketCall) :
    ∀ e ∈ (ofCalls (calls ++ [c])).buckets.entries, ∃ i, LastMarkAt (calls ++ [c]) i e.1 ∧
      e.2.touched = .int (clockAt (calls ++ [c]) (i + 1)) := by
  intro e he
  rw [ofCalls_concat] at he
  rcases h.mem_call he with ⟨hmark, htouched⟩ | ⟨hmark, b, hb, htouched⟩
  · refine ⟨calls.length, ⟨markedAt_concat.2 (.inr ⟨rfl, hmark⟩), fun j hj hm => ?_⟩, ?_⟩
    · rcases markedAt_concat.1 hm with hm | ⟨rfl, -⟩
      · have := (markedAt_iff.1 hm).lt
        omega
      · omega
    · rw [htouched, clockAt, take_length_succ, ofCalls_concat]
  · obtain ⟨i, ⟨hi, hlast⟩, htime⟩ := h.marked _ hb
    refine ⟨i, ⟨markedAt_concat.2 (.inl hi), fun j hj hm => ?_⟩, ?_⟩
    · rcases markedAt_concat.1 hm with hm | ⟨-, hm⟩
      · exact hlast j hj hm
      · exact hmark hm
    · rw [htouched, htime, clockAt_concat (markedAt_iff.1 hi).lt]

/-! ## 2. The target of a deletion

A deletion is aimed at the bucket of its selector and layer that bears the latest time. That the
times of marks are in the order of the calls needs agreement after every number of calls. -/

section Target

variable (hpast : ∀ i, Agrees (calls.take i))

include hpast

theorem MarkedAt.congr (hkl : key k = key l) (hk : MarkedAt calls i k) : MarkedAt calls i l := by
  rw [markedAt_iff] at hk ⊢
  exact ⟨hk.1, (hpast i).marks_congr hkl hk.2⟩

theorem MarkedAt.clockAt_lt (hk : MarkedAt calls i k) :
    clockAt calls i < clockAt calls (i + 1) := by
  obtain ⟨hi, hmark⟩ := markedAt_iff.1 hk
  obtain ⟨l, properties, -, hcall⟩ := (hpast i).exists_putTouched hmark
  rw [clockAt, clockAt, List.take_succ_eq_append_getElem hi, ofCalls_concat, hcall]
  simp only [BucketIndex.putTouched]
  omega

theorem agrees_of_past : Agrees calls := by
  have h := hpast calls.length
  rwa [List.take_length] at h

/-- A bucket that was marked later bears a later time. -/
theorem time_lt_of_markedAt {d e : BucketKey × Bucket} {j : Nat}
    (hd : d ∈ (ofCalls calls).buckets.entries) (he : e ∈ (ofCalls calls).buckets.entries)
    (hlast : LastMarkAt calls i d.1) (hij : i < j) (hj : MarkedAt calls j e.1) :
    d.2.time < e.2.time := by
  obtain ⟨i', hi', hdtime⟩ := (agrees_of_past hpast).marked d hd
  obtain ⟨j', hj', hetime⟩ := (agrees_of_past hpast).marked e he
  obtain rfl : i' = i := by
    rcases Nat.lt_trichotomy i' i with hlt | heq | hlt
    · exact absurd hlast.1 (hi'.2 i hlt)
    · exact heq
    · exact absurd hi'.1 (hlast.2 i' hlt)
  have hle : j ≤ j' := Nat.le_of_not_lt fun hlt => hj'.2 j hlt hj
  rw [Bucket.time_eq hdtime, Bucket.time_eq hetime]
  calc clockAt calls (i' + 1) ≤ clockAt calls j := clockAt_mono calls hij
    _ < clockAt calls (j + 1) := hj.clockAt_lt hpast
    _ ≤ clockAt calls (j' + 1) := clockAt_mono calls (by omega)

theorem isTarget_of_mostRecent? {e : BucketKey × Bucket}
    (he : (ofCalls calls).mostRecent? selector layer = some e) :
    IsTarget calls selector layer e.1 := by
  have h := agrees_of_past hpast
  obtain ⟨hmem, hfor, hmax⟩ := BucketIndex.mostRecent?_eq_some he
  obtain ⟨i, hlast, -⟩ := h.marked e hmem
  rw [IsTarget]
  refine ⟨h.isLive_of_mem hmem, hfor, i, hlast.1, fun j hj k hk hkfor hmark => ?_⟩
  obtain ⟨d, hd, hdk⟩ := h.exists_mem hk
  have hlt := time_lt_of_markedAt hpast hmem hd hlast hj (hmark.congr hpast hdk.symm)
  have hle := hmax d hd (by rwa [BucketKey.isFor_congr hdk])
  omega

/-- The index finds the target that the history dictates. -/
theorem isTarget_iff : IsTarget calls selector layer k ↔
    ∃ e, (ofCalls calls).mostRecent? selector layer = some e ∧ key e.1 = key k := by
  have h := agrees_of_past hpast
  constructor
  · intro hk
    rw [IsTarget] at hk
    obtain ⟨hlive, hfor, i, hmark, hlatest⟩ := hk
    obtain ⟨d, hd, hdk⟩ := h.exists_mem hlive
    have hdfor : d.1.isFor selector layer = true := by rwa [BucketKey.isFor_congr hdk]
    cases he : (ofCalls calls).mostRecent? selector layer with
    | none => exact absurd hdfor (BucketIndex.mostRecent?_eq_none.1 he d hd)
    | some e =>
      obtain ⟨hmem, hefor, hmax⟩ := BucketIndex.mostRecent?_eq_some he
      refine ⟨e, rfl, ?_⟩
      obtain ⟨j, hlast, -⟩ := h.marked e hmem
      -- neither of the two was marked after the other, so one call has marked both
      have hji : j ≤ i := Nat.le_of_not_lt fun hlt =>
        hlatest j hlt e.1 (h.isLive_of_mem hmem) hefor hlast.1
      have hij : i ≤ j := by
        refine Nat.le_of_not_lt fun hlt => ?_
        have htime := time_lt_of_markedAt hpast hmem hd hlast hlt (hmark.congr hpast hdk.symm)
        have := hmax d hd hdfor
        omega
      obtain rfl := Nat.le_antisymm hij hji
      exact (markedAt_iff.1 hlast.1).2.key_eq (markedAt_iff.1 hmark).2
  · rintro ⟨e, he, hek⟩
    have htarget := isTarget_of_mostRecent? hpast he
    rw [IsTarget] at htarget ⊢
    obtain ⟨hlive, hfor, i, hmark, hlatest⟩ := htarget
    exact ⟨h.isLive_congr hek hlive, by rwa [← BucketKey.isFor_congr hek], i,
      hmark.congr hpast hek, hlatest⟩

/-! ## 3. One call, seen from one property -/

theorem property?_of_removes (hr : Removes calls c k n) :
    ((ofCalls calls).call c).property? k n = none := by
  cases c with
  | add _ _ _ => simp [Removes] at hr
  | set _ _ _ => simp [Removes] at hr
  | touch _ => simp [Removes] at hr
  | delete selector layer name =>
    rw [Removes, isTarget_iff hpast] at hr
    obtain ⟨⟨e, he, hek⟩, hname⟩ := hr
    have hproper := (agrees_of_past hpast).proper
    rw [BucketIndex.call, hproper.delete_eq he, hproper.property?_alter, if_pos ⟨hek.symm, hname⟩]
  | drop selector layer =>
    rw [Removes] at hr
    rw [BucketIndex.call, BucketIndex.property?, BucketIndex.propertiesOf_drop, if_pos hr]
    rfl

omit hpast in
theorem property?_of_adds {p : StyleProperty} (hc : c.Adds k n p) :
    ((ofCalls calls).call c).property? k n = some (((ofCalls calls).property? k n).getD p) := by
  cases c with
  | add k' n' p' =>
    obtain ⟨hk, hn, rfl⟩ := hc
    rw [BucketIndex.call, BucketIndex.add_eq, BucketIndex.property?_write,
      if_pos ⟨hk.symm, hn.symm⟩, BucketIndex.property?_congr hk hn]
  | set _ _ _ => exact hc.elim
  | touch _ => exact hc.elim
  | delete _ _ _ => exact hc.elim
  | drop _ _ => exact hc.elim

omit hpast in
theorem property?_of_sets {p : StyleProperty} (hc : c.Sets k n p) :
    ((ofCalls calls).call c).property? k n =
      some ((((ofCalls calls).property? k n).map (BucketIndex.overwrite · p)).getD p) := by
  cases c with
  | set k' n' p' =>
    obtain ⟨hk, hn, rfl⟩ := hc
    rw [BucketIndex.call, BucketIndex.set_eq, BucketIndex.property?_write,
      if_pos ⟨hk.symm, hn.symm⟩, BucketIndex.property?_congr hk hn]
  | add _ _ _ => exact hc.elim
  | touch _ => exact hc.elim
  | delete _ _ _ => exact hc.elim
  | drop _ _ => exact hc.elim

theorem property?_of_keeps (hr : ¬Removes calls c k n) (hw : ¬c.Writes k n) :
    ((ofCalls calls).call c).property? k n = (ofCalls calls).property? k n := by
  cases c with
  | add k' n' p =>
    rw [BucketIndex.call, BucketIndex.add_eq, BucketIndex.property?_write, if_neg]
    exact fun h => hw ⟨p, .inl ⟨h.1.symm, h.2.symm, rfl⟩⟩
  | set k' n' p =>
    rw [BucketIndex.call, BucketIndex.set_eq, BucketIndex.property?_write, if_neg]
    exact fun h => hw ⟨p, .inr ⟨h.1.symm, h.2.symm, rfl⟩⟩
  | touch k' =>
    rw [BucketIndex.call]
    cases hk' : (ofCalls calls).get? k' with
    | none => rw [BucketIndex.touch_of_eq_none hk']
    | some b =>
      obtain ⟨f, -, hold, htouch⟩ := (agrees_of_past hpast).proper.touch_eq hk'
      rw [htouch, BucketIndex.property?_write]
      split
      · next h => rw [BucketIndex.property?_congr h.1 h.2, hold]
      · rfl
  | delete selector layer name =>
    have hproper := (agrees_of_past hpast).proper
    rw [Removes, isTarget_iff hpast] at hr
    rw [BucketIndex.call]
    cases he : (ofCalls calls).mostRecent? selector layer with
    | none => rw [BucketIndex.delete_of_eq_none he]
    | some e =>
      rw [hproper.delete_eq he, hproper.property?_alter, if_neg]
      exact fun h => hr ⟨⟨e, he, h.1.symm⟩, h.2⟩
  | drop selector layer =>
    rw [Removes] at hr
    rw [BucketIndex.call, BucketIndex.property?, BucketIndex.propertiesOf_drop, if_neg hr]
    rfl

omit hpast in
theorem not_removes_of_writes (hw : c.Writes k n) : ¬Removes calls c k n := by
  obtain ⟨p, hp⟩ := hw
  cases c with
  | add _ _ _ => simp [Removes]
  | set _ _ _ => simp [Removes]
  | touch _ => simp [BucketCall.Adds, BucketCall.Sets] at hp
  | delete _ _ _ => simp [BucketCall.Adds, BucketCall.Sets] at hp
  | drop _ _ => simp [BucketCall.Adds, BucketCall.Sets] at hp

theorem Agrees.concat (c : BucketCall) : Agrees (calls ++ [c]) := by
  have h := agrees_of_past hpast
  refine ⟨by rw [ofCalls_concat]; exact h.proper.call c, fun k n => ?_, h.marked_concat c⟩
  rw [ofCalls_concat, holds_concat, ← h.holds]
  by_cases hw : c.Writes k n
  · obtain ⟨p, hc | hc⟩ := hw
    · simp [property?_of_adds hc, show c.Writes k n from ⟨p, .inl hc⟩]
    · simp [property?_of_sets hc, show c.Writes k n from ⟨p, .inr hc⟩]
  · by_cases hr : Removes calls c k n
    · simp [property?_of_removes hpast hr, hw, hr]
    · simp [property?_of_keeps hpast hr hw, hw, hr]

end Target

end Agreement

theorem not_holds_nil (k : BucketKey) (n : Json) : ¬Holds [] k n := by
  rw [holds_iff]
  rintro ⟨i, hw, -⟩
  exact absurd hw.lt (Nat.not_lt_zero i)

theorem agrees_nil : Agrees [] := by
  refine ⟨.empty, fun k n => ?_, fun e he => absurd he List.not_mem_nil⟩
  constructor
  · intro h
    simp [ofCalls, BucketIndex.property?_empty] at h
  · intro h
    exact absurd h (not_holds_nil k n)

/-- The index and the history agree after every number of calls. -/
theorem agrees_take (calls : List BucketCall) : ∀ i, Agrees (calls.take i) :=
  forall_take agrees_nil (fun _ c hpast => Agrees.concat hpast c) calls

theorem agrees (calls : List BucketCall) : Agrees calls :=
  agrees_of_past (agrees_take calls)

end BucketTrace

end StyleLedger
