import StyleLedger.Proofs.Cascade.Index
import Mathlib.Data.List.Induction

/-!
What a history of calls dictates about an index of buckets.

What is in an index after some calls can be said without the index, from the calls alone: a key
holds a property when a call has written it and no later call has removed it. Which properties a
deletion removes depends in turn on which bucket was written last, so the notions of section 2 refer
to one another, each time to calls that came earlier. Section 3 says what one more call changes.

Selectors, layers and names are compared as the index compares them, by what they are found under.

* `BucketCall`, `BucketIndex.ofCalls` — calls, and the index after some of them.
* `BucketTrace.Holds`, `IsLive`, `RemovedAt`, `MarkedAt`, `IsTarget` — what a history dictates.
* `BucketTrace.HasContent`, `FirstWriteAt`, `FirstBucketWriteAt` — which write counts.
-/

namespace StyleLedger

open Keyed (key)

/-! ## 1. Calls -/

/-- A call on an index of buckets. -/
inductive BucketCall
  | add (k : BucketKey) (name : Json) (p : StyleProperty)
  | set (k : BucketKey) (name : Json) (p : StyleProperty)
  | touch (k : BucketKey)
  | delete (selector layer : Json) (name : Option Json)
  | drop (selector layer : Json)
deriving Repr, DecidableEq

namespace BucketCall

/-- The call adds a property. -/
def Adds (k : BucketKey) (n : Json) (p : StyleProperty) : BucketCall → Prop
  | .add k' n' p' => key k' = key k ∧ key n' = key n ∧ p' = p
  | _ => False

/-- The call sets a property. -/
def Sets (k : BucketKey) (n : Json) (p : StyleProperty) : BucketCall → Prop
  | .set k' n' p' => key k' = key k ∧ key n' = key n ∧ p' = p
  | _ => False

/-- The call writes a property: it adds it or sets it. -/
def Writes (k : BucketKey) (n : Json) (c : BucketCall) : Prop :=
  ∃ p, c.Adds k n p ∨ c.Sets k n p

theorem Adds.not_sets {k : BucketKey} {n : Json} {p q : StyleProperty} {c : BucketCall}
    (h : c.Adds k n p) : ¬c.Sets k n q := by
  cases c with
  | add _ _ _ => exact fun hsets => hsets
  | set _ _ _ => exact h.elim
  | touch _ => exact h.elim
  | delete _ _ _ => exact h.elim
  | drop _ _ => exact h.elim

end BucketCall

namespace BucketIndex

/-- The index after a call. -/
def call (index : BucketIndex) : BucketCall → BucketIndex
  | .add k name p => (index.add k name p).1
  | .set k name p => index.set k name p
  | .touch k => (index.touch k).1
  | .delete selector layer name => (index.delete selector layer name).1
  | .drop selector layer => (index.drop selector layer).1

/-- The index after some calls on an empty one. -/
def ofCalls (calls : List BucketCall) : BucketIndex :=
  calls.foldl call {}

theorem ofCalls_concat (calls : List BucketCall) (c : BucketCall) :
    ofCalls (calls ++ [c]) = (ofCalls calls).call c := by
  simp [ofCalls]

theorem IsProper.call {index : BucketIndex} (h : index.IsProper) (c : BucketCall) :
    (index.call c).IsProper := by
  cases c with
  | add k name p => exact h.add k name p
  | set k name p => exact h.set k name p
  | touch k => exact h.touch k
  | delete selector layer name => exact h.delete selector layer name
  | drop selector layer => exact h.drop selector layer

theorem clock_le_call (index : BucketIndex) (c : BucketCall) :
    index.clock ≤ (index.call c).clock := by
  have hnext : index.clock ≤ index.clock + 1 := by omega
  cases c with
  | add k name p =>
    simp only [call, add]
    split
    · exact hnext
    · exact hnext
  | set k name p => exact hnext
  | touch k =>
    simp only [call, touch]
    split
    · exact hnext
    · exact Int.le_refl _
  | delete selector layer name =>
    refine Int.le_of_eq ?_
    rcases delete_cases index selector layer name with heq | ⟨k, b, left, -, -, heq⟩
    · rw [call, heq]
    · rw [call, heq]
  | drop selector layer => exact Int.le_refl _

end BucketIndex

open BucketIndex (ofCalls ofCalls_concat)

/-! ## 2. What a history dictates -/

namespace BucketTrace

/-- Call number `i` has a property that may depend on the calls before it. -/
def CallAt (P : List BucketCall → BucketCall → Prop) (calls : List BucketCall) (i : Nat) : Prop :=
  ∃ h : i < calls.length, P (calls.take i) calls[i]

/-- Call number `i` adds a property. -/
def AddsAt (calls : List BucketCall) (i : Nat) (k : BucketKey) (n : Json) (p : StyleProperty) :
    Prop :=
  CallAt (fun _ c => c.Adds k n p) calls i

/-- Call number `i` sets a property. -/
def SetsAt (calls : List BucketCall) (i : Nat) (k : BucketKey) (n : Json) (p : StyleProperty) :
    Prop :=
  CallAt (fun _ c => c.Sets k n p) calls i

/-- Call number `i` writes a property. -/
def WritesAt (calls : List BucketCall) (i : Nat) (k : BucketKey) (n : Json) : Prop :=
  CallAt (fun _ c => c.Writes k n) calls i

mutual

/-- A key holds a property: a call has written it, and no later one has removed it. -/
def Holds (calls : List BucketCall) (k : BucketKey) (n : Json) : Prop :=
  ∃ i, WritesAt calls i k n ∧ ∀ j, i < j → ¬RemovedAt calls j k n
termination_by (calls.length, 1)

/-- Call number `i` removes a property. -/
def RemovedAt (calls : List BucketCall) (i : Nat) (k : BucketKey) (n : Json) : Prop :=
  ∃ h : i < calls.length, Removes (calls.take i) calls[i] k n
termination_by (calls.length, 0)

/-- A call that comes after some others removes a property. A deletion removes the property it
names, or any, from the bucket it is aimed at; a drop removes all properties of every bucket of its
selector and layer. -/
def Removes (past : List BucketCall) (c : BucketCall) (k : BucketKey) (n : Json) : Prop :=
  match c with
  | .delete selector layer name =>
    IsTarget past selector layer k ∧ ∀ m ∈ name, key m = key n
  | .drop selector layer => k.isFor selector layer
  | _ => False
termination_by (past.length, 4)

/-- A bucket is there: its key holds a property. -/
def IsLive (calls : List BucketCall) (k : BucketKey) : Prop :=
  ∃ n, Holds calls k n
termination_by (calls.length, 2)

/-- Call number `i` marks a bucket as the one written last. An add does so even if it gives way to
the property that is there, and a touch if the bucket is there. -/
def MarkedAt (calls : List BucketCall) (i : Nat) (k : BucketKey) : Prop :=
  ∃ h : i < calls.length, Marks (calls.take i) calls[i] k
termination_by (calls.length, 0)

/-- A call that comes after some others marks a bucket. -/
def Marks (past : List BucketCall) (c : BucketCall) (k : BucketKey) : Prop :=
  match c with
  | .add k' _ _ | .set k' _ _ => key k' = key k
  | .touch k' => key k' = key k ∧ IsLive past k
  | _ => False
termination_by (past.length, 3)

/-- A bucket that a deletion is aimed at: it is there, it is for the selector and the layer, and
once it was marked for the last time no bucket like this was marked. -/
def IsTarget (calls : List BucketCall) (selector layer : Json) (k : BucketKey) : Prop :=
  IsLive calls k ∧ k.isFor selector layer ∧ ∃ i, MarkedAt calls i k ∧
    ∀ j, i < j → ∀ k', IsLive calls k' → k'.isFor selector layer → ¬MarkedAt calls j k'
termination_by (calls.length, 3)

end

/-- Something has been so since call number `i`, and was not before it. -/
def ArrivedAt (present : List BucketCall → Prop) (calls : List BucketCall) (i : Nat) : Prop :=
  ¬present (calls.take i) ∧ ∀ j, i < j → j ≤ calls.length → present (calls.take j)

/-- Call number `i` is the first write of a property since it was last absent. -/
def FirstWriteAt (calls : List BucketCall) (i : Nat) (k : BucketKey) (n : Json) : Prop :=
  WritesAt calls i k n ∧ ArrivedAt (Holds · k n) calls i

/-- Call number `i` is the first write to a bucket since it was last absent. -/
def FirstBucketWriteAt (calls : List BucketCall) (i : Nat) (k : BucketKey) : Prop :=
  (∃ n, WritesAt calls i k n) ∧ ArrivedAt (IsLive · k) calls i

/-- No call after call number `i` has removed a property. -/
def Since (calls : List BucketCall) (i : Nat) (k : BucketKey) (n : Json) : Prop :=
  ∀ j, i < j → ¬RemovedAt calls j k n

/-- The last call since its removal that sets a property. -/
def LastSetAt (calls : List BucketCall) (i : Nat) (k : BucketKey) (n : Json) (p : StyleProperty) :
    Prop :=
  SetsAt calls i k n p ∧ Since calls i k n ∧ ∀ j q, i < j → ¬SetsAt calls j k n q

/-- The first call since its removal that adds a property. -/
def FirstAddAt (calls : List BucketCall) (i : Nat) (k : BucketKey) (n : Json) (p : StyleProperty) :
    Prop :=
  AddsAt calls i k n p ∧ Since calls i k n ∧
    ∀ j q, j < i → AddsAt calls j k n q → ¬Since calls j k n

/-- Two properties have the same value, spacing mode and provenance. -/
def SameContent (p q : StyleProperty) : Prop :=
  p.value = q.value ∧ p.spacingMode = q.spacingMode ∧ p.originFile = q.originFile ∧
    p.migrationId = q.migrationId

/-- The content of a property is that of the last set since its removal, or of the first add if
there was no set. -/
def HasContent (calls : List BucketCall) (k : BucketKey) (n : Json) (p : StyleProperty) : Prop :=
  (∃ i q, LastSetAt calls i k n q ∧ SameContent p q) ∨
    (∀ i q, SetsAt calls i k n q → ¬Since calls i k n) ∧
      ∃ i q, FirstAddAt calls i k n q ∧ SameContent p q

/-! ## 3. Histories with one more call -/

section Concat

variable {calls : List BucketCall} {c : BucketCall} {i : Nat} {k : BucketKey} {n : Json}
  {p : StyleProperty}

theorem CallAt.lt {P : List BucketCall → BucketCall → Prop} (h : CallAt P calls i) :
    i < calls.length :=
  h.1

theorem callAt_concat {P : List BucketCall → BucketCall → Prop} :
    CallAt P (calls ++ [c]) i ↔ CallAt P calls i ∨ i = calls.length ∧ P calls c := by
  rcases Nat.lt_trichotomy i calls.length with hi | rfl | hi
  · have htake : (calls ++ [c]).take i = calls.take i := List.take_append_of_le_length (by omega)
    have hget : ∀ h : i < (calls ++ [c]).length, (calls ++ [c])[i] = calls[i] :=
      fun _ => List.getElem_append_left hi
    constructor
    · rintro ⟨h, hP⟩
      rw [htake, hget] at hP
      exact .inl ⟨hi, hP⟩
    · rintro (⟨h, hP⟩ | ⟨rfl, -⟩)
      · exact ⟨by simp; omega, by rwa [htake, hget]⟩
      · omega
  · simp [CallAt]
  · constructor
    · rintro ⟨h, -⟩
      simp at h
      omega
    · rintro (⟨h, -⟩ | ⟨rfl, -⟩)
      · omega
      · omega

theorem removedAt_iff : RemovedAt calls i k n ↔ CallAt (Removes · · k n) calls i := by
  rw [RemovedAt, CallAt]

theorem markedAt_iff : MarkedAt calls i k ↔ CallAt (Marks · · k) calls i := by
  rw [MarkedAt, CallAt]

theorem removedAt_concat : RemovedAt (calls ++ [c]) i k n ↔
    RemovedAt calls i k n ∨ i = calls.length ∧ Removes calls c k n := by
  simp only [removedAt_iff, callAt_concat]

theorem markedAt_concat : MarkedAt (calls ++ [c]) i k ↔
    MarkedAt calls i k ∨ i = calls.length ∧ Marks calls c k := by
  simp only [markedAt_iff, callAt_concat]

theorem addsAt_concat : AddsAt (calls ++ [c]) i k n p ↔
    AddsAt calls i k n p ∨ i = calls.length ∧ c.Adds k n p :=
  callAt_concat

theorem setsAt_concat : SetsAt (calls ++ [c]) i k n p ↔
    SetsAt calls i k n p ∨ i = calls.length ∧ c.Sets k n p :=
  callAt_concat

theorem writesAt_concat : WritesAt (calls ++ [c]) i k n ↔
    WritesAt calls i k n ∨ i = calls.length ∧ c.Writes k n :=
  callAt_concat

theorem holds_iff : Holds calls k n ↔ ∃ i, WritesAt calls i k n ∧ Since calls i k n := by
  rw [Holds]
  rfl

theorem isLive_iff : IsLive calls k ↔ ∃ n, Holds calls k n := by
  rw [IsLive]

/-- A call before the last one has not been undone by it. -/
theorem since_concat (hi : i < calls.length) :
    Since (calls ++ [c]) i k n ↔ Since calls i k n ∧ ¬Removes calls c k n := by
  constructor
  · intro h
    exact ⟨fun j hj hr => h j hj (removedAt_concat.2 (.inl hr)),
      fun hr => h calls.length hi (removedAt_concat.2 (.inr ⟨rfl, hr⟩))⟩
  · rintro ⟨h, hc⟩ j hj hr
    rcases removedAt_concat.1 hr with hr | ⟨-, hr⟩
    · exact h j hj hr
    · exact hc hr

/-- The last call has not been undone. -/
theorem since_length : Since (calls ++ [c]) calls.length k n := by
  intro j hj hr
  have hlt := (removedAt_iff.1 hr).lt
  rw [List.length_append, List.length_singleton] at hlt
  omega

theorem holds_concat : Holds (calls ++ [c]) k n ↔
    c.Writes k n ∨ Holds calls k n ∧ ¬Removes calls c k n := by
  simp only [holds_iff, writesAt_concat]
  constructor
  · rintro ⟨i, hw | ⟨-, hw⟩, hsince⟩
    · rw [since_concat hw.lt] at hsince
      exact .inr ⟨⟨i, hw, hsince.1⟩, hsince.2⟩
    · exact .inl hw
  · rintro (hw | ⟨⟨i, hw, hsince⟩, hr⟩)
    · exact ⟨calls.length, .inr ⟨rfl, hw⟩, since_length⟩
    · exact ⟨i, .inl hw, (since_concat hw.lt).2 ⟨hsince, hr⟩⟩

end Concat

/-- What holds after no call and is kept by one more call holds after every number of calls. -/
theorem forall_take {P : List BucketCall → Prop} (hnil : P [])
    (hconcat : ∀ calls c, (∀ i, P (calls.take i)) → P (calls ++ [c])) (calls : List BucketCall)
    (i : Nat) : P (calls.take i) := by
  induction calls using List.reverseRecOn generalizing i with
  | nil => simpa using hnil
  | append_singleton calls c ih =>
    rcases Nat.lt_or_ge calls.length i with hi | hi
    · rw [List.take_of_length_le (by simp; omega)]
      exact hconcat calls c ih
    · rw [List.take_append_of_le_length hi]
      exact ih i

end BucketTrace

end StyleLedger
