import StyleLedger.Proofs.Cascade.Kept
import StyleLedger.Proofs.Cascade.Settled

/-!
Statements that are applied again to what they have led to.

Statements that take nothing away lead from any cascade to a cascade `t`. When they are applied to
`t` once more, every key they write is there already, so nothing changes its place, and of the
values of a key the last one wins as it did before. While the second run is on its way the two are
not the same: it may have put back an earlier value. So the invariant relates three cascades: where
the first run was (`s`), where the second one is (`u`), and where the first one ended (`t`). The
keys of `u` are those of `t`, and each value of `u` is the one of `s`, or still the one of `t`. A
statement keeps this (`Retraces.step`), as long as the first run goes on to `t`; in the end `s` is
`t`, so `u` holds the entries of `t`. Raw blocks and imports have no keys and are left out.

* `Table.Retraces`, `BucketIndex.Retraces`, `Cascade.Retraces` — the invariant.
* `Cascade.keyed` — what is addressed by keys.
-/

namespace StyleLedger

open Outcome
open Keyed (key)

/-! ## 1. Tables -/

namespace Table

variable {κ α β : Type} [DecidableEq κ] [Keyed κ] {f : α → β} {s t u : Table κ α} {k : κ}

/-- Whether a key is there depends on the keys only. -/
theorem contains_of_keys_eq (h : s.keys = t.keys) (k : κ) : s.contains k = t.contains k := by
  have hkeys : ∀ t : Table κ α, t.contains k = true ↔ ∃ l ∈ t.keys, key l = key k := fun t => by
    rw [contains, isSome_get?_iff, keys]
    simp
  rw [Bool.eq_iff_iff, hkeys, hkeys, h]

/-- The entries of a table are known from its keys and the values of these. -/
theorem IsDistinct.entries_eq [Inhabited α] (h : t.IsDistinct) :
    t.entries = t.keys.map fun k => (k, (t.get? k).getD default) := by
  rw [keys, List.map_map]
  refine (List.map_id' _).symm.trans (List.map_congr_left fun e he => ?_)
  have hget : t.get? e.1 = some e.2 := h.get?_eq_some_iff.2 ⟨e.1, rfl, he⟩
  simp [hget]

omit [DecidableEq κ] in
theorem IsDistinct.of_keys_eq (h : t.IsDistinct) (hkeys : u.keys = t.keys) : u.IsDistinct := by
  have hpairwise : t.keys.Pairwise fun k l => key k ≠ key l := by
    rw [keys, List.pairwise_map]
    exact h
  rwa [← hkeys, keys, List.pairwise_map] at hpairwise

omit [DecidableEq κ] in
theorem IsCanonical.isDistinct (h : t.IsCanonical) : t.IsDistinct := by
  refine (List.pairwise_map.1 h.distinct).imp_of_mem fun {d e} hd he hne => ?_
  rwa [h.plain _ (mem_keys_of_mem hd), h.plain _ (mem_keys_of_mem he)]

/-- Where a run that is repeated writes to a table: `s` is what the first run had written so far,
`t` what it came to, and `u` is where the second run is. The keys are those of `t`, and every value
has the part of the one in `s`, or still of the one in `t`. -/
structure Retraces (f : α → β) (s u t : Table κ α) : Prop where
  keys : u.keys = t.keys
  parts : ∀ k v, u.get? k = some v →
    (s.get? k).map f = some (f v) ∨ (t.get? k).map f = some (f v)

theorem Retraces.start (s t : Table κ α) : Retraces f s t t :=
  ⟨rfl, fun k v hv => .inr (by rw [hv]; rfl)⟩

/-- Of where the first run was only the values count. -/
theorem Retraces.of_get?_eq {s' : Table κ α} (h : Retraces f s u t)
    (hs : ∀ k, s'.get? k = s.get? k) : Retraces f s' u t :=
  ⟨h.keys, fun k v hv => by rw [hs]; exact h.parts k v hv⟩

/-- A write to both tables goes to a key that is there. -/
theorem Retraces.put (h : Retraces f s u t) (hk : t.contains k = true) {v w : α} (hvw : f v = f w) :
    Retraces f (s.put k v) (u.put k w) t := by
  have hu : (u.get? k).isSome := (contains_of_keys_eq h.keys k).trans hk
  refine ⟨by rw [keys_put, if_pos hu, h.keys], fun l x hx => ?_⟩
  rw [get?_put] at hx ⊢
  split at hx
  · next hl =>
    obtain rfl := Option.some.inj hx
    exact .inl (by rw [if_pos hl, Option.map_some, hvw])
  · next hl =>
    rw [if_neg hl]
    exact h.parts l x hx

/-- Where only a key without a value is written, the first run catches up with the second. -/
theorem Retraces.put_left (h : Retraces f s u t) (hk : s.contains k = false) (v : α) :
    Retraces f (s.put k v) u t := by
  refine ⟨h.keys, fun l x hx => ?_⟩
  rw [get?_put]
  split
  · next hl =>
    have hnone : s.get? l = none := by
      rw [get?_congr hl]
      simpa [contains] using hk
    exact .inr ((h.parts l x hx).resolve_left (by simp [hnone]))
  · exact h.parts l x hx

/-- Tables with the same keys are the same in a part when their values are. -/
theorem IsDistinct.same_of_get? [Inhabited α] (ht : t.IsDistinct) (hkeys : u.keys = t.keys)
    (h : ∀ k v w, t.get? k = some v → u.get? k = some w → f v = f w) : t.Same f u := by
  have hentries : t.entries.map (fun e => (e.1, f e.2)) = u.entries.map fun e => (e.1, f e.2) := by
    rw [ht.entries_eq, (ht.of_keys_eq hkeys).entries_eq, hkeys, List.map_map, List.map_map]
    refine List.map_congr_left fun k hk => congrArg (Prod.mk k) ?_
    obtain ⟨e, he, rfl⟩ := List.mem_map.1 hk
    have hthere : t.contains e.1 = true := isSome_get?_iff.2 ⟨e, he, rfl⟩
    obtain ⟨v, hv⟩ := Option.isSome_iff_exists.1 hthere
    obtain ⟨w, hw⟩ := Option.isSome_iff_exists.1 ((contains_of_keys_eq hkeys e.1).trans hthere)
    simpa [hv, hw] using h e.1 v w hv hw
  exact congrArg Table.mk hentries

theorem Retraces.part_eq (h : Retraces f t u t) {v w : α} (hv : t.get? k = some v)
    (hw : u.get? k = some w) : f v = f w := by
  have hpart : (t.get? k).map f = some (f w) := (h.parts k w hw).elim id id
  rw [hv] at hpart
  exact Option.some.inj hpart

/-- In the end both tables are the same. -/
theorem Retraces.same [Inhabited α] (h : Retraces f t u t) (ht : t.IsDistinct) : t.Same f u :=
  ht.same_of_get? h.keys fun _ _ _ => h.part_eq

end Table

/-! ## 2. Buckets -/

/-- What a declaration sets of a property. -/
def StyleProperty.written (p : StyleProperty) : Json × Json :=
  (p.value, p.spacingMode)

namespace BucketIndex

variable {s t u : BucketIndex} {k l : BucketKey} {n : Json}

/-- No bucket was written later than the clock shows. -/
def IsPast (s : BucketIndex) : Prop :=
  ∀ k b, s.get? k = some b → b.time ≤ s.clock

theorem IsPast.putTouched (h : s.IsPast) (k : BucketKey) (properties : Table Json StyleProperty) :
    (s.putTouched k properties).IsPast := by
  intro l b hb
  show b.time ≤ s.clock + 1
  rw [get?_putTouched] at hb
  split at hb
  · obtain rfl := Option.some.inj hb
    simp
  · have hpast := h l b hb
    omega

theorem keys_putTouched (h : (s.get? k).isSome) (properties : Table Json StyleProperty) :
    (s.putTouched k properties).buckets.keys = s.buckets.keys :=
  (Table.keys_put _ _ _).trans (if_pos h)

theorem IsCoherent.isPast {K : BucketKey → Prop} (h : s.IsCoherent K) : s.IsPast := by
  intro k b hb
  obtain ⟨n, hn, -, hle⟩ := (h.get? hb).touched
  rwa [Bucket.time_eq hn]

theorem IsSound.isPast {migrations : List String} (h : s.IsSound migrations) : s.IsPast := by
  intro k b hb
  obtain ⟨l, -, hmem⟩ := Table.lookup_mem hb
  obtain ⟨n, hn, -, hle⟩ := h.touched _ hmem
  rwa [Bucket.time_eq hn]

theorem IsCoherent.isProper {K : BucketKey → Prop} (h : s.IsCoherent K) : s.IsProper :=
  ⟨h.canonical.isDistinct, fun e he =>
    ⟨(h.all e he).2.properties.isCanonical.isDistinct, (h.all e he).2.nonempty⟩⟩

/-- While a run is repeated: `s` is where the first run was, `t` where it ended, and `u` is where
the second run is. The buckets and their properties are those of `t`, with their numbers; what was
written is that of `s`, or still that of `t`. Of the buckets that the first run found at the time
`since`, those that it has written so far have been written again, after all of `t` and in the same
order; the others have the times that they have in `t`. -/
structure Retraces (since : Int) (s u t : BucketIndex) : Prop where
  keys : u.buckets.keys = t.buckets.keys
  properties : ∀ k, (s.propertiesOf k).Retraces StyleProperty.written (u.propertiesOf k)
    (t.propertiesOf k)
  numbers : ∀ k, (u.propertiesOf k).Same StyleProperty.sequence (t.propertiesOf k)
  order : ∀ k l b c b' c', s.get? k = some b → s.get? l = some c → u.get? k = some b' →
    u.get? l = some c' → since < b.time → since < c.time → (b.time < c.time ↔ b'.time < c'.time)
  again : ∀ k b b', s.get? k = some b → u.get? k = some b' → since < b.time → t.clock < b'.time
  kept : ∀ k b b', s.get? k = some b → u.get? k = some b' → b.time ≤ since →
    ∃ d, t.get? k = some d ∧ b'.time = d.time
  leftPast : s.IsPast
  rightPast : u.IsPast
  leftClock : since ≤ s.clock
  rightClock : t.clock ≤ u.clock

namespace Retraces

variable {since : Int}

theorem start (hs : s.IsPast) (ht : t.IsPast) : Retraces s.clock s t t where
  keys := rfl
  properties _ := .start _ _
  numbers _ := rfl
  order k _ b _ _ _ hb _ _ _ hlate := absurd (hs k b hb) (Int.not_le.2 hlate)
  again k b _ hb _ hlate := absurd (hs k b hb) (Int.not_le.2 hlate)
  kept _ _ b' _ hb' _ := ⟨b', hb', rfl⟩
  leftPast := hs
  rightPast := ht
  leftClock := Int.le_refl _
  rightClock := Int.le_refl _

theorem isSome_get? (h : Retraces since s u t) (k : BucketKey) :
    (u.get? k).isSome = (t.get? k).isSome :=
  Table.contains_of_keys_eq h.keys k

/-- The times of the buckets that are written now are the last ones on both sides. -/
theorem putTouched (h : Retraces since s u t) (hk : (t.get? k).isSome)
    {ps qs : Table Json StyleProperty}
    (hps : ps.Retraces StyleProperty.written qs (t.propertiesOf k))
    (hqs : qs.Same StyleProperty.sequence (t.propertiesOf k)) :
    (s.putTouched k ps).Retraces since (u.putTouched k qs) t where
  keys := (keys_putTouched ((h.isSome_get? k).trans hk) qs).trans h.keys
  properties l := by
    rw [propertiesOf_putTouched, propertiesOf_putTouched]
    by_cases hl : key l = key k
    · rw [if_pos hl, if_pos hl, propertiesOf_congr hl]
      exact hps
    · rw [if_neg hl, if_neg hl]
      exact h.properties l
  numbers l := by
    rw [propertiesOf_putTouched]
    by_cases hl : key l = key k
    · rw [if_pos hl, propertiesOf_congr hl]
      exact hqs
    · rw [if_neg hl]
      exact h.numbers l
  order l m b c b' c' hb hc hb' hc' hlate hlate' := by
    rw [get?_putTouched] at hb hc hb' hc'
    by_cases hl : key l = key k
    · rw [if_pos hl] at hb hb'
      obtain rfl := Option.some.inj hb
      obtain rfl := Option.some.inj hb'
      by_cases hm : key m = key k
      · rw [if_pos hm] at hc hc'
        obtain rfl := Option.some.inj hc
        obtain rfl := Option.some.inj hc'
        simp
      · rw [if_neg hm] at hc hc'
        have hleft := h.leftPast m c hc
        have hright := h.rightPast m c' hc'
        simp only [Bucket.time_int]
        omega
    · rw [if_neg hl] at hb hb'
      by_cases hm : key m = key k
      · rw [if_pos hm] at hc hc'
        obtain rfl := Option.some.inj hc
        obtain rfl := Option.some.inj hc'
        have hleft := h.leftPast l b hb
        have hright := h.rightPast l b' hb'
        simp only [Bucket.time_int]
        omega
      · rw [if_neg hm] at hc hc'
        exact h.order l m b c b' c' hb hc hb' hc' hlate hlate'
  again l b b' hb hb' hlate := by
    rw [get?_putTouched] at hb hb'
    by_cases hl : key l = key k
    · rw [if_pos hl] at hb'
      obtain rfl := Option.some.inj hb'
      have hclock := h.rightClock
      simp only [Bucket.time_int]
      omega
    · rw [if_neg hl] at hb hb'
      exact h.again l b b' hb hb' hlate
  kept l b b' hb hb' hearly := by
    rw [get?_putTouched] at hb hb'
    by_cases hl : key l = key k
    · rw [if_pos hl] at hb
      obtain rfl := Option.some.inj hb
      have hclock := h.leftClock
      simp only [Bucket.time_int] at hearly
      omega
    · rw [if_neg hl] at hb hb'
      exact h.kept l b b' hb hb' hearly
  leftPast := h.leftPast.putTouched k ps
  rightPast := h.rightPast.putTouched k qs
  leftClock := Int.le_trans h.leftClock (Int.le_of_lt (Int.lt_succ s.clock))
  rightClock := Int.le_trans h.rightClock (Int.le_of_lt (Int.lt_succ u.clock))

/-- A bucket that only the second run has is written there alone. -/
theorem putTouched_right (h : Retraces since s u t) (hs : s.get? k = none)
    (hk : (t.get? k).isSome) :
    s.Retraces since (u.putTouched k (u.propertiesOf k)) t := by
  have hwritten : ∀ l b, s.get? l = some b → (u.putTouched k (u.propertiesOf k)).get? l =
      u.get? l := by
    intro l b hb
    rw [get?_putTouched, if_neg]
    intro hl
    have hnone : s.get? l = none := (Table.get?_congr hl s.buckets).trans hs
    simp [hnone] at hb
  have hproperties (l : BucketKey) :
      (u.putTouched k (u.propertiesOf k)).propertiesOf l = u.propertiesOf l := by
    rw [propertiesOf_putTouched]
    split
    · next hl => rw [propertiesOf_congr hl]
    · rfl
  exact {
    keys := (keys_putTouched ((h.isSome_get? k).trans hk) _).trans h.keys
    properties := fun l => by
      rw [hproperties]
      exact h.properties l
    numbers := fun l => by
      rw [hproperties]
      exact h.numbers l
    order := fun l m b c b' c' hb hc hb' hc' => by
      rw [hwritten l b hb] at hb'
      rw [hwritten m c hc] at hc'
      exact h.order l m b c b' c' hb hc hb' hc'
    again := fun l b b' hb hb' => by
      rw [hwritten l b hb] at hb'
      exact h.again l b b' hb hb'
    kept := fun l b b' hb hb' => by
      rw [hwritten l b hb] at hb'
      exact h.kept l b b' hb hb'
    leftPast := h.leftPast
    rightPast := h.rightPast.putTouched k _
    leftClock := h.leftClock
    rightClock := Int.le_trans h.rightClock (Int.le_of_lt (Int.lt_succ u.clock)) }

theorem touch (h : Retraces since s u t) (hwithin : s.Within t) (k : BucketKey) :
    (s.touch k).1.Retraces since (u.touch k).1 t := by
  cases hs : s.get? k with
  | some b =>
    have hk : (t.get? k).isSome := hwithin.buckets k (by simp [hs])
    rw [touch_of_isSome (by simp [hs]), touch_of_isSome ((h.isSome_get? k).trans hk)]
    exact h.putTouched hk (h.properties k) (h.numbers k)
  | none =>
    rw [touch_of_eq_none hs]
    cases hu : u.get? k with
    | none =>
      rw [touch_of_eq_none hu]
      exact h
    | some b =>
      have hk : (t.get? k).isSome := by rw [← h.isSome_get? k, hu]; rfl
      rw [touch_of_isSome (by simp [hu])]
      exact h.putTouched_right hs hk

/-- A property is added where the first run has none; the second run has it already. -/
theorem add (h : Retraces since s u t) (hk : (t.get? k).isSome)
    (hn : (t.propertiesOf k).contains n = true) (p q : StyleProperty) :
    (s.add k n p).1.Retraces since (u.add k n q).1 t := by
  have hu : (u.propertiesOf k).contains n = true :=
    (Table.contains_of_keys_eq (h.properties k).keys n).trans hn
  simp only [BucketIndex.add, hu, if_true]
  split
  · exact h.putTouched hk (h.properties k) (h.numbers k)
  · next hs =>
    exact h.putTouched hk ((h.properties k).put_left (by simpa using hs) p) (h.numbers k)

/-- A property is set on both sides; the second run has it already, with its number. -/
theorem set (h : Retraces since s u t) (hk : (t.get? k).isSome)
    (hn : (t.propertiesOf k).contains n = true) {p q : StyleProperty}
    (hpq : p.written = q.written) : (s.set k n p).Retraces since (u.set k n q) t := by
  have hu : (u.propertiesOf k).contains n = true :=
    (Table.contains_of_keys_eq (h.properties k).keys n).trans hn
  obtain ⟨old, hold⟩ := Option.isSome_iff_exists.1 hu
  have hleft : ∀ x : Option StyleProperty, ((x.map (overwrite · p)).getD p).written = p.written :=
    fun x => by cases x <;> rfl
  rw [set_eq, set_eq, property?, property?, hold]
  refine h.putTouched hk ((h.properties k).put hn ((hleft _).trans hpq)) ?_
  refine Eq.trans ?_ (h.numbers k)
  have hnumber : ((u.propertiesOf k).map StyleProperty.sequence).get? n = some old.sequence := by
    rw [Table.get?_map, hold]
    rfl
  rw [Table.map_put]
  exact Table.put_self hnumber

end Retraces

/-! ### Declarations -/

section Writes

variable {since : Int} {ctx ctx' : Context} {mode : WriteMode} {d : Declaration}

namespace Retraces

theorem writeOne (h : Retraces since s u t) (hctx : ctx.Matches ctx')
    (hwithin : (Cascade.writeOne ctx mode k s d).Within t) :
    (Cascade.writeOne ctx mode k s d).Retraces since (Cascade.writeOne ctx' mode k u d) t := by
  obtain ⟨hbucket, hname⟩ := contains_writeOne ctx mode k s d
  have hk := hwithin.buckets k hbucket
  have hn := hwithin.properties k _ hname
  cases mode with
  | set =>
    refine h.set hk hn ?_
    simp [Cascade.newProperty, StyleProperty.written, hctx.spacingMode]
  | add => exact h.add hk hn _ _

theorem writeAll (h : Retraces since s u t) (hctx : ctx.Matches ctx') {ds : List Declaration}
    (hwithin : (Cascade.writeAll ctx mode ds s k).Within t) :
    (Cascade.writeAll ctx mode ds s k).Retraces since (Cascade.writeAll ctx' mode ds u k) t := by
  unfold Cascade.writeAll at hwithin ⊢
  split
  · next hempty =>
    rw [if_pos hempty] at hwithin
    exact h.touch ((s.within_touch k).trans hwithin) k
  · next hempty =>
    rw [if_neg hempty] at hwithin
    clear hempty
    induction ds generalizing s u with
    | nil => exact h
    | cons d ds ih =>
      have hrest := within_foldl (within_writeOne ctx mode k) ds (Cascade.writeOne ctx mode k s d)
      exact ih (h.writeOne hctx (hrest.trans hwithin)) hwithin

theorem writeKeys (h : Retraces since s u t) (hctx : ctx.Matches ctx') {ds : List Declaration}
    {keys : List BucketKey} (hwithin : (keys.foldl (Cascade.writeAll ctx mode ds) s).Within t) :
    (keys.foldl (Cascade.writeAll ctx mode ds) s).Retraces since
      (keys.foldl (Cascade.writeAll ctx' mode ds) u) t := by
  induction keys generalizing s u with
  | nil => exact h
  | cons k keys ih =>
    have hrest := within_writeKeys ctx mode ds keys (Cascade.writeAll ctx mode ds s k)
    exact ih (h.writeAll hctx (hrest.trans hwithin)) hwithin

end Retraces

end Writes

/-- The buckets of an index, each with the one that another index has under its key. -/
def pairs (s u : BucketIndex) : Table BucketKey (Bucket × Bucket) :=
  ⟨s.buckets.entries.map fun e => (e.1, e.2, (u.get? e.1).getD default)⟩

namespace Retraces

variable {since : Int}

theorem get?_of_mem_pairs (h : Retraces since t u t) (ht : t.IsProper)
    {e : BucketKey × Bucket × Bucket} (he : e ∈ (pairs t u).entries) :
    t.get? e.1 = some e.2.1 ∧ u.get? e.1 = some e.2.2 := by
  obtain ⟨d, hd, rfl⟩ := List.mem_map.1 he
  have hleft : t.get? d.1 = some d.2 := ht.get?_of_mem hd
  have hright : (u.get? d.1).isSome := by rw [h.isSome_get?, hleft]; rfl
  obtain ⟨b, hb⟩ := Option.isSome_iff_exists.1 hright
  exact ⟨hleft, by simp [hb]⟩

/-- In the end the properties of a bucket differ in nothing but where they come from. -/
theorem same_propertiesOf (h : Retraces since t u t) (ht : t.IsProper) (k : BucketKey) :
    (t.propertiesOf k).Same StyleProperty.bare (u.propertiesOf k) := by
  have hproperties := h.properties k
  refine (ht.isDistinct_propertiesOf k).same_of_get? hproperties.keys fun n p q hp hq => ?_
  have hwritten := hproperties.part_eq hp hq
  have hnumber : q.sequence = p.sequence := by
    rcases (h.numbers k).get?_cases n with ⟨hnone, -⟩ | ⟨v, w, hv, hw, hvw⟩
    · simp [hnone] at hq
    · obtain rfl := Option.some.inj (hv.symm.trans hq)
      obtain rfl := Option.some.inj (hw.symm.trans hp)
      exact hvw
  simp only [StyleProperty.written, Prod.mk.injEq] at hwritten
  simp [StyleProperty.bare, hwritten, hnumber]

/-- In the end the times of all buckets come in the same order: the buckets that both runs have
written are later than the others on both sides. -/
theorem time_lt_iff (h : Retraces since t u t) {k l : BucketKey} {b c b' c' : Bucket}
    (hb : t.get? k = some b) (hc : t.get? l = some c) (hb' : u.get? k = some b')
    (hc' : u.get? l = some c') : b.time < c.time ↔ b'.time < c'.time := by
  have hbpast := h.leftPast k b hb
  have hcpast := h.leftPast l c hc
  have hkept : ∀ {k b b'}, t.get? k = some b → u.get? k = some b' → b.time ≤ since →
      b'.time = b.time := by
    intro k b b' hb hb' hearly
    obtain ⟨d, hd, htime⟩ := h.kept k b b' hb hb' hearly
    rwa [← Option.some.inj (hb.symm.trans hd)] at htime
  by_cases hlate : since < b.time <;> by_cases hlate' : since < c.time
  · exact h.order k l b c b' c' hb hc hb' hc' hlate hlate'
  · have hagain := h.again k b b' hb hb' hlate
    have := hkept hc hc' (Int.not_lt.1 hlate')
    omega
  · have hagain := h.again l c c' hc hc' hlate'
    have := hkept hb hb' (Int.not_lt.1 hlate)
    omega
  · rw [hkept hb hb' (Int.not_lt.1 hlate), hkept hc hc' (Int.not_lt.1 hlate')]

end Retraces

/-- In the end both indexes match. -/
theorem Retraces.matches {since : Int} (h : Retraces since t u t) (ht : t.IsProper) :
    t.Matches u := by
  have hu : u.buckets.IsDistinct := ht.distinct.of_keys_eq h.keys
  refine ⟨pairs t u, ?_, ?_, fun e he => ?_, fun e he d hd => ?_, fun e he => ?_, fun e he => ?_⟩
  · simp [pairs, Table.map, Function.comp_def]
  · have hentries := hu.entries_eq
    rw [h.keys, Table.keys, List.map_map] at hentries
    show (⟨u.buckets.entries⟩ : Table BucketKey Bucket) = _
    rw [hentries]
    simp [pairs, Table.map, Function.comp_def, BucketIndex.get?]
  · obtain ⟨hleft, hright⟩ := h.get?_of_mem_pairs ht he
    rw [← propertiesOf_of_get? hleft, ← propertiesOf_of_get? hright]
    exact h.same_propertiesOf ht e.1
  · obtain ⟨hleft, hright⟩ := h.get?_of_mem_pairs ht he
    obtain ⟨hleft', hright'⟩ := h.get?_of_mem_pairs ht hd
    exact h.time_lt_iff hleft hleft' hright hright'
  · exact h.leftPast e.1 _ (h.get?_of_mem_pairs ht he).1
  · exact h.rightPast e.1 _ (h.get?_of_mem_pairs ht he).2

end BucketIndex

/-! ## 3. Layers -/

namespace LayerRegistry

variable {r r' : LayerRegistry}

theorem encounter_eq_self {name : Json} (h : r.entries.contains name = true) (p : Provenance) :
    r.encounter name p = r :=
  if_pos h

theorem declareOne_eq_self {name : Json} (h : r.entries.contains name = true)
    (hplace : r.declared.any name.alike = true) (p : Provenance) : declareOne p r name = r := by
  simp only [declareOne, encounter_eq_self h, hplace, if_true]

/-- Layers that are declared again keep their places. -/
theorem declare_eq_self {names : List Json} {p : Provenance} (h : (r.declare names p).Within r')
    (p' : Provenance) : r'.declare names p' = r' := by
  induction names generalizing r with
  | nil => rfl
  | cons name names ih =>
    have hone := (within_declare (declareOne p r name) names p).trans h
    obtain ⟨hknown, hplace⟩ := contains_declareOne p r name
    have hself := declareOne_eq_self (hone.entries _ hknown) (hone.declared _ hplace) p'
    rw [declare, List.foldl_cons, hself]
    exact ih h

end LayerRegistry

/-! ## 4. The second run -/

namespace Cascade

variable {s t u : Cascade} {ctx ctx' : Context}

/-- While statements are applied again to what they have led to: `s` is where the first run was,
`t` where it ended, and `u` is where the second run is. The buckets that the first run has written
are later than `since`. -/
structure Retraces (since : Int) (s u t : Cascade) : Prop where
  live : ∀ name, u.hasToken name = t.hasToken name
  tokens : s.tokens.Retraces TokenEntry.bare u.tokens t.tokens
  selectors : s.selectors.Retraces SelectorEntry.bare u.selectors t.selectors
  layers : u.layers = t.layers
  buckets : s.buckets.Retraces since u.buckets t.buckets
  properties : s.properties.Retraces PropertyEntry.bare u.properties t.properties
  fontFaces : s.fontFaces.Retraces FontFace.bare u.fontFaces t.fontFaces
  keyframes : s.keyframes.Retraces Animation.bare u.keyframes t.keyframes
  pages : s.pages.Retraces RuleBlock.bare u.pages t.pages
  counterStyles : s.counterStyles.Retraces RuleBlock.bare u.counterStyles t.counterStyles
  fontFeatureValues :
    s.fontFeatureValues.Retraces RuleBlock.bare u.fontFeatureValues t.fontFeatureValues
  fontPaletteValues :
    s.fontPaletteValues.Retraces RuleBlock.bare u.fontPaletteValues t.fontPaletteValues
  startingStyles : s.startingStyles.Retraces RuleBlock.bare u.startingStyles t.startingStyles

namespace Retraces

variable {since : Int}

theorem start (hs : s.buckets.IsPast) (ht : t.buckets.IsPast) :
    Retraces s.buckets.clock s t t where
  live _ := rfl
  tokens := .start _ _
  selectors := .start _ _
  layers := rfl
  buckets := .start hs ht
  properties := .start _ _
  fontFaces := .start _ _
  keyframes := .start _ _
  pages := .start _ _
  counterStyles := .start _ _
  fontFeatureValues := .start _ _
  fontPaletteValues := .start _ _
  startingStyles := .start _ _

/-- A token that is written is not deleted in the end, so the second run finds it in its place. -/
theorem putToken (h : Retraces since s u t) {name value : Json}
    (hwithin : (s.putToken ctx name value).Within t) :
    Retraces since (s.putToken ctx name value) (u.putToken ctx' name value) t := by
  have hlive : t.hasToken name = true := hwithin.live name (by simp [hasToken_putToken])
  obtain ⟨createdAt, hs⟩ := s.exists_get?_putToken ctx name value
  obtain ⟨createdAt', hu⟩ := exists_putToken_eq ((h.live name).trans hlive) ctx' value
  have hlives : ∀ l, (u.putToken ctx' name value).hasToken l = t.hasToken l := by
    intro l
    rw [hasToken_putToken, h.live]
    by_cases hl : key l = key name
    · have hsame : t.hasToken l = t.hasToken name := by rw [hasToken, Table.get?_congr hl, hasToken]
      simp [hl, hsame, hlive]
    · simp [hl]
  rw [hu] at hlives ⊢
  have hkey : t.tokens.contains name = true :=
    hwithin.tokens name (by simp [Table.contains, hs])
  have hput := h.tokens.put hkey
    (v := ⟨value, ctx.provenance, createdAt, .text ctx.now, .bool false⟩)
    (w := ⟨value, ctx'.provenance, createdAt', .text ctx'.now, .bool false⟩) rfl
  exact { h with
    live := hlives
    tokens := hput.of_get?_eq fun l => by rw [hs, Table.get?_put] }

/-- A selector that is mentioned is known in the second run already. -/
theorem referenceSelector (h : Retraces since s u t) {name : Json}
    (hwithin : (s.referenceSelector ctx name).Within t) :
    Retraces since (s.referenceSelector ctx name) (u.referenceSelector ctx' name) t := by
  have hknown : u.selectors.contains name = true :=
    (Table.contains_of_keys_eq h.selectors.keys name).trans
      (hwithin.selectors _ (s.contains_referenceSelector ctx name))
  have hsame : u.referenceSelector ctx' name = u := if_pos hknown
  rw [hsame]
  unfold Cascade.referenceSelector
  split
  · exact h
  · next hnew =>
    exact { h with selectors := h.selectors.put_left (by simpa using hnew) _ }

theorem mentions {names : List String} {p q : Context × Cascade} (h : Retraces since p.2 q.2 t)
    (hctx : p.1.Matches q.1) (hwithin : (names.foldl mention p).2.Within t) :
    Retraces since (names.foldl mention p).2 (names.foldl mention q).2 t ∧
      (names.foldl mention p).1.Matches (names.foldl mention q).1 := by
  induction names generalizing p q with
  | nil => exact ⟨h, hctx⟩
  | cons name names ih =>
    have hone : (mention p name).2.Within t :=
      (within_mentions names (mention p name)).trans hwithin
    exact ih (h.referenceSelector hone) (hctx.tickIf _ _) hwithin

theorem writeStyle (h : Retraces since s u t) (hctx : ctx.Matches ctx') {target : StyleTarget}
    {mode : WriteMode} {ds : List Declaration} {after : Context} {s' : Cascade}
    (hwrite : s.writeStyle ctx target mode ds = .ok (after, s')) (hwithin : s'.Within t) :
    ∃ after' u', u.writeStyle ctx' target mode ds = .ok (after', u') ∧ Retraces since s' u' t ∧
      after.Matches after' := by
  simp only [Cascade.writeStyle, bind_eq_ok, pure_eq_ok, Prod.mk.injEq] at hwrite ⊢
  obtain ⟨wrappers, hwrappers, rfl, rfl⟩ := hwrite
  have hkept : ((selectorsOf target).foldl mention (ctx, s)).2.Within t :=
    { hwithin with buckets := (BucketIndex.within_writeKeys ctx mode ds _ _).trans hwithin.buckets }
  obtain ⟨hrefs, hafter⟩ := mentions (q := (ctx', u)) h hctx hkept
  refine ⟨_, _, ⟨wrappers, hwrappers, rfl, rfl⟩, { hrefs with buckets := ?_ },
    hafter⟩
  have hbuckets := hrefs.buckets.writeKeys hctx hwithin.buckets
  rwa [← hctx.activeLayer]

/-- A statement that removes nothing is accepted again, and the second run goes on as the first one
did. -/
theorem step (h : Retraces since s u t) (hctx : ctx.Matches ctx') {stmt : Statement}
    (hkeeps : stmt.removes = false) {next : Context} {s' : Cascade}
    (hstep : Cascade.step ctx s stmt = .ok (next, s')) (hwithin : s'.Within t) :
    ∃ next' u', Cascade.step ctx' u stmt = .ok (next', u') ∧ Retraces since s' u' t ∧
      next.Matches next' := by
  cases stmt with
  | createStyle target ds | alterStyle target mode ds => exact h.writeStyle hctx hstep hwithin
  | createToken name value =>
    obtain ⟨rfl, rfl⟩ := Prod.mk.inj (Except.ok.inj hstep)
    exact ⟨_, _, rfl, h.putToken hwithin, hctx.tick⟩
  | createSelector name definition =>
    obtain ⟨rfl, rfl⟩ := Prod.mk.inj (Except.ok.inj hstep)
    exact ⟨_, _, rfl,
      { h with
        selectors := h.selectors.put hwithin.selectors.contains_of_put rfl }, hctx.tick⟩
  | createLayers names =>
    obtain ⟨rfl, rfl⟩ := Prod.mk.inj (Except.ok.inj hstep)
    refine ⟨_, _, rfl, { h with layers := ?_ }, hctx⟩
    rw [h.layers]
    exact LayerRegistry.declare_eq_self hwithin.layers _
  | setLayer name =>
    obtain ⟨rfl, rfl⟩ := Prod.mk.inj (Except.ok.inj hstep)
    refine ⟨_, _, rfl, { h with layers := ?_ }, { hctx with activeLayer := rfl }⟩
    rw [h.layers]
    exact LayerRegistry.encounter_eq_self
      (hwithin.layers.entries _ (s.layers.contains_encounter _ _)) _
  | setSpacing mode =>
    obtain ⟨rfl, rfl⟩ := Prod.mk.inj (Except.ok.inj hstep)
    exact ⟨_, _, rfl, h, { hctx with spacingMode := rfl }⟩
  | createFontFace family ds =>
    obtain ⟨rfl, rfl⟩ := Prod.mk.inj (Except.ok.inj hstep)
    exact ⟨_, _, rfl,
      { h with
        fontFaces := h.fontFaces.put hwithin.fontFaces.contains_of_put rfl }, hctx⟩
  | createKeyframes name frames =>
    obtain ⟨rfl, rfl⟩ := Prod.mk.inj (Except.ok.inj hstep)
    exact ⟨_, _, rfl,
      { h with
        keyframes := h.keyframes.put hwithin.keyframes.contains_of_put rfl }, hctx⟩
  | createProperty name ds =>
    obtain ⟨rfl, rfl⟩ := Prod.mk.inj (Except.ok.inj hstep)
    exact ⟨_, _, rfl,
      { h with
        properties := h.properties.put hwithin.properties.contains_of_put rfl }, hctx⟩
  | createPage ds pseudo =>
    obtain ⟨rfl, rfl⟩ := Prod.mk.inj (Except.ok.inj hstep)
    exact ⟨_, _, rfl,
      { h with pages := h.pages.put hwithin.pages.contains_of_put rfl }, hctx⟩
  | createCounterStyle name ds =>
    obtain ⟨rfl, rfl⟩ := Prod.mk.inj (Except.ok.inj hstep)
    exact ⟨_, _, rfl,
      { h with
        counterStyles := h.counterStyles.put hwithin.counterStyles.contains_of_put rfl }, hctx⟩
  | createFontFeatureValues family ds =>
    obtain ⟨rfl, rfl⟩ := Prod.mk.inj (Except.ok.inj hstep)
    exact ⟨_, _, rfl,
      { h with
        fontFeatureValues :=
          h.fontFeatureValues.put hwithin.fontFeatureValues.contains_of_put rfl }, hctx⟩
  | createFontPaletteValues name ds =>
    obtain ⟨rfl, rfl⟩ := Prod.mk.inj (Except.ok.inj hstep)
    exact ⟨_, _, rfl,
      { h with
        fontPaletteValues :=
          h.fontPaletteValues.put hwithin.fontPaletteValues.contains_of_put rfl }, hctx⟩
  | createStartingStyle selector ds =>
    obtain ⟨rfl, rfl⟩ := Prod.mk.inj (Except.ok.inj hstep)
    have hkept : (s.referenceSelector ctx (.text selector)).Within t :=
      { hwithin with
        startingStyles := (Table.within_put _ _ _).trans hwithin.startingStyles }
    have href : Retraces since (s.referenceSelector ctx (.text selector))
        (u.referenceSelector ctx' (.text selector)) t := h.referenceSelector hkept
    exact ⟨_, _, rfl,
      { href with
        startingStyles :=
          href.startingStyles.put hwithin.startingStyles.contains_of_put rfl }, hctx.tickIf _ _⟩
  | raw _ | imports _ _ _ | selectStyles _ _ | describeSelector _ | begin | commit | rollback =>
    obtain ⟨rfl, rfl⟩ := Prod.mk.inj (Except.ok.inj hstep)
    exact ⟨_, _, rfl, { h with }, hctx⟩
  | _ => cases hkeeps

theorem build (h : Retraces since s u t) (hctx : ctx.Matches ctx') {stmts : List Statement}
    (hkeeps : ∀ stmt ∈ stmts, stmt.removes = false) {s' : Cascade}
    (hbuild : Cascade.build ctx s stmts = .ok s') (hwithin : s'.Within t) :
    ∃ u', Cascade.build ctx' u stmts = .ok u' ∧ Retraces since s' u' t := by
  induction stmts generalizing ctx ctx' s u with
  | nil =>
    obtain rfl : s = s' := Except.ok.inj hbuild
    exact ⟨u, rfl, h⟩
  | cons stmt stmts ih =>
    obtain ⟨hstmt, hrest⟩ := List.forall_mem_cons.1 hkeeps
    obtain ⟨next, v, hstep, hbuild⟩ := exists_of_build_cons hbuild
    have hkept := (within_build hrest hbuild).trans hwithin
    obtain ⟨next', u', hstep', hnext, hctx⟩ := h.step hctx hstmt hstep hkept
    rw [build_cons_of_step hstep']
    exact ih hnext hctx hrest hbuild

end Retraces

/-- What is addressed by keys: all of a cascade but its raw blocks and imports. -/
def keyed (s : Cascade) : Cascade :=
  { s with raw := [], imports := [] }

/-- In the end everything that is addressed by keys matches. -/
theorem Retraces.matches {since : Int} (h : Retraces since t u t)
    (ht : (t.withBuckets {}).IsCoherent fun _ => True) (hproper : t.buckets.IsProper) :
    t.keyed.Matches u.keyed where
  tokens := h.tokens.same ht.tokens.isCanonical.isDistinct
  selectors := h.selectors.same ht.selectors.isCanonical.isDistinct
  layers := by
    show t.layers.Matches u.layers
    rw [h.layers]
    exact ⟨rfl, rfl⟩
  buckets := h.buckets.matches hproper
  properties := h.properties.same ht.properties.isCanonical.isDistinct
  fontFaces := h.fontFaces.same ht.fontFaces.1.isDistinct
  keyframes := h.keyframes.same ht.keyframes.isCanonical.isDistinct
  pages := h.pages.same ht.pages.isCanonical.isDistinct
  counterStyles := h.counterStyles.same ht.counterStyles.isCanonical.isDistinct
  fontFeatureValues := h.fontFeatureValues.same ht.fontFeatureValues.isCanonical.isDistinct
  fontPaletteValues := h.fontPaletteValues.same ht.fontPaletteValues.isCanonical.isDistinct
  startingStyles := h.startingStyles.same ht.startingStyles.isCanonical.isDistinct
  raw := rfl
  imports := rfl

/-! ## 5. Files -/

theorem Retraces.files {since : Int} {files : List (List Statement)} (h : Retraces since s u t)
    (hkeeps : ∀ stmts ∈ files, ∀ stmt ∈ stmts, stmt.removes = false) {s' : Cascade}
    (hfiles : files.foldlM (Cascade.build {}) s = .ok s') (hwithin : s'.Within t) :
    ∃ u', files.foldlM (Cascade.build {}) u = .ok u' ∧ Retraces since s' u' t := by
  induction files generalizing s u with
  | nil =>
    obtain rfl : s = s' := Except.ok.inj hfiles
    exact ⟨u, rfl, h⟩
  | cons stmts files ih =>
    obtain ⟨hstmts, hkeeps⟩ := List.forall_mem_cons.1 hkeeps
    rw [List.foldlM_cons] at hfiles
    obtain ⟨v, hv, hrest⟩ := bind_eq_ok.1 hfiles
    have hkept := (within_files hkeeps hrest).trans hwithin
    obtain ⟨w, hw, hretraces⟩ := h.build ⟨rfl, rfl⟩ hstmts hv hkept
    rw [foldlM_cons_of_ok hw]
    exact ih hretraces hkeeps hrest

/-- A file that removes nothing can be applied again to what it has led to, if the clock is behind
no bucket, and then everything with a key is as it was. -/
theorem exists_build_again (hs : s.buckets.IsPast) (ht : t.IsSettled) (hproper : t.buckets.IsProper)
    (hpast : t.buckets.IsPast) (hctx : ctx.Matches ctx') {stmts : List Statement}
    (hkeeps : ∀ stmt ∈ stmts, stmt.removes = false) (h : build ctx s stmts = .ok t) :
    ∃ u, build ctx' t stmts = .ok u ∧ t.keyed.Matches u.keyed := by
  obtain ⟨u, hu, hretraces⟩ := (Retraces.start hs hpast).build hctx hkeeps h (.refl t)
  exact ⟨u, hu, hretraces.matches ht.rest hproper⟩

/-- Files of plain statements that remove nothing can be applied again to what they have led to, and
then everything with a key is as it was. -/
theorem exists_files_again {files : List (List Statement)}
    (hplain : ∀ stmts ∈ files, ∀ stmt ∈ stmts, stmt.IsPlain)
    (hkeeps : ∀ stmts ∈ files, ∀ stmt ∈ stmts, stmt.removes = false)
    (h : files.foldlM (build {}) {} = .ok t) :
    ∃ u, files.foldlM (build {}) t = .ok u ∧ t.keyed.Matches u.keyed := by
  have hcoherent : t.IsCoherent fun _ => True :=
    foldlM_keeps (fun stmts hstmts _ _ hs hbuild =>
      hs.build (o := {}) (hplain stmts hstmts) (fun _ _ _ _ => trivial) hbuild) isCoherent_empty h
  have hempty : BucketIndex.IsPast {} := by simp [BucketIndex.IsPast, BucketIndex.get?, Table.get?,
    Table.lookup]
  have hstart := Retraces.start (s := {}) hempty hcoherent.buckets.isPast
  obtain ⟨u, hu, hretraces⟩ := hstart.files hkeeps h (.refl t)
  exact ⟨u, hu, hretraces.matches hcoherent.rest hcoherent.buckets.isProper⟩

end Cascade

end StyleLedger
