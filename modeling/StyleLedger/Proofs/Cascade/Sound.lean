import StyleLedger.Proofs.Cascade.Coherent
import StyleLedger.Proofs.Cascade.Index

/-!
Times and numbers in an index of buckets.

The time of a bucket is what the clock showed when it was written last, and the number of a property
is one more than the greatest in use when it was first written. Neither occurs twice, although the
clock may go back and numbers are used again: a new time is later than every time that is there, and
a new number greater than every number that is there. This is kept by every operation that a
statement performs, and it needs nothing about the keys of buckets.

* `StyleProperty.IsNumbered` — a property that some migration has written under a number.
* `BucketIndex.IsSound` — the invariant.
* `Cascade.buckets_of_step` — everything that a statement can do to the buckets.
-/

namespace StyleLedger

open Keyed (key)
open Outcome

/-! ## 1. The invariant -/

/-- A name of a property as it is kept: a text without hyphens. -/
def Json.IsPropertyName (v : Json) : Prop :=
  ∃ n : String, v = .text n ∧ '-' ∉ n.toList

theorem Value.hyphen_not_mem_canonicalName (name : String) :
    '-' ∉ (canonicalName name).toList := by
  simp only [canonicalName, Text.replaceChar, String.toList_ofList, List.mem_map, not_exists,
    not_and]
  intro c _
  split
  · decide
  · next hc => exact hc

theorem Value.canonicalName_of_not_mem {name : String} (h : '-' ∉ name.toList) :
    canonicalName name = name := by
  have hmap : name.toList.map (fun c => if c = '-' then '_' else c) = name.toList := by
    conv_rhs => rw [← List.map_id name.toList]
    refine List.map_congr_left fun c hc => if_neg ?_
    rintro rfl
    exact h hc
  rw [canonicalName, Text.replaceChar, hmap, String.ofList_toList]

theorem Json.isPropertyName_canonicalName (name : String) :
    (Json.text (Value.canonicalName name)).IsPropertyName :=
  ⟨_, rfl, Value.hyphen_not_mem_canonicalName name⟩

/-- A property has a number, and the identifier of the row that one of some migrations has written
under this number. -/
structure StyleProperty.IsNumbered (migrations : List String) (p : StyleProperty) : Prop where
  sequence : ∃ n : Int, p.sequence = .int n ∧ 0 < n
  rowId : ∃ m ∈ migrations,
    p.rowId = .text (Identity.entityId .style (Identity.styleKey (.text m) p.sequence))

namespace BucketIndex

/-- No time and no number occurs twice. -/
structure IsSound (migrations : List String) (index : BucketIndex) : Prop where
  proper : index.IsProper
  clock : 0 ≤ index.clock
  touched : ∀ e ∈ index.buckets.entries, ∃ n : Int, e.2.touched = .int n ∧ 0 < n ∧ n ≤ index.clock
  times : ∀ d ∈ index.buckets.entries, ∀ e ∈ index.buckets.entries,
    d.2.touched = e.2.touched → key d.1 = key e.1
  properties : ∀ e ∈ index.buckets.entries,
    e.2.properties.All fun n p => n.IsPropertyName ∧ p.IsNumbered migrations
  numbers : ∀ d ∈ index.buckets.entries, ∀ e ∈ index.buckets.entries,
    ∀ f ∈ d.2.properties.entries, ∀ g ∈ e.2.properties.entries,
      f.2.sequence = g.2.sequence → key d.1 = key e.1 ∧ key f.1 = key g.1

variable {migrations : List String} {index : BucketIndex} {k : BucketKey} {m : Json}

theorem isSound_empty : IsSound migrations {} where
  proper := .empty
  clock := Int.le_refl 0
  touched := by simp
  times := by simp
  properties := by simp
  numbers := by simp

theorem mem_sequenceCells {c : Json} : c ∈ index.sequenceCells ↔
    ∃ e ∈ index.buckets.entries, ∃ f ∈ e.2.properties.entries, f.2.sequence = c := by
  simp only [sequenceCells, Table.values, List.mem_flatMap, List.mem_map]
  constructor
  · rintro ⟨b, ⟨e, he, rfl⟩, p, ⟨f, hf, rfl⟩, rfl⟩
    exact ⟨e, he, f, hf, rfl⟩
  · rintro ⟨e, he, f, hf, rfl⟩
    exact ⟨e.2, ⟨e, he, rfl⟩, f.2, ⟨f, hf, rfl⟩, rfl⟩

/-- The greatest of some integers is not less than any of them. -/
theorem foldl_greater (ns : List Int) (i : Int) :
    ∃ j, (ns.map Numeral.integer).foldl Numeral.greater (.integer i) = .integer j ∧ i ≤ j ∧
      ∀ n ∈ ns, n ≤ j := by
  induction ns generalizing i with
  | nil => exact ⟨i, rfl, Int.le_refl i, by simp⟩
  | cons n ns ih =>
    obtain ⟨j, hj, hle, hall⟩ := ih (max i n)
    refine ⟨j, by simpa using hj, by omega, List.forall_mem_cons.2 ⟨by omega, hall⟩⟩

/-- When all numbers in use are integers after zero, the next one is greater than all of them. -/
theorem exists_nextSequence
    (h : ∀ c ∈ index.sequenceCells, ∃ n : Int, c = .int n ∧ 0 < n) :
    ∃ next : Int, index.nextSequence = .integer next ∧ 0 < next ∧
      ∀ n : Int, .int n ∈ index.sequenceCells → n < next := by
  obtain ⟨ns, hcells⟩ : ∃ ns : List Int, index.sequenceCells = ns.map .int := by
    generalize index.sequenceCells = cells at h
    induction cells with
    | nil => exact ⟨[], rfl⟩
    | cons c cells ih =>
      obtain ⟨⟨n, rfl, -⟩, hrest⟩ := List.forall_mem_cons.1 h
      obtain ⟨ns, rfl⟩ := ih hrest
      exact ⟨n :: ns, rfl⟩
  have hsequences : index.sequences = ns.map Numeral.integer := by
    rw [sequences, hcells, List.filterMap_map, ← List.filterMap_eq_map]
    rfl
  have hmem : ∀ n : Int, .int n ∈ index.sequenceCells → n ∈ ns := by
    intro n hn
    rw [hcells, List.mem_map] at hn
    obtain ⟨i, hi, heq⟩ := hn
    obtain rfl : i = n := by simpa [Json.int] using heq
    exact hi
  unfold nextSequence
  cases ns with
  | nil =>
    rw [hsequences]
    exact ⟨1, rfl, by decide, fun n hn => absurd (hmem n hn) List.not_mem_nil⟩
  | cons i ns =>
    obtain ⟨n, heq, hpos⟩ := h (.int i) (by simp [hcells])
    obtain rfl : i = n := by simpa [Json.int] using heq
    obtain ⟨j, hj, hle, hall⟩ := foldl_greater ns i
    rw [hsequences]
    refine ⟨j + 1, by simp only [List.map_cons, hj]; rfl, by omega, fun n hn => ?_⟩
    rcases List.mem_cons.1 (hmem n hn) with rfl | hn
    · omega
    · have := hall n hn
      omega

namespace IsSound

theorem cells (h : index.IsSound migrations) :
    ∀ c ∈ index.sequenceCells, ∃ n : Int, c = .int n ∧ 0 < n := by
  intro c hc
  obtain ⟨e, he, f, hf, rfl⟩ := mem_sequenceCells.1 hc
  exact (h.properties e he f hf).2.sequence

/-! ## 2. Writes -/

/-- A property of a key is a property of its bucket. -/
theorem exists_mem_of_propertiesOf {f : Json × StyleProperty}
    (hf : f ∈ (index.propertiesOf k).entries) :
    ∃ e ∈ index.buckets.entries, key e.1 = key k ∧ f ∈ e.2.properties.entries := by
  cases hb : index.get? k with
  | none =>
    rw [propertiesOf_of_get?_eq_none hb] at hf
    exact absurd hf List.not_mem_nil
  | some b =>
    rw [propertiesOf_of_get? hb] at hf
    obtain ⟨l, hl, hmem⟩ := Table.lookup_mem hb
    exact ⟨(l, b), hmem, hl, hf⟩

theorem all_propertiesOf (h : index.IsSound migrations) (k : BucketKey) :
    (index.propertiesOf k).All fun n p => n.IsPropertyName ∧ p.IsNumbered migrations := by
  intro f hf
  obtain ⟨e, he, -, hf⟩ := exists_mem_of_propertiesOf hf
  exact h.properties e he f hf

/-- A property that is put into a bucket keeps its number, or brings one that is not in use. -/
theorem write (h : index.IsSound migrations) (hm : m.IsPropertyName) {p : StyleProperty}
    (hp : p.IsNumbered migrations)
    (hnumber : (∃ old, index.property? k m = some old ∧ p.sequence = old.sequence) ∨
      p.sequence ∉ index.sequenceCells) :
    (index.putTouched k ((index.propertiesOf k).put m p)).IsSound migrations := by
  have hold := h.proper.isDistinct_propertiesOf k
  -- what a written bucket holds: the property, or what was there under other names
  have hbucket : ∀ e ∈ (index.putTouched k ((index.propertiesOf k).put m p)).buckets.entries,
      ∀ f ∈ e.2.properties.entries,
        (key e.1 = key k ∧ key f.1 = key m ∧ f.2 = p) ∨
        (¬(key e.1 = key k ∧ key f.1 = key m) ∧
          ∃ d ∈ index.buckets.entries, key d.1 = key e.1 ∧ f ∈ d.2.properties.entries) := by
    intro e he f hf
    rcases h.proper.distinct.mem_put he with ⟨hek, hv⟩ | ⟨he, hek⟩
    · rw [hv] at hf
      rcases hold.mem_put hf with ⟨hfm, hfp⟩ | ⟨hf, hfm⟩
      · exact .inl ⟨hek, hfm, hfp⟩
      · obtain ⟨d, hd, hdk, hf⟩ := exists_mem_of_propertiesOf hf
        exact .inr ⟨fun h => hfm h.2, d, hd, hdk.trans hek.symm, hf⟩
    · exact .inr ⟨fun h => hek h.1, e, he, rfl, hf⟩
  -- a property under another key or name does not have the number of the one that is written
  have hother : ∀ d ∈ index.buckets.entries, ∀ f ∈ d.2.properties.entries,
      f.2.sequence = p.sequence → key d.1 = key k ∧ key f.1 = key m := by
    intro d hd f hf heq
    rcases hnumber with ⟨old, hget, hseq⟩ | hfresh
    · obtain ⟨n, hn, hmem⟩ := Table.lookup_mem hget
      obtain ⟨e, he, hek, hmem⟩ := exists_mem_of_propertiesOf hmem
      obtain ⟨hde, hfn⟩ := h.numbers d hd e he f hf _ hmem (heq.trans hseq)
      exact ⟨hde.trans hek, hfn.trans hn⟩
    · exact absurd (mem_sequenceCells.2 ⟨d, hd, f, hf, heq⟩) hfresh
  have hclock := h.clock
  constructor
  case proper => exact h.proper.putTouched k (hold.put _ _) (Table.put_entries_ne_nil _ _ _)
  case clock =>
    show 0 ≤ index.clock + 1
    omega
  case touched =>
    intro e he
    show ∃ n : Int, e.2.touched = .int n ∧ 0 < n ∧ n ≤ index.clock + 1
    rcases h.proper.distinct.mem_put he with ⟨-, hv⟩ | ⟨he, -⟩
    · exact ⟨index.clock + 1, by rw [hv], by omega, Int.le_refl _⟩
    · obtain ⟨n, hn, hpos, hle⟩ := h.touched e he
      exact ⟨n, hn, hpos, by omega⟩
  case times =>
    have hnew : ∀ e ∈ index.buckets.entries, e.2.touched ≠ .int (index.clock + 1) := by
      intro e he heq
      obtain ⟨n, hn, -, hle⟩ := h.touched e he
      obtain rfl : n = index.clock + 1 := by simpa [Json.int] using hn.symm.trans heq
      omega
    intro d hd e he heq
    rcases h.proper.distinct.mem_put hd with ⟨hdk, hdv⟩ | ⟨hd, hdk⟩
    · rcases h.proper.distinct.mem_put he with ⟨hek, -⟩ | ⟨he, -⟩
      · exact hdk.trans hek.symm
      · rw [hdv] at heq
        exact absurd heq.symm (hnew e he)
    · rcases h.proper.distinct.mem_put he with ⟨-, hev⟩ | ⟨he, -⟩
      · rw [hev] at heq
        exact absurd heq (hnew d hd)
      · exact h.times d hd e he heq
  case properties =>
    intro e he
    rcases h.proper.distinct.mem_put he with ⟨-, hv⟩ | ⟨he, -⟩
    · rw [hv]
      exact (h.all_propertiesOf k).put hm hp
    · exact h.properties e he
  case numbers =>
    intro d hd e he f hf g hg heq
    rcases hbucket d hd f hf with ⟨hdk, hfm, hfp⟩ | ⟨hne, d', hd', hdd, hf'⟩
    · rcases hbucket e he g hg with ⟨hek, hgm, -⟩ | ⟨hne, e', he', hee, hg'⟩
      · exact ⟨hdk.trans hek.symm, hfm.trans hgm.symm⟩
      · obtain ⟨hek, hgm⟩ := hother e' he' g hg' (by rw [← heq, hfp])
        exact absurd ⟨hee.symm.trans hek, hgm⟩ hne
    · rcases hbucket e he g hg with ⟨hek, hgm, hgp⟩ | ⟨-, e', he', hee, hg'⟩
      · obtain ⟨hdk, hfm⟩ := hother d' hd' f hf' (by rw [heq, hgp])
        exact absurd ⟨hdd.symm.trans hdk, hfm⟩ hne
      · obtain ⟨hde, hfg⟩ := h.numbers d' hd' e' he' f hf' g hg' heq
        exact ⟨hdd.symm.trans (hde.trans hee), hfg⟩

theorem isNumbered_of_property? (h : index.IsSound migrations) {p : StyleProperty}
    (hp : index.property? k m = some p) : p.IsNumbered migrations :=
  (h.all_propertiesOf k).get? hp

theorem touch (h : index.IsSound migrations) (k : BucketKey) :
    (index.touch k).1.IsSound migrations := by
  cases hk : index.get? k with
  | none =>
    rw [touch_of_eq_none hk]
    exact h
  | some b =>
    obtain ⟨f, hf, hold, htouch⟩ := h.proper.touch_eq hk
    obtain ⟨hname, hnumbered⟩ := h.all_propertiesOf k f hf
    rw [htouch]
    exact h.write hname hnumbered (.inl ⟨f.2, hold, rfl⟩)

/-- A property that a declaration writes now has a number that is not in use. -/
theorem newProperty (h : index.IsSound migrations) {ctx : Context}
    (hctx : ctx.migrationId ∈ migrations) (d : Declaration) :
    (Cascade.newProperty index ctx d).IsNumbered migrations ∧
      (Cascade.newProperty index ctx d).sequence ∉ index.sequenceCells := by
  obtain ⟨next, hnext, hpos, hlt⟩ := exists_nextSequence h.cells
  have hsequence : (Cascade.newProperty index ctx d).sequence = .int next := by
    rw [Cascade.newProperty, hnext]
    rfl
  refine ⟨⟨⟨next, hsequence, hpos⟩, ctx.migrationId, hctx, rfl⟩, fun hmem => ?_⟩
  rw [hsequence] at hmem
  exact absurd (hlt next hmem) (by omega)

theorem writeOne (h : index.IsSound migrations) {ctx : Context}
    (hctx : ctx.migrationId ∈ migrations) (mode : WriteMode) (k : BucketKey) (d : Declaration) :
    (Cascade.writeOne ctx mode k index d).IsSound migrations := by
  obtain ⟨hnew, hfresh⟩ := h.newProperty hctx d
  have hname := Json.isPropertyName_canonicalName d.name
  cases mode with
  | add =>
    simp only [Cascade.writeOne, add_eq]
    cases hold : index.property? k (.text (Value.canonicalName d.name)) with
    | none => exact h.write hname hnew (.inr hfresh)
    | some old => exact h.write hname (h.isNumbered_of_property? hold) (.inl ⟨old, hold, rfl⟩)
  | set =>
    simp only [Cascade.writeOne, set_eq]
    cases hold : index.property? k (.text (Value.canonicalName d.name)) with
    | none => exact h.write hname hnew (.inr hfresh)
    | some old =>
      have hnumbered := h.isNumbered_of_property? hold
      exact h.write hname ⟨hnumbered.sequence, hnumbered.rowId⟩ (.inl ⟨old, hold, rfl⟩)

theorem writeAll (h : index.IsSound migrations) {ctx : Context}
    (hctx : ctx.migrationId ∈ migrations) (mode : WriteMode) (ds : List Declaration)
    (k : BucketKey) : (Cascade.writeAll ctx mode ds index k).IsSound migrations := by
  unfold Cascade.writeAll
  split
  · exact h.touch k
  · clear * - h hctx
    induction ds generalizing index with
    | nil => exact h
    | cons d ds ih => exact ih (h.writeOne hctx mode k d)

theorem writeKeys (h : index.IsSound migrations) {ctx : Context}
    (hctx : ctx.migrationId ∈ migrations) (mode : WriteMode) (ds : List Declaration)
    (keys : List BucketKey) :
    (keys.foldl (Cascade.writeAll ctx mode ds) index).IsSound migrations := by
  induction keys generalizing index with
  | nil => exact h
  | cons k keys ih => exact ih (h.writeAll hctx mode ds k)

/-! ## 3. Removals -/

/-- An index in which every bucket has kept its key and its time, and some of its properties. -/
theorem of_subset (h : index.IsSound migrations) {left : BucketIndex} (hproper : left.IsProper)
    (hclock : left.clock = index.clock)
    (hleft : ∀ e ∈ left.buckets.entries, ∃ b, (e.1, b) ∈ index.buckets.entries ∧
      e.2.touched = b.touched ∧ e.2.properties.entries ⊆ b.properties.entries) :
    left.IsSound migrations := by
  constructor
  case proper => exact hproper
  case clock => rw [hclock]; exact h.clock
  case touched =>
    intro e he
    obtain ⟨b, hb, htouched, -⟩ := hleft e he
    rw [htouched, hclock]
    exact h.touched _ hb
  case times =>
    intro d hd e he heq
    obtain ⟨b, hb, hbt, -⟩ := hleft d hd
    obtain ⟨c, hc, hct, -⟩ := hleft e he
    exact h.times (d.1, b) hb (e.1, c) hc (hbt.symm.trans (heq.trans hct))
  case properties =>
    intro e he f hf
    obtain ⟨b, hb, -, hsub⟩ := hleft e he
    exact h.properties _ hb f (hsub hf)
  case numbers =>
    intro d hd e he f hf g hg
    obtain ⟨b, hb, -, hsub⟩ := hleft d hd
    obtain ⟨c, hc, -, hsub'⟩ := hleft e he
    exact h.numbers (d.1, b) hb (e.1, c) hc f (hsub hf) g (hsub' hg)

theorem drop (h : index.IsSound migrations) (selector layer : Json) :
    (index.drop selector layer).1.IsSound migrations :=
  h.of_subset (h.proper.drop selector layer) rfl fun e he =>
    ⟨e.2, List.mem_of_mem_filter he, rfl, List.Subset.refl _⟩

theorem delete (h : index.IsSound migrations) (selector layer : Json) (name : Option Json) :
    (index.delete selector layer name).1.IsSound migrations := by
  cases hd : index.mostRecent? selector layer with
  | none =>
    rw [delete_of_eq_none hd]
    exact h
  | some d =>
    rw [h.proper.delete_eq hd]
    refine h.of_subset (h.proper.alter d.1 name) rfl fun e he => ?_
    rcases Table.mem_alter he with ⟨b, hb, -, hleft⟩ | ⟨he, -⟩
    · obtain ⟨htouched, hsub, -⟩ := Bucket.eq_of_without hleft
      exact ⟨b, hb, htouched, hsub.subset⟩
    · exact ⟨e.2, he, rfl, List.Subset.refl _⟩

end IsSound

end BucketIndex

/-! ## 4. Statements -/

namespace Context

@[simp] theorem migrationId_tick (ctx : Context) : ctx.tick.migrationId = ctx.migrationId := by
  unfold tick
  split <;> rfl

@[simp] theorem migrationId_tickIf (ctx : Context) (read : Bool) :
    (ctx.tickIf read).migrationId = ctx.migrationId := by
  cases read <;> simp [tickIf]

end Context

namespace Cascade

variable {s t : Cascade} {ctx ctx' : Context} {stmt : Statement}

/-- Selectors that are mentioned leave the migration as it is. -/
theorem migrationId_mentions (names : List String) (p : Context × Cascade) :
    (names.foldl mention p).1.migrationId = p.1.migrationId := by
  induction names generalizing p with
  | nil => rfl
  | cons name names ih => exact (ih (mention p name)).trans (by simp [mention])

/-- Everything that a statement can do to the buckets: nothing, writing declarations to the buckets
of a target, deleting, or dropping. The migration stays. -/
theorem buckets_of_step (h : step ctx s stmt = .ok (ctx', t)) :
    ctx'.migrationId = ctx.migrationId ∧
      (t.buckets = s.buckets ∨
      (∃ target mode ds wrappers,
        (stmt = .createStyle target ds ∨ stmt = .alterStyle target mode ds) ∧
        Descriptor.ofCondition target.condition = .ok wrappers ∧
        t.buckets =
          (keysOf ctx.activeLayer target wrappers).foldl (writeAll ctx mode ds) s.buckets) ∨
      (∃ selector layer name, t.buckets = (s.buckets.delete selector layer name).1) ∨
      ∃ selector layer, t.buckets = (s.buckets.drop selector layer).1) := by
  have hwrite : ∀ {target mode ds}, s.writeStyle ctx target mode ds = .ok (ctx', t) →
      ctx'.migrationId = ctx.migrationId ∧ ∃ wrappers,
        Descriptor.ofCondition target.condition = .ok wrappers ∧
        t.buckets =
          (keysOf ctx.activeLayer target wrappers).foldl (writeAll ctx mode ds) s.buckets := by
    intro target mode ds hw
    simp only [writeStyle, bind_eq_ok, pure_eq_ok, Prod.mk.injEq] at hw
    obtain ⟨wrappers, hwrappers, rfl, rfl⟩ := hw
    have hid := migrationId_mentions (selectorsOf target) (ctx, s)
    exact ⟨hid, wrappers, hwrappers, by rw [mentions_eq]⟩
  cases stmt with
  | createStyle target ds =>
    obtain ⟨hid, wrappers, hwrappers, hbuckets⟩ := hwrite h
    exact ⟨hid, .inr (.inl ⟨target, .set, ds, wrappers, .inl rfl, hwrappers, hbuckets⟩)⟩
  | alterStyle target mode ds =>
    obtain ⟨hid, wrappers, hwrappers, hbuckets⟩ := hwrite h
    exact ⟨hid, .inr (.inl ⟨target, mode, ds, wrappers, .inr rfl, hwrappers, hbuckets⟩)⟩
  | deleteStyle selector property =>
    obtain ⟨rfl, rfl⟩ := Prod.mk.inj (Except.ok.inj h)
    exact ⟨rfl, .inr (.inr (.inl ⟨_, _, _, rfl⟩))⟩
  | dropStyle selector =>
    obtain ⟨rfl, rfl⟩ := Prod.mk.inj (Except.ok.inj h)
    exact ⟨rfl, .inr (.inr (.inr ⟨_, _, rfl⟩))⟩
  | dropToken name | deleteToken name =>
    obtain ⟨rfl, rfl⟩ := Prod.mk.inj (Except.ok.inj h)
    exact ⟨by simp, .inl (by rw [deleteToken_eq])⟩
  | dropSelector name =>
    obtain ⟨rfl, rfl⟩ := Prod.mk.inj (Except.ok.inj h)
    exact ⟨by simp, .inl (by rw [deleteSelector_eq])⟩
  | createStartingStyle selector ds =>
    obtain ⟨rfl, rfl⟩ := Prod.mk.inj (Except.ok.inj h)
    exact ⟨by simp, .inl (by rw [referenceSelector_eq])⟩
  | _ =>
    obtain ⟨rfl, rfl⟩ := Prod.mk.inj (Except.ok.inj h)
    exact ⟨by simp, .inl rfl⟩

/-- A statement keeps the index of buckets sound. -/
theorem isSound_step {migrations : List String} (hs : s.buckets.IsSound migrations)
    (hctx : ctx.migrationId ∈ migrations) (h : step ctx s stmt = .ok (ctx', t)) :
    t.buckets.IsSound migrations ∧ ctx'.migrationId ∈ migrations := by
  obtain ⟨hid, hbuckets⟩ := buckets_of_step h
  refine ⟨?_, hid ▸ hctx⟩
  rcases hbuckets with heq | ⟨target, mode, ds, wrappers, -, -, heq⟩ |
    ⟨selector, layer, name, heq⟩ | ⟨selector, layer, heq⟩
  · rw [heq]
    exact hs
  · rw [heq]
    exact hs.writeKeys hctx mode ds _
  · rw [heq]
    exact hs.delete selector layer name
  · rw [heq]
    exact hs.drop selector layer

end Cascade

end StyleLedger
