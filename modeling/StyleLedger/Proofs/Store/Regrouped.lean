import StyleLedger.Proofs.Cascade.Sound
import StyleLedger.Proofs.Source.Evaluation
import StyleLedger.Proofs.Store.RoundTrip
import StyleLedger.Proofs.Store.Typed

/-!
The index of buckets stays sound when it is read back from its rows.

Rows are regrouped by the names that their references stand for, so buckets may come back merged:
two wrappers may have the same columns, and two names the same identifier. Every bucket still has
the time of one of the buckets it was made of, and every property is one that was there before, with
its number. Times and numbers are therefore still distinct, and the clock is set to the latest time
(`IsSound.bucketIndex`). With what statements do this gives the invariant of everything that
statements and reloads lead to, in any order (`IsReachable.isSound`).

* `Snapshot.BelongsTo` — the bucket that a style row is read into.
* `Snapshot.Regroups` — what is kept while rows are read.
* `Cascade.IsReachable` — what statements and reloads lead to.
* `BucketIndex.IsWellFormed` — the invariant in terms of what is stored.
-/

namespace StyleLedger

open Keyed (key)
open Outcome

/-! ## 1. Single rows -/

namespace Snapshot

/-- The property in a style row. -/
def propertyOf (r : Row) : StyleProperty :=
  { value := r.get "value", rowId := r.id, sequence := r.get "sequence"
    spacingMode := r.get "spacing_mode", originFile := r.get "origin_file"
    migrationId := r.get "migration_id" }

/-- Read with some names, a style row belongs to the bucket of a key. -/
def BelongsTo (S L : Table Json Json) (r : Row) (k : BucketKey) : Prop :=
  ∃ selector, nameAt? S (r.get "selector_id") = .ok (some selector) ∧ selector ≠ .null ∧
    keyOf S L r selector = .ok k

variable {S L : Table Json Json}

theorem BelongsTo.eq {r : Row} {k l : BucketKey} (hk : BelongsTo S L r k)
    (hl : BelongsTo S L r l) : k = l := by
  obtain ⟨selector, hselector, -, hkey⟩ := hk
  obtain ⟨selector', hselector', -, hkey'⟩ := hl
  obtain rfl : selector = selector' :=
    Option.some.inj (Except.ok.inj (hselector.symm.trans hselector'))
  exact Except.ok.inj (hkey.symm.trans hkey')

/-- What reading a style row does: it is passed over, or its property goes to its bucket, which is
made if it is not there. -/
theorem addStyle_cases {t u : Table BucketKey Bucket} {r : Row} (h : addStyle S L t r = .ok u) :
    u = t ∨ ∃ k b, BelongsTo S L r k ∧
      (t.get? k = some b ∨ t.get? k = none ∧ b = { touched := r.get "touched" }) ∧
      u = t.put k { b with properties := putRow b.properties (r.get "prop", propertyOf r) } := by
  simp only [addStyle, bind_eq_ok] at h
  obtain ⟨name?, hname?, h⟩ := h
  split at h
  · exact .inl (pure_eq_ok.1 h).symm
  · exact .inl (pure_eq_ok.1 h).symm
  · next selector hnull =>
    simp only [bind_eq_ok] at h
    obtain ⟨k, hk, name, hname, h⟩ := h
    obtain rfl := eq_of_keyCell hname
    have hbelongs : BelongsTo S L r k := ⟨selector, hname?, fun h => hnull h, hk⟩
    refine .inr ⟨k, ?_⟩
    split at h
    · next b hb =>
      exact ⟨b, hbelongs, .inl hb, (pure_eq_ok.1 h).symm⟩
    · next hb =>
      simp only [timeCell, bind_eq_ok, pure_eq_ok] at h
      obtain ⟨touched, ⟨-, -, rfl⟩, b, rfl, rfl⟩ := h
      exact ⟨_, hbelongs, .inr ⟨hb, rfl⟩, rfl⟩

/-! ## 2. All rows of an index -/

/-- The style rows of an index. -/
def indexRows (index : BucketIndex) : List Row :=
  index.buckets.entries.flatMap fun e => styleRows e.1 e.2

/-- The rows of one key are read into the bucket of another. Which bucket a row is read into depends
on its key alone, so any row of the key will do. -/
def Rekeys (S L : Table Json Json) (k l : BucketKey) : Prop :=
  BelongsTo S L (styleRow k .null .null default) l

theorem BelongsTo.rekeys {k l : BucketKey} {touched name : Json} {p : StyleProperty}
    (h : BelongsTo S L (styleRow k touched name p) l) : Rekeys S L k l :=
  h

/-- Buckets that were read from rows of an index: each stands under a key that the rows of some
bucket are read into, has the time of such a bucket, and holds properties of such buckets. -/
structure Regroups (S L : Table Json Json) (index : BucketIndex) (t : Table BucketKey Bucket) :
    Prop where
  distinct : t.IsDistinct
  bucket : ∀ e ∈ t.entries, e.2.IsProper
  keys : ∀ k ∈ t.keys, ∃ d ∈ index.buckets.entries, Rekeys S L d.1 k
  touched : ∀ e ∈ t.entries, ∃ d ∈ index.buckets.entries, ∃ l, Rekeys S L d.1 l ∧
    key l = key e.1 ∧ e.2.touched = d.2.touched
  properties : ∀ e ∈ t.entries, ∀ f ∈ e.2.properties.entries, ∃ d ∈ index.buckets.entries,
    ∃ l, Rekeys S L d.1 l ∧ key l = key e.1 ∧ f ∈ d.2.properties.entries

namespace Regroups

variable {index : BucketIndex} {t u : Table BucketKey Bucket}

theorem empty : Regroups S L index {} where
  distinct := .empty
  bucket := by simp
  keys := by simp [Table.keys]
  touched := by simp
  properties := by simp

/-- One more row of the index. -/
theorem addStyle (h : Regroups S L index t) {r : Row} (hr : r ∈ indexRows index)
    (hadd : Snapshot.addStyle S L t r = .ok u) : Regroups S L index u := by
  obtain ⟨d, hd, hr⟩ := List.mem_flatMap.1 hr
  obtain ⟨f, hf, rfl⟩ := List.mem_map.1 hr
  rcases addStyle_cases hadd with rfl | ⟨k, b, hk, hb, rfl⟩
  · exact h
  have hrekeys : Rekeys S L d.1 k := hk.rekeys
  -- the bucket before the row, whether it was there or was made
  have hold : b.properties.IsDistinct ∧
      (∃ d ∈ index.buckets.entries, ∃ l, Rekeys S L d.1 l ∧ key l = key k ∧
        b.touched = d.2.touched) ∧
      ∀ g ∈ b.properties.entries, ∃ d ∈ index.buckets.entries, ∃ l, Rekeys S L d.1 l ∧
        key l = key k ∧ g ∈ d.2.properties.entries := by
    rcases hb with hb | ⟨-, rfl⟩
    · obtain ⟨l, hl, hmem⟩ := Table.lookup_mem hb
      obtain ⟨d', hd', l', hl', hkey, htouched⟩ := h.touched _ hmem
      refine ⟨(h.bucket _ hmem).distinct, ⟨d', hd', l', hl', hkey.trans hl, htouched⟩, ?_⟩
      intro g hg
      obtain ⟨d', hd', l', hl', hkey, hg⟩ := h.properties _ hmem g hg
      exact ⟨d', hd', l', hl', hkey.trans hl, hg⟩
    · exact ⟨.empty, ⟨d, hd, k, hrekeys, rfl, rfl⟩, fun g hg => absurd hg List.not_mem_nil⟩
  obtain ⟨hdistinct, htouched, hproperties⟩ := hold
  constructor
  case distinct => exact h.distinct.put _ _
  case bucket =>
    intro e he
    rcases h.distinct.mem_put he with ⟨-, hv⟩ | ⟨he, -⟩
    · rw [hv]
      exact ⟨hdistinct.putRow _, Table.putRow_entries_ne_nil _ _⟩
    · exact h.bucket e he
  case keys =>
    intro l hl
    obtain ⟨e, he, rfl⟩ := List.mem_map.1 hl
    rcases Table.mem_write he with he | ⟨-, hek | ⟨old, he⟩⟩
    · exact h.keys _ (Table.mem_keys_of_mem he)
    · rw [hek]
      exact ⟨d, hd, hrekeys⟩
    · exact h.keys e.1 (List.mem_map.2 ⟨_, he, rfl⟩)
  case touched =>
    intro e he
    rcases h.distinct.mem_put he with ⟨hek, hv⟩ | ⟨he, -⟩
    · obtain ⟨d', hd', l, hl, hkey, heq⟩ := htouched
      exact ⟨d', hd', l, hl, hkey.trans hek.symm, by rw [hv]; exact heq⟩
    · exact h.touched e he
  case properties =>
    intro e he g hg
    rcases h.distinct.mem_put he with ⟨hek, hv⟩ | ⟨he, -⟩
    · rw [hv] at hg
      rcases hdistinct.mem_putRow hg with rfl | ⟨hg, -⟩
      · exact ⟨d, hd, k, hrekeys, hek.symm, hf⟩
      · obtain ⟨d', hd', l, hl, hkey, hg⟩ := hproperties g hg
        exact ⟨d', hd', l, hl, hkey.trans hek.symm, hg⟩
    · exact h.properties e he g hg

end Regroups

/-- The buckets that are read from the rows of an index, put back one after the other. -/
theorem regroups_of_bucketIndex {index back : BucketIndex}
    (h : bucketIndex S L (indexRows index) = .ok back) :
    Regroups S L index back.buckets ∧
      back.clock = back.buckets.values.foldl (fun n b => max n b.time) 0 := by
  simp only [bucketIndex, bind_eq_ok, pure_eq_ok] at h
  obtain ⟨t, ht, rfl⟩ := h
  have hregroups : Regroups S L index t :=
    foldlM_keeps (fun r hr _ _ hu => hu.addStyle hr) .empty ht
  have hput : t.entries.foldl (fun t e => t.put e.1 e.2) {} = t := by
    have hdistinct : Table.IsDistinct ⟨({} : Table BucketKey Bucket).entries ++ t.entries⟩ := by
      simpa using hregroups.distinct
    simpa using hdistinct.foldl_put
  rw [BucketIndex.foldl_restore]
  simp only [hput]
  exact ⟨hregroups, rfl⟩

end Snapshot

namespace BucketIndex.IsSound

open Snapshot

variable {migrations : List String} {index back : BucketIndex} {S L : Table Json Json}

/-- Two buckets with a property of one number, or with one time, were made of one bucket. -/
theorem key_eq_of_rekeys (h : index.IsSound migrations) {d e : BucketKey × Bucket}
    (hd : d ∈ index.buckets.entries) (he : e ∈ index.buckets.entries) (hde : key d.1 = key e.1)
    {k l : BucketKey} (hk : Rekeys S L d.1 k) (hl : Rekeys S L e.1 l) : k = l := by
  obtain rfl := h.proper.distinct.eq_of_key_eq hd he hde
  exact BelongsTo.eq hk hl

/-- An index that is read back from the rows of a sound one is sound, whatever names the references
stand for. -/
theorem bucketIndex (h : index.IsSound migrations)
    (hback : Snapshot.bucketIndex S L (indexRows index) = .ok back) : back.IsSound migrations := by
  obtain ⟨hregroups, hclock⟩ := regroups_of_bucketIndex hback
  obtain ⟨hnonneg, hlatest, -⟩ := foldl_max_time back.buckets.values 0
  rw [← hclock] at hnonneg hlatest
  constructor
  case proper => exact ⟨hregroups.distinct, hregroups.bucket⟩
  case clock => exact hnonneg
  case touched =>
    intro e he
    obtain ⟨d, hd, -, -, -, htouched⟩ := hregroups.touched e he
    obtain ⟨n, hn, hpos, -⟩ := h.touched d hd
    rw [hn] at htouched
    have hle := hlatest e.2 (List.mem_map_of_mem he)
    rw [Bucket.time_eq htouched] at hle
    exact ⟨n, htouched, hpos, hle⟩
  case times =>
    intro d hd e he heq
    obtain ⟨d', hd', k, hk, hkd, htouched⟩ := hregroups.touched d hd
    obtain ⟨e', he', l, hl, hle, htouched'⟩ := hregroups.touched e he
    have hkey := h.times d' hd' e' he' (htouched.symm.trans (heq.trans htouched'))
    obtain rfl := h.key_eq_of_rekeys hd' he' hkey hk hl
    exact hkd.symm.trans hle
  case properties =>
    intro e he f hf
    obtain ⟨d, hd, -, -, -, hf⟩ := hregroups.properties e he f hf
    exact h.properties d hd f hf
  case numbers =>
    intro d hd e he f hf g hg heq
    obtain ⟨d', hd', k, hk, hkd, hf⟩ := hregroups.properties d hd f hf
    obtain ⟨e', he', l, hl, hle, hg⟩ := hregroups.properties e he g hg
    obtain ⟨hkey, hname⟩ := h.numbers d' hd' e' he' f hf g hg heq
    obtain rfl := h.key_eq_of_rekeys hd' he' hkey hk hl
    exact ⟨hkd.symm.trans hle, hname⟩

end BucketIndex.IsSound

/-! ## 3. What is stored -/

namespace BucketIndex

/-- Every bucket is found under its key and holds a property, and every property is found under its
name, which has no hyphen. No two buckets have one time, so of the buckets of a selector and a layer
one was written last; and no two properties have one number. -/
structure IsWellFormed (index : BucketIndex) : Prop where
  bucket : ∀ k b, (k, b) ∈ index.buckets.entries →
    index.get? k = some b ∧ b.properties.entries ≠ []
  property : ∀ k b, (k, b) ∈ index.buckets.entries → ∀ n p, (n, p) ∈ b.properties.entries →
    b.properties.get? n = some p ∧
      ∃ name, n = .text name ∧ Value.canonicalName name = name ∧ '-' ∉ name.toList
  touched : ∀ b ∈ index.buckets.values, ∃ n : Int, b.touched = .int n ∧ 0 < n ∧ n ≤ index.clock
  times : (index.buckets.values.map (·.touched)).Nodup
  target : ∀ selector layer e, index.mostRecent? selector layer = some e →
    ∀ d ∈ index.buckets.entries, d.1.isFor selector layer → d ≠ e → d.2.time < e.2.time
  sequences : ∃ next : Int, index.nextSequence = .integer next ∧
    ∀ c ∈ index.sequenceCells, ∃ n : Int, c = .int n ∧ 0 < n ∧ n < next
  numbers : index.sequenceCells.Nodup

namespace IsSound

variable {migrations : List String} {index : BucketIndex}

theorem nodup_times (h : index.IsSound migrations) :
    (index.buckets.values.map (·.touched)).Nodup := by
  rw [Table.values, List.map_map]
  refine List.pairwise_map.2 (h.proper.distinct.imp_of_mem fun hd he hne heq => ?_)
  exact hne (h.times _ hd _ he heq)

theorem nodup_sequenceCells (h : index.IsSound migrations) : index.sequenceCells.Nodup := by
  rw [sequenceCells, Table.values, List.flatMap_map]
  refine List.nodup_flatMap.2 ⟨fun e he => ?_, ?_⟩
  · rw [Table.values, List.map_map]
    refine List.pairwise_map.2 ((h.proper.bucket e he).distinct.imp_of_mem fun hf hg hne heq => ?_)
    exact hne (h.numbers e he e he _ hf _ hg heq).2
  · refine h.proper.distinct.imp_of_mem fun hd he hne => ?_
    intro c hc hc'
    simp only [Table.values, List.map_map, List.mem_map, Function.comp_apply] at hc hc'
    obtain ⟨f, hf, rfl⟩ := hc
    obtain ⟨g, hg, heq⟩ := hc'
    exact hne (h.numbers _ hd _ he f hf g hg heq.symm).1

/-- Of the buckets of a selector and a layer only one was written last. -/
theorem time_lt_of_ne (h : index.IsSound migrations) {selector layer : Json}
    {d e : BucketKey × Bucket} (he : index.mostRecent? selector layer = some e)
    (hd : d ∈ index.buckets.entries) (hfor : d.1.isFor selector layer = true) (hne : d ≠ e) :
    d.2.time < e.2.time := by
  obtain ⟨hmem, -, hmax⟩ := mostRecent?_eq_some he
  obtain ⟨m, hm, -⟩ := h.touched d hd
  obtain ⟨n, hn, -⟩ := h.touched e hmem
  have hle := hmax d hd hfor
  rw [Bucket.time_eq hm, Bucket.time_eq hn] at hle ⊢
  have hmn : m ≠ n := by
    rintro rfl
    exact hne (h.proper.distinct.eq_of_key_eq hd hmem (h.times d hd e hmem (hm.trans hn.symm)))
  omega

theorem isWellFormed (h : index.IsSound migrations) : index.IsWellFormed := by
  constructor
  case bucket =>
    intro k b hb
    exact ⟨h.proper.get?_of_mem hb, (h.proper.bucket _ hb).nonempty⟩
  case property =>
    intro k b hb n p hp
    obtain ⟨⟨name, rfl, hname⟩, -⟩ := h.properties _ hb _ hp
    exact ⟨(h.proper.bucket _ hb).distinct.get?_eq_some_iff.2 ⟨_, rfl, hp⟩, name, rfl,
      Value.canonicalName_of_not_mem hname, hname⟩
  case touched =>
    intro b hb
    obtain ⟨e, he, rfl⟩ := List.mem_map.1 hb
    exact h.touched e he
  case times => exact h.nodup_times
  case target => exact fun selector layer e he d hd hfor hne => h.time_lt_of_ne he hd hfor hne
  case sequences =>
    obtain ⟨next, hnext, -, hlt⟩ := exists_nextSequence h.cells
    refine ⟨next, hnext, fun c hc => ?_⟩
    obtain ⟨n, rfl, hpos⟩ := h.cells c hc
    exact ⟨n, rfl, hpos, hlt n hc⟩
  case numbers => exact h.nodup_sequenceCells

end IsSound

end BucketIndex

/-! ## 4. Statements and reloads -/

/-- The buckets of a snapshot are those of its style rows. -/
theorem Snapshot.bucketIndex_of_toCascade {s : Snapshot} {c : Cascade}
    (h : s.toCascade = .ok c) :
    bucketIndex (namesById s.selectors) (namesById s.layers) s.styles = .ok c.buckets := by
  simp only [toCascade, bind_eq_ok, pure_eq_ok] at h
  obtain ⟨-, -, -, -, -, -, buckets, hbuckets, -, -, -, -, -, -, -, -, -, -, -, -, -, -, -, -, -, -,
    -, -, rfl⟩ := h
  exact hbuckets

namespace Cascade

/-- A cascade that statements of source texts lead to, and the context in which the next statement
is applied. Every file has a context of its own, in which no layer and no spacing mode is set, and
is applied as one of some migrations. At any moment the cascade may be replaced by what is read back
from its rows. -/
inductive IsReachable (migrations : List String) : Context → Cascade → Prop
  | start (o : Occasion) (ho : o.migrationId ∈ migrations) : IsReachable migrations o.context {}
  | file {ctx : Context} {s : Cascade} (h : IsReachable migrations ctx s) (o : Occasion)
      (ho : o.migrationId ∈ migrations) : IsReachable migrations o.context s
  | statement {ctx ctx' : Context} {s t : Cascade} (h : IsReachable migrations ctx s)
      {stmt : Statement} (hparsed : stmt.IsParsed) (hstep : step ctx s stmt = .ok (ctx', t)) :
      IsReachable migrations ctx' t
  | reload {ctx : Context} {s t : Cascade} (h : IsReachable migrations ctx s)
      {log : List LogEntry} (hreload : (Snapshot.ofCascade s log).toCascade = .ok t) :
      IsReachable migrations ctx t

namespace IsReachable

variable {migrations : List String} {ctx : Context} {s : Cascade}

theorem isSound (h : IsReachable migrations ctx s) :
    s.buckets.IsSound migrations ∧ ctx.migrationId ∈ migrations := by
  induction h with
  | start o ho => exact ⟨BucketIndex.isSound_empty, ho⟩
  | file _ o ho ih => exact ⟨ih.1, ho⟩
  | statement _ _ hstep ih => exact isSound_step ih.1 ih.2 hstep
  | reload _ hreload ih =>
    exact ⟨ih.1.bucketIndex (Snapshot.bucketIndex_of_toCascade hreload), ih.2⟩

/-- A file may be applied as a whole, also if one of its statements is refused. -/
theorem run (h : IsReachable migrations ctx s) {stmts : List Statement}
    (hparsed : ∀ stmt ∈ stmts, stmt.IsParsed) :
    IsReachable migrations (Cascade.run ctx s stmts).context (Cascade.run ctx s stmts).state := by
  induction stmts generalizing ctx s with
  | nil => exact h
  | cons stmt stmts ih =>
    obtain ⟨hstmt, hparsed⟩ := List.forall_mem_cons.1 hparsed
    simp only [Cascade.run]
    split
    · next ctx' t hstep => exact ih (h.statement hstmt hstep) hparsed
    · exact h

/-- After any statements of any files, and any reloads between them, the index of buckets is well
formed. -/
theorem isWellFormed_buckets (h : IsReachable migrations ctx s) : s.buckets.IsWellFormed :=
  h.isSound.1.isWellFormed

/-- Two properties of one bucket, read back from their rows. -/
theorem isWellFormed_buckets_pair : ∃ stmts t,
    Source.parse "CREATE STYLE SELECTOR a (b = c, d-e = f);" false = .ok stmts ∧
      (Snapshot.ofCascade (Cascade.run {} {} stmts).state []).toCascade = .ok t ∧
      t.buckets.sequenceCells = [.int 1, .int 2] ∧ t.buckets.IsWellFormed := by
  obtain ⟨stmts, hparse, hstate⟩ := exists_ok_of_any (p := fun stmts =>
    let s := (Cascade.run {} {} stmts).state
    decide (s.selectors.keys = [.text "a"] ∧ s.layers.entries.keys = [] ∧
      (∀ k ∈ s.buckets.buckets.keys, Descriptor.IsClean k.descriptor) ∧
      s.buckets.sequenceCells = [.int 1, .int 2]))
    (x := Source.parse "CREATE STYLE SELECTOR a (b = c, d-e = f);" false)
    (by
      rw [Source.parse_ofList]
      decide +kernel)
  obtain ⟨hselectors, hlayers, hclean, hcells⟩ := of_decide_eq_true hstate
  have hparsed : ∀ stmt ∈ stmts, stmt.IsParsed := fun stmt hstmt => ⟨_, _, stmts, hparse, hstmt⟩
  have hstart : IsReachable [adhocMigration] {} {} := .start {} (by decide)
  have hcoherent : (Cascade.run {} {} stmts).state.IsCoherent fun _ => True :=
    isCoherent_empty.run (fun stmt hstmt => (hparsed stmt hstmt).isPlain) (fun _ _ _ _ => trivial)
      (Occasion.isKnown_context {} _)
  have hreload := Snapshot.toCascade_ofCascade hcoherent hclean
    (by simp [hselectors, Identity.Separates]) (by simp [hlayers, Identity.Separates]) []
  exact ⟨stmts, _, hparse, hreload, hcells,
    isWellFormed_buckets ((hstart.run hparsed).reload hreload)⟩

end IsReachable

end Cascade

end StyleLedger
