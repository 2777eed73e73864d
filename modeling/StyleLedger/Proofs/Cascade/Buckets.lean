import StyleLedger.Cascade.Apply
import StyleLedger.Proofs.Statement
import StyleLedger.Proofs.Table

/-!
What every index of buckets keeps that statements write to.

The properties of a bucket are named by distinct texts, and there is at least one of them: a bucket
comes into being with its first property and goes with its last. The time a bucket was written last
is after zero and never later than the clock. Each operation of an index is shown to keep this, and
the writing of whole declarations follows.

* `Table.IsNamed` — a table addressed by texts, no text twice.
* `BucketIndex.IsCoherent` — the invariant; `K` says which keys may occur.
-/

namespace StyleLedger

/-! ## 1. Tables addressed by texts -/

namespace Table

variable {α : Type} {V : α → Prop}

/-- Every key is a text, no key occurs twice, and every value has a property. -/
structure IsNamed (V : α → Prop) (t : Table Json α) : Prop where
  all : t.All fun k v => k.IsString ∧ V v
  distinct : t.keys.Nodup

theorem isNamed_empty : IsNamed V ({} : Table Json α) :=
  ⟨all_empty _, by simp [keys]⟩

theorem IsNamed.isString {t : Table Json α} (h : t.IsNamed V) {k : Json} (hk : k ∈ t.keys) :
    k.IsString := by
  obtain ⟨e, he, rfl⟩ := List.mem_map.1 hk
  exact (h.all e he).1

theorem IsNamed.isCanonical {t : Table Json α} (h : t.IsNamed V) : t.IsCanonical :=
  ⟨fun _ hk => (h.isString hk).isWord.key_eq, h.distinct⟩

theorem IsNamed.put {t : Table Json α} (h : t.IsNamed V) {k : Json} (hk : k.IsString) {v : α}
    (hv : V v) : (t.put k v).IsNamed V :=
  ⟨h.all.put hk hv, (h.isCanonical.put hk.isWord.key_eq v).distinct⟩

theorem IsNamed.erase {t : Table Json α} (h : t.IsNamed V) (k : Json) : (t.erase k).IsNamed V :=
  ⟨h.all.erase k, (h.isCanonical.erase k).distinct⟩

theorem IsNamed.get? {t : Table Json α} (h : t.IsNamed V) {k : Json} {v : α}
    (hv : t.get? k = some v) : V v :=
  h.all.get? hv

theorem IsNamed.contains_iff {t : Table Json α} (h : t.IsNamed V) {k : Json} (hk : k.IsString) :
    t.contains k = true ↔ k ∈ t.keys :=
  h.isCanonical.contains_iff hk.isWord.key_eq

/-- A key that has been there is there after a write, and so is the key that was written. -/
theorem IsNamed.mem_keys_put {t : Table Json α} (h : t.IsNamed V) {k : Json} (hk : k.IsString)
    (v : α) {l : Json} : l ∈ (t.put k v).keys ↔ l ∈ t.keys ∨ l = k := by
  rw [h.isCanonical.keys_put hk.isWord.key_eq]
  split
  · next hmem =>
    constructor
    · exact .inl
    · rintro (hl | rfl)
      · exact hl
      · exact hmem
  · simp

theorem put_entries_ne_nil {κ : Type} [DecidableEq κ] [Keyed κ] (t : Table κ α) (k : κ) (v : α) :
    (t.put k v).entries ≠ [] := by
  obtain ⟨es⟩ := t
  cases es with
  | nil => simp [Table.put, write]
  | cons e es =>
    simp only [Table.put, write]
    split <;> simp

end Table

/-! ## 2. One bucket -/

/-- The properties of a bucket are named by texts, there is one, and the bucket was written after
zero and not after the time the clock shows. -/
structure Bucket.IsCoherent (clock : Int) (b : Bucket) : Prop where
  properties : b.properties.IsNamed fun _ => True
  nonempty : b.properties.entries ≠ []
  touched : ∃ n : Int, b.touched = .int n ∧ 0 < n ∧ n ≤ clock

theorem Bucket.time_eq {b : Bucket} {n : Int} (h : b.touched = .int n) : b.time = n := by
  obtain ⟨properties, touched⟩ := b
  obtain rfl : touched = .int n := h
  exact Bucket.time_int properties n

theorem Bucket.IsCoherent.mono {clock clock' : Int} (hle : clock ≤ clock') {b : Bucket}
    (h : b.IsCoherent clock) : b.IsCoherent clock' := by
  obtain ⟨n, hn, hpos, hle'⟩ := h.touched
  exact ⟨h.properties, h.nonempty, n, hn, hpos, Int.le_trans hle' hle⟩

/-! ## 3. The index -/

namespace BucketIndex

variable {K : BucketKey → Prop} {index : BucketIndex}

/-- The clock has not gone below zero, no key occurs twice, every key is of a kind, and every bucket
is coherent. -/
structure IsCoherent (K : BucketKey → Prop) (index : BucketIndex) : Prop where
  clock : 0 ≤ index.clock
  canonical : index.buckets.IsCanonical
  all : index.buckets.All fun k b => K k ∧ b.IsCoherent index.clock

theorem isCoherent_empty : IsCoherent K {} :=
  ⟨Int.le_refl 0, Table.isCanonical_empty, Table.all_empty _⟩

theorem IsCoherent.imp {K' : BucketKey → Prop} (h : index.IsCoherent K) (hK : ∀ k, K k → K' k) :
    index.IsCoherent K' :=
  ⟨h.clock, h.canonical, h.all.imp fun k _ hkb => ⟨hK k hkb.1, hkb.2⟩⟩

theorem IsCoherent.get? (h : index.IsCoherent K) {k : BucketKey} {b : Bucket}
    (hb : index.get? k = some b) : b.IsCoherent index.clock :=
  h.all.get? hb

theorem IsCoherent.putTouched (h : index.IsCoherent K) {k : BucketKey} (hk : K k)
    (hkey : Keyed.key k = k) {properties : Table Json StyleProperty}
    (hp : properties.IsNamed fun _ => True) (hne : properties.entries ≠ []) :
    (index.putTouched k properties).IsCoherent K := by
  have hclock : index.clock ≤ index.clock + 1 := by omega
  have hpos : 0 < index.clock + 1 := by
    have := h.clock
    omega
  refine ⟨Int.le_of_lt hpos, h.canonical.put hkey _, ?_⟩
  exact (h.all.imp fun k b hkb => ⟨hkb.1, hkb.2.mono hclock⟩).put hk
    ⟨hp, hne, index.clock + 1, rfl, hpos, Int.le_refl _⟩

/-- The properties of a key are named by texts, whether it has a bucket or not. -/
theorem IsCoherent.propertiesOf (h : index.IsCoherent K) (k : BucketKey) :
    (index.propertiesOf k).IsNamed fun _ => True := by
  unfold BucketIndex.propertiesOf
  cases hb : index.get? k with
  | none => exact Table.isNamed_empty
  | some b => exact (h.get? hb).properties

theorem IsCoherent.touch (h : index.IsCoherent K) {k : BucketKey} (hk : K k)
    (hkey : Keyed.key k = k) : (index.touch k).1.IsCoherent K := by
  unfold BucketIndex.touch
  split
  · next b hb => exact h.putTouched hk hkey (h.get? hb).properties (h.get? hb).nonempty
  · exact h

theorem IsCoherent.add (h : index.IsCoherent K) {k : BucketKey} (hk : K k)
    (hkey : Keyed.key k = k) {name : Json} (hname : name.IsString) (p : StyleProperty) :
    (index.add k name p).1.IsCoherent K := by
  have hp := h.propertiesOf k
  simp only [BucketIndex.add]
  split
  · next hmem =>
    refine h.putTouched hk hkey hp fun hnil => ?_
    simp [Table.contains, Table.get?, hnil, Table.lookup] at hmem
  · exact h.putTouched hk hkey (hp.put hname trivial) (Table.put_entries_ne_nil _ _ _)

theorem IsCoherent.set (h : index.IsCoherent K) {k : BucketKey} (hk : K k)
    (hkey : Keyed.key k = k) {name : Json} (hname : name.IsString) (p : StyleProperty) :
    (index.set k name p).IsCoherent K :=
  h.putTouched hk hkey ((h.propertiesOf k).put hname trivial) (Table.put_entries_ne_nil _ _ _)

/-- The latest of some buckets is one of them, and none of them is later. -/
theorem foldl_later (e : BucketKey × Bucket) (es : List (BucketKey × Bucket)) :
    es.foldl later e ∈ e :: es ∧ ∀ d ∈ e :: es, d.2.time ≤ (es.foldl later e).2.time := by
  induction es generalizing e with
  | nil => simp
  | cons d es ih =>
    obtain ⟨hmem, hmax⟩ := ih (later e d)
    obtain ⟨hfirst, hrest⟩ := List.forall_mem_cons.1 hmax
    have hlater : (later e d = e ∨ later e d = d) ∧ e.2.time ≤ (later e d).2.time ∧
        d.2.time ≤ (later e d).2.time := by
      unfold later
      split
      · exact ⟨.inr rfl, by omega, Int.le_refl _⟩
      · exact ⟨.inl rfl, Int.le_refl _, by omega⟩
    obtain ⟨hpick, he, hd⟩ := hlater
    rw [List.foldl_cons]
    refine ⟨?_, List.forall_mem_cons.2 ⟨Int.le_trans he hfirst,
      List.forall_mem_cons.2 ⟨Int.le_trans hd hfirst, hrest⟩⟩⟩
    rcases List.mem_cons.1 hmem with hmem | hmem
    · rw [hmem]
      rcases hpick with h | h <;> simp [h]
    · exact List.mem_cons_of_mem e (List.mem_cons_of_mem d hmem)

/-- The bucket written last is one of the buckets of its selector and layer, and none of these was
written later. -/
theorem mostRecent?_eq_some {selector layer : Json} {e : BucketKey × Bucket}
    (h : index.mostRecent? selector layer = some e) :
    e ∈ index.buckets.entries ∧ e.1.isFor selector layer = true ∧
      ∀ d ∈ index.buckets.entries, d.1.isFor selector layer = true → d.2.time ≤ e.2.time := by
  unfold mostRecent? at h
  split at h
  · simp at h
  · next b bs hfilter =>
    obtain rfl := Option.some.inj h
    obtain ⟨hmem, hmax⟩ := foldl_later b bs
    rw [← hfilter] at hmem hmax
    obtain ⟨hentry, hfor⟩ := List.mem_filter.1 hmem
    exact ⟨hentry, hfor, fun d hd hdfor => hmax d (List.mem_filter.2 ⟨hd, hdfor⟩)⟩

theorem mostRecent?_eq_none {selector layer : Json} :
    index.mostRecent? selector layer = none ↔
      ∀ e ∈ index.buckets.entries, ¬e.1.isFor selector layer = true := by
  rw [← List.filter_eq_nil_iff]
  unfold mostRecent?
  split
  · next hnil => simp [hnil]
  · next hcons => simp [hcons]

/-- What a deletion leaves: nothing has changed, or the bucket written last has lost properties, and
has gone if it has lost them all. -/
theorem delete_cases (index : BucketIndex) (selector layer : Json) (name : Option Json) :
    (index.delete selector layer name).1 = index ∨
      ∃ k b left, index.mostRecent? selector layer = some (k, b) ∧
        (left = {} ∨ ∃ n, left = b.properties.erase n) ∧
        (index.delete selector layer name).1 =
          { index with
            buckets := if left.isEmpty then index.buckets.erase k
              else index.buckets.put k { b with properties := left } } := by
  unfold BucketIndex.delete
  split
  · exact .inl rfl
  · next k b hrecent =>
    cases name with
    | none => exact .inr ⟨k, b, {}, hrecent, .inl rfl, rfl⟩
    | some n =>
      by_cases hn : b.properties.contains n = true
      · exact .inr ⟨k, b, b.properties.erase n, hrecent, .inr ⟨n, rfl⟩, by simp [hn]⟩
      · exact .inl (by simp [hn])

theorem IsCoherent.delete (h : index.IsCoherent K) (selector layer : Json) (name : Option Json) :
    (index.delete selector layer name).1.IsCoherent K := by
  rcases delete_cases index selector layer name with heq | ⟨k, b, left, hrecent, hleft, heq⟩
  · rw [heq]
    exact h
  · rw [heq]
    have hmem := (mostRecent?_eq_some hrecent).1
    obtain ⟨hk, hb⟩ := h.all _ hmem
    have hnamed : left.IsNamed fun _ => True := by
      rcases hleft with rfl | ⟨n, rfl⟩
      · exact Table.isNamed_empty
      · exact hb.properties.erase n
    split
    · exact ⟨h.clock, h.canonical.erase k, h.all.erase k⟩
    · next hne =>
      have hkey := h.canonical.plain k (Table.mem_keys_of_mem hmem)
      refine ⟨h.clock, h.canonical.put hkey _, h.all.put hk ⟨hnamed, ?_, hb.touched⟩⟩
      simpa [Table.isEmpty] using hne

theorem IsCoherent.drop (h : index.IsCoherent K) (selector layer : Json) :
    (index.drop selector layer).1.IsCoherent K :=
  ⟨h.clock, h.canonical.filter fun k _ => !k.isFor selector layer, h.all.filter _⟩

/-! ## 4. Declarations -/

theorem IsCoherent.writeOne (h : index.IsCoherent K) {k : BucketKey} (hk : K k)
    (hkey : Keyed.key k = k) (ctx : Context) (mode : WriteMode) (d : Declaration) :
    (Cascade.writeOne ctx mode k index d).IsCoherent K := by
  cases mode with
  | add => exact h.add hk hkey (Json.isString_text _) _
  | set => exact h.set hk hkey (Json.isString_text _) _

theorem IsCoherent.writeAll (h : index.IsCoherent K) {k : BucketKey} (hk : K k)
    (hkey : Keyed.key k = k) (ctx : Context) (mode : WriteMode) (ds : List Declaration) :
    (Cascade.writeAll ctx mode ds index k).IsCoherent K := by
  unfold Cascade.writeAll
  split
  · exact h.touch hk hkey
  · clear * - h hk hkey
    induction ds generalizing index with
    | nil => exact h
    | cons d ds ih => exact ih (h.writeOne hk hkey ctx mode d)

theorem IsCoherent.writeKeys (h : index.IsCoherent K) (ctx : Context) (mode : WriteMode)
    (ds : List Declaration) {keys : List BucketKey} (hkeys : ∀ k ∈ keys, K k ∧ Keyed.key k = k) :
    (keys.foldl (Cascade.writeAll ctx mode ds) index).IsCoherent K := by
  induction keys generalizing index with
  | nil => exact h
  | cons k keys ih =>
    obtain ⟨⟨hk, hkey⟩, hkeys⟩ := List.forall_mem_cons.1 hkeys
    exact ih (h.writeAll hk hkey ctx mode ds) hkeys

end BucketIndex

end StyleLedger
