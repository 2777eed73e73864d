import StyleLedger.Proofs.Cascade.Growth

/-!
Cascades that differ in what no style sheet shows.

Two cascades *match* when they hold the same entries in the same order, but for where and when these
were written: provenance, times of creation, identifiers of rows, and the clock of the buckets. The
clock tells which bucket was written last, so the times of buckets may differ only as long as they
come in the same order. Statements that are applied to matching cascades, wherever and whenever this
happens on either side, are refused on both or lead to matching cascades (`Matches.step`,
`Matches.build`).

* `Table.Same` — two tables with the same keys whose values have the same part.
* `BucketIndex.Pairs`, `BucketIndex.Matches` — matching buckets, as one table of pairs.
* `Cascade.Matches` — the relation.
-/

namespace StyleLedger

open Outcome

/-! ## 1. Entries without their history -/

def TokenEntry.bare (t : TokenEntry) : TokenEntry :=
  { t with provenance := {}, createdAt := .null, updatedAt := .null }

theorem TokenEntry.bare_eq_iff {t t' : TokenEntry} :
    t.bare = t'.bare ↔ t.value = t'.value ∧ t.deleted = t'.deleted := by
  simp [TokenEntry.bare]

def SelectorEntry.bare (e : SelectorEntry) : SelectorEntry :=
  { e with provenance := {}, createdAt := .null, updatedAt := .null }

theorem SelectorEntry.bare_eq_iff {e e' : SelectorEntry} :
    e.bare = e'.bare ↔ e.definition = e'.definition ∧ e.deleted = e'.deleted := by
  simp [SelectorEntry.bare]

def StyleProperty.bare (p : StyleProperty) : StyleProperty :=
  { p with rowId := .null, originFile := .null, migrationId := .null }

def PropertyEntry.bare (p : PropertyEntry) : PropertyEntry :=
  { p with provenance := {} }

def FontFace.bare (f : FontFace) : FontFace :=
  { f with provenance := {} }

def Animation.bare (a : Animation) : Animation :=
  { a with provenance := {} }

def RuleBlock.bare (b : RuleBlock) : RuleBlock :=
  { b with provenance := {} }

def RawEntry.bare (r : RawEntry) : RawEntry :=
  { r with provenance := {} }

def ImportEntry.bare (i : ImportEntry) : ImportEntry :=
  { i with provenance := {} }

/-! ## 2. Tables -/

namespace Table

variable {κ α β : Type} {f : α → β} {t u : Table κ α}

/-- The same keys in the same order, with the same parts of their values. -/
def Same (f : α → β) (t u : Table κ α) : Prop :=
  t.map f = u.map f

theorem same_empty : Same f ({} : Table κ α) {} := rfl

theorem Same.keys (h : Same f t u) : t.keys = u.keys := by
  rw [← keys_map f t, h, keys_map]

theorem Same.values (h : Same f t u) : t.values.map f = u.values.map f := by
  rw [← values_map, h, values_map]

theorem Same.isEmpty (h : Same f t u) : t.isEmpty = u.isEmpty := by
  have hlength : t.keys.length = u.keys.length := by rw [h.keys]
  simp only [Table.keys, List.length_map] at hlength
  obtain ⟨es⟩ := t
  obtain ⟨ds⟩ := u
  cases es <;> cases ds <;> simp_all [Table.isEmpty]

theorem Same.filter (h : Same f t u) {p : κ → α → Bool} {q : κ → β → Bool}
    (hp : ∀ k v, p k v = q k (f v)) : Same f (t.filter p) (u.filter p) := by
  rw [Same, map_filter f hp, h, map_filter f hp]

variable [DecidableEq κ] [Keyed κ]

theorem Same.put (h : Same f t u) (k : κ) {v w : α} (hv : f v = f w) :
    Same f (t.put k v) (u.put k w) := by
  rw [Same, map_put, map_put, h, hv]

theorem Same.erase (h : Same f t u) (k : κ) : Same f (t.erase k) (u.erase k) := by
  rw [Same, map_erase, map_erase, h]

theorem Same.contains (h : Same f t u) (k : κ) : t.contains k = u.contains k := by
  rw [← contains_map f t, h, contains_map]

/-- A key has values with the same part in both tables, or in neither. -/
theorem Same.get?_cases (h : Same f t u) (k : κ) :
    t.get? k = none ∧ u.get? k = none ∨
      ∃ v w, t.get? k = some v ∧ u.get? k = some w ∧ f v = f w := by
  have hget : (t.get? k).map f = (u.get? k).map f := by rw [← get?_map, h, get?_map]
  cases ht : t.get? k with
  | none =>
    rw [ht] at hget
    exact .inl ⟨rfl, Option.map_eq_none_iff.1 hget.symm⟩
  | some v =>
    rw [ht] at hget
    obtain ⟨w, hw, hvw⟩ := Option.map_eq_some_iff.1 hget.symm
    exact .inr ⟨v, w, rfl, hw, hvw.symm⟩

end Table

/-! ## 3. Buckets -/

namespace BucketIndex

/-- The buckets of two indexes as one table: the properties of both buckets of a pair are the same,
the times of the pairs come in one order on both sides, and no clock is behind. -/
structure Pairs (t : Table BucketKey (Bucket × Bucket)) (a b : BucketIndex) : Prop where
  left : a.buckets = t.map Prod.fst
  right : b.buckets = t.map Prod.snd
  same : ∀ e ∈ t.entries, e.2.1.properties.Same StyleProperty.bare e.2.2.properties
  order : ∀ e ∈ t.entries, ∀ d ∈ t.entries,
    e.2.1.time < d.2.1.time ↔ e.2.2.time < d.2.2.time
  leftClock : ∀ e ∈ t.entries, e.2.1.time ≤ a.clock
  rightClock : ∀ e ∈ t.entries, e.2.2.time ≤ b.clock

/-- Two indexes hold the same buckets, but for the history of their properties and the clock. -/
def Matches (a b : BucketIndex) : Prop :=
  ∃ t, Pairs t a b

variable {t : Table BucketKey (Bucket × Bucket)} {a b : BucketIndex}

theorem Matches.empty : Matches {} {} :=
  ⟨{}, rfl, rfl, by simp, by simp, by simp, by simp⟩

theorem Matches.symm (h : Matches a b) : Matches b a := by
  obtain ⟨t, h⟩ := h
  refine ⟨t.map Prod.swap, ?_, ?_, ?_, ?_, ?_, ?_⟩
  · rw [h.right]
    simp [Table.map]
  · rw [h.left]
    simp [Table.map]
  · intro e he
    obtain ⟨d, hd, rfl⟩ := List.mem_map.1 he
    exact (h.same d hd).symm
  · intro e he f hf
    obtain ⟨d, hd, rfl⟩ := List.mem_map.1 he
    obtain ⟨g, hg, rfl⟩ := List.mem_map.1 hf
    exact (h.order d hd g hg).symm
  · intro e he
    obtain ⟨d, hd, rfl⟩ := List.mem_map.1 he
    exact h.rightClock d hd
  · intro e he
    obtain ⟨d, hd, rfl⟩ := List.mem_map.1 he
    exact h.leftClock d hd

/-! ### Looking -/

theorem Pairs.get?_cases (h : Pairs t a b) (k : BucketKey) :
    a.get? k = none ∧ b.get? k = none ∨ ∃ c d, a.get? k = some c ∧ b.get? k = some d ∧
      c.properties.Same StyleProperty.bare d.properties := by
  have ha : a.get? k = (t.get? k).map Prod.fst := by rw [BucketIndex.get?, h.left, Table.get?_map]
  have hb : b.get? k = (t.get? k).map Prod.snd := by rw [BucketIndex.get?, h.right, Table.get?_map]
  cases ht : t.get? k with
  | none => exact .inl ⟨by rw [ha, ht]; rfl, by rw [hb, ht]; rfl⟩
  | some p =>
    obtain ⟨l, -, hl⟩ := Table.lookup_mem ht
    exact .inr ⟨p.1, p.2, by rw [ha, ht]; rfl, by rw [hb, ht]; rfl, h.same _ hl⟩

theorem Matches.propertiesOf (h : Matches a b) (k : BucketKey) :
    (a.propertiesOf k).Same StyleProperty.bare (b.propertiesOf k) := by
  obtain ⟨t, h⟩ := h
  unfold BucketIndex.propertiesOf
  rcases h.get?_cases k with ⟨ha, hb⟩ | ⟨c, d, ha, hb, hsame⟩
  · rw [ha, hb]
    exact Table.same_empty
  · rw [ha, hb]
    exact hsame

/-- Matching indexes number their next property alike. -/
theorem Matches.nextSequence (h : Matches a b) : a.nextSequence = b.nextSequence := by
  obtain ⟨t, h⟩ := h
  have hcells : a.sequenceCells = b.sequenceCells := by
    unfold sequenceCells
    rw [h.left, h.right, Table.values_map, Table.values_map, List.flatMap_map, List.flatMap_map]
    refine List.flatMap_congr fun p hp => ?_
    obtain ⟨e, he, rfl⟩ := List.mem_map.1 hp
    have hvalues := congrArg (List.map StyleProperty.sequence) (h.same e he).values
    simpa [Function.comp_def, StyleProperty.bare] using hvalues
  unfold BucketIndex.nextSequence sequences
  rw [hcells]

/-- The later of two pairs, as the left sides tell. -/
def laterPair (p q : BucketKey × Bucket × Bucket) : BucketKey × Bucket × Bucket :=
  if p.2.1.time < q.2.1.time then q else p

theorem laterPair_cases (p q : BucketKey × Bucket × Bucket) :
    laterPair p q = p ∨ laterPair p q = q := by
  unfold laterPair
  split
  · exact .inr rfl
  · exact .inl rfl

/-- The bucket that was written last is found at the same place on both sides. -/
theorem Pairs.foldl_later (h : Pairs t a b) : ∀ {es : List (BucketKey × Bucket × Bucket)}
    {x : BucketKey × Bucket × Bucket}, (∀ e ∈ x :: es, e ∈ t.entries) →
    (es.map fun e => (e.1, e.2.1)).foldl later (x.1, x.2.1) =
        ((es.foldl laterPair x).1, (es.foldl laterPair x).2.1) ∧
      (es.map fun e => (e.1, e.2.2)).foldl later (x.1, x.2.2) =
        ((es.foldl laterPair x).1, (es.foldl laterPair x).2.2) ∧
      es.foldl laterPair x ∈ t.entries
  | [], x, hmem => ⟨rfl, rfl, hmem x List.mem_cons_self⟩
  | e :: es, x, hmem => by
    obtain ⟨hx, hes⟩ := List.forall_mem_cons.1 hmem
    obtain ⟨he, hes⟩ := List.forall_mem_cons.1 hes
    have hboth : later (x.1, x.2.1) (e.1, e.2.1) = ((laterPair x e).1, (laterPair x e).2.1) ∧
        later (x.1, x.2.2) (e.1, e.2.2) = ((laterPair x e).1, (laterPair x e).2.2) := by
      have horder := h.order x hx e he
      unfold later laterPair
      by_cases hlt : x.2.1.time < e.2.1.time
      · simp [hlt, horder.1 hlt]
      · have hright : ¬x.2.2.time < e.2.2.time := fun hlt' => hlt (horder.2 hlt')
        simp [hlt, hright]
    have hnext : ∀ d ∈ laterPair x e :: es, d ∈ t.entries := by
      refine List.forall_mem_cons.2 ⟨?_, hes⟩
      rcases laterPair_cases x e with heq | heq <;> rw [heq]
      · exact hx
      · exact he
    simp only [List.map_cons, List.foldl_cons, hboth]
    exact h.foldl_later hnext

theorem Pairs.mostRecent?_cases (h : Pairs t a b) (selector layer : Json) :
    a.mostRecent? selector layer = none ∧ b.mostRecent? selector layer = none ∨
      ∃ k c d, (k, c, d) ∈ t.entries ∧ a.mostRecent? selector layer = some (k, c) ∧
        b.mostRecent? selector layer = some (k, d) := by
  have hfilter : ∀ (f : Bucket × Bucket → Bucket), (t.map f).entries.filter
      (·.1.isFor selector layer) = (t.entries.filter (·.1.isFor selector layer)).map fun e =>
        (e.1, f e.2) := fun f => by
    rw [Table.map, List.filter_map]
    rfl
  unfold mostRecent?
  rw [h.left, h.right, hfilter, hfilter]
  cases hes : t.entries.filter (·.1.isFor selector layer) with
  | nil => exact .inl ⟨rfl, rfl⟩
  | cons x es =>
    have hmem : ∀ e ∈ x :: es, e ∈ t.entries := fun e he => List.mem_of_mem_filter (hes ▸ he)
    obtain ⟨hleft, hright, hlast⟩ := h.foldl_later hmem
    refine .inr ⟨_, _, _, hlast, ?_, ?_⟩
    · rw [← hleft]
      rfl
    · rw [← hright]
      rfl

/-! ### Writing -/

/-- Fewer pairs still match. -/
theorem Pairs.of_subset (h : Pairs t a b) (u : Table BucketKey (Bucket × Bucket))
    (hsub : ∀ e ∈ u.entries, e ∈ t.entries) {a' b' : BucketIndex} (ha : a'.buckets = u.map Prod.fst)
    (hb : b'.buckets = u.map Prod.snd) (hleft : a'.clock = a.clock) (hright : b'.clock = b.clock) :
    Pairs u a' b' where
  left := ha
  right := hb
  same e he := h.same e (hsub e he)
  order e he d hd := h.order e (hsub e he) d (hsub d hd)
  leftClock e he := hleft ▸ h.leftClock e (hsub e he)
  rightClock e he := hright ▸ h.rightClock e (hsub e he)

/-- Buckets that are both written now are the last ones on both sides. -/
theorem Matches.putTouched (h : Matches a b) (k : BucketKey) {ps qs : Table Json StyleProperty}
    (hps : ps.Same StyleProperty.bare qs) : (a.putTouched k ps).Matches (b.putTouched k qs) := by
  obtain ⟨t, h⟩ := h
  let p : Bucket × Bucket :=
    ({ properties := ps, touched := .int (a.clock + 1) },
     { properties := qs, touched := .int (b.clock + 1) })
  have htime : p.1.time = a.clock + 1 ∧ p.2.time = b.clock + 1 :=
    ⟨Bucket.time_int _ _, Bucket.time_int _ _⟩
  have hmem : ∀ e ∈ (t.put k p).entries, e ∈ t.entries ∨ e.2 = p := fun e he =>
    (Table.mem_write he).imp_right And.left
  refine ⟨t.put k p, ?_, ?_, ?_, ?_, ?_, ?_⟩
  · rw [Table.map_put, ← h.left]
    rfl
  · rw [Table.map_put, ← h.right]
    rfl
  · intro e he
    rcases hmem e he with he | he
    · exact h.same e he
    · rw [he]
      exact hps
  · intro e he d hd
    rcases hmem e he with he | he <;> rcases hmem d hd with hd | hd
    · exact h.order e he d hd
    · have hl := h.leftClock e he
      have hr := h.rightClock e he
      rw [hd]
      omega
    · have hl := h.leftClock d hd
      have hr := h.rightClock d hd
      rw [he]
      omega
    · rw [he, hd]
      omega
  · intro e he
    show e.2.1.time ≤ a.clock + 1
    rcases hmem e he with he | he
    · have := h.leftClock e he
      omega
    · rw [he]
      omega
  · intro e he
    show e.2.2.time ≤ b.clock + 1
    rcases hmem e he with he | he
    · have := h.rightClock e he
      omega
    · rw [he]
      omega

theorem Matches.touch (h : Matches a b) (k : BucketKey) :
    (a.touch k).1.Matches (b.touch k).1 := by
  obtain ⟨t, hpairs⟩ := h
  unfold BucketIndex.touch
  rcases hpairs.get?_cases k with ⟨ha, hb⟩ | ⟨c, d, ha, hb, hsame⟩
  · rw [ha, hb]
    exact ⟨t, hpairs⟩
  · rw [ha, hb]
    exact putTouched ⟨t, hpairs⟩ k hsame

theorem Matches.add (h : Matches a b) (k : BucketKey) (name : Json) {p q : StyleProperty}
    (hpq : p.bare = q.bare) : (a.add k name p).1.Matches (b.add k name q).1 := by
  have hsame := h.propertiesOf k
  simp only [BucketIndex.add, hsame.contains name]
  split
  · exact h.putTouched k hsame
  · exact h.putTouched k (hsame.put name hpq)

theorem bare_overwrite {p q p' q' : StyleProperty} (hpq : p.bare = q.bare)
    (hpq' : p'.bare = q'.bare) : (overwrite p p').bare = (overwrite q q').bare := by
  simp only [StyleProperty.bare, overwrite, StyleProperty.mk.injEq] at hpq hpq' ⊢
  simp [hpq, hpq']

theorem Matches.set (h : Matches a b) (k : BucketKey) (name : Json) {p q : StyleProperty}
    (hpq : p.bare = q.bare) : (a.set k name p).Matches (b.set k name q) := by
  have hsame := h.propertiesOf k
  simp only [BucketIndex.set]
  rcases hsame.get?_cases name with ⟨ha, hb⟩ | ⟨old, old', ha, hb, hold⟩
  · rw [ha, hb]
    exact h.putTouched k (hsame.put name hpq)
  · rw [ha, hb]
    exact h.putTouched k (hsame.put name (bare_overwrite hold hpq))

/-- Properties that are replaced in both buckets of a pair change no time. -/
theorem Pairs.putProperties (h : Pairs t a b) {k : BucketKey} {c d : Bucket}
    (hmem : (k, c, d) ∈ t.entries) {ps qs : Table Json StyleProperty}
    (hps : ps.Same StyleProperty.bare qs) :
    Matches { a with buckets := a.buckets.put k { c with properties := ps } }
      { b with buckets := b.buckets.put k { d with properties := qs } } := by
  let p : Bucket × Bucket := ({ c with properties := ps }, { d with properties := qs })
  have htimes : ∀ e ∈ (t.put k p).entries, ∃ e' ∈ t.entries, e.2.1.time = e'.2.1.time ∧
      e.2.2.time = e'.2.2.time := by
    intro e he
    rcases Table.mem_write he with he | ⟨he, -⟩
    · exact ⟨e, he, rfl, rfl⟩
    · exact ⟨_, hmem, by rw [he]; rfl, by rw [he]; rfl⟩
  refine ⟨t.put k p, ?_, ?_, ?_, ?_, ?_, ?_⟩
  · rw [Table.map_put, ← h.left]
  · rw [Table.map_put, ← h.right]
  · intro e he
    rcases Table.mem_write he with he | ⟨he, -⟩
    · exact h.same e he
    · rw [he]
      exact hps
  · intro e he d hd
    obtain ⟨e', he', hel, her⟩ := htimes e he
    obtain ⟨d', hd', hdl, hdr⟩ := htimes d hd
    rw [hel, hdl, her, hdr]
    exact h.order e' he' d' hd'
  · intro e he
    obtain ⟨e', he', hel, -⟩ := htimes e he
    rw [hel]
    exact h.leftClock e' he'
  · intro e he
    obtain ⟨e', he', -, her⟩ := htimes e he
    rw [her]
    exact h.rightClock e' he'

/-- A deletion hits the same bucket on both sides. -/
theorem Matches.delete (h : Matches a b) (selector layer : Json) (name : Option Json) :
    (a.delete selector layer name).1.Matches (b.delete selector layer name).1 := by
  obtain ⟨t, h⟩ := h
  unfold BucketIndex.delete
  rcases h.mostRecent?_cases selector layer with ⟨ha, hb⟩ | ⟨k, c, d, hmem, ha, hb⟩
  · rw [ha, hb]
    exact ⟨t, h⟩
  · rw [ha, hb]
    have hsame : c.properties.Same StyleProperty.bare d.properties := h.same _ hmem
    have herase : Matches { a with buckets := a.buckets.erase k }
        { b with buckets := b.buckets.erase k } :=
      ⟨t.erase k, h.of_subset (t.erase k) (fun e he => List.mem_of_mem_filter he)
        (by rw [Table.map_erase, ← h.left]) (by rw [Table.map_erase, ← h.right]) rfl rfl⟩
    cases name with
    | none => exact herase
    | some n =>
      by_cases hn : c.properties.contains n = true
      · have hn' : d.properties.contains n = true := hsame.contains n ▸ hn
        have hleft := (hsame.erase n).isEmpty
        simp only [hn, hn', if_true, hleft]
        by_cases hempty : (d.properties.erase n).isEmpty = true
        · simp only [hempty, if_true]
          exact herase
        · simp only [hempty]
          exact h.putProperties hmem (hsame.erase n)
      · have hn' : ¬d.properties.contains n = true := hsame.contains n ▸ hn
        simp only [hn, hn']
        exact ⟨t, h⟩

theorem Matches.drop (h : Matches a b) (selector layer : Json) :
    (a.drop selector layer).1.Matches (b.drop selector layer).1 := by
  obtain ⟨t, h⟩ := h
  have hmap : ∀ f : Bucket × Bucket → Bucket, (t.filter fun k _ => !k.isFor selector layer).map f =
      (t.map f).filter fun k _ => !k.isFor selector layer := fun f =>
    Table.map_filter f (q := fun (k : BucketKey) _ => !k.isFor selector layer) (fun _ _ => rfl) t
  refine ⟨_, h.of_subset (t.filter fun k _ => !k.isFor selector layer)
    (fun e he => List.mem_of_mem_filter he) ?_ ?_ rfl rfl⟩
  · rw [hmap, ← h.left]
    rfl
  · rw [hmap, ← h.right]
    rfl

end BucketIndex

/-! ## 4. Statements that write styles -/

/-- Two contexts write to the same layer with the same spacing mode. -/
structure Context.Matches (ctx ctx' : Context) : Prop where
  activeLayer : ctx.activeLayer = ctx'.activeLayer
  spacingMode : ctx.spacingMode = ctx'.spacingMode

theorem Context.Matches.tickIf {ctx ctx' : Context} (h : ctx.Matches ctx') (read read' : Bool) :
    (ctx.tickIf read).Matches (ctx'.tickIf read') :=
  ⟨by simpa using h.activeLayer, by simpa using h.spacingMode⟩

theorem Context.Matches.tick {ctx ctx' : Context} (h : ctx.Matches ctx') :
    ctx.tick.Matches ctx'.tick :=
  h.tickIf true true

namespace BucketIndex.Matches

variable {a b : BucketIndex} {ctx ctx' : Context}

theorem bare_newProperty (h : Matches a b) (hctx : ctx.Matches ctx') (d : Declaration) :
    (Cascade.newProperty a ctx d).bare = (Cascade.newProperty b ctx' d).bare := by
  simp [Cascade.newProperty, StyleProperty.bare, h.nextSequence, hctx.spacingMode]

theorem writeOne (h : Matches a b) (hctx : ctx.Matches ctx') (mode : WriteMode) (k : BucketKey)
    (d : Declaration) :
    (Cascade.writeOne ctx mode k a d).Matches (Cascade.writeOne ctx' mode k b d) := by
  cases mode with
  | add => exact h.add k _ (h.bare_newProperty hctx d)
  | set => exact h.set k _ (h.bare_newProperty hctx d)

theorem writeAll (h : Matches a b) (hctx : ctx.Matches ctx') (mode : WriteMode)
    (ds : List Declaration) (k : BucketKey) :
    (Cascade.writeAll ctx mode ds a k).Matches (Cascade.writeAll ctx' mode ds b k) := by
  unfold Cascade.writeAll
  split
  · exact h.touch k
  · clear * - h hctx
    induction ds generalizing a b with
    | nil => exact h
    | cons d ds ih => exact ih (h.writeOne hctx mode k d)

theorem writeKeys (h : Matches a b) (hctx : ctx.Matches ctx') (mode : WriteMode)
    (ds : List Declaration) (keys : List BucketKey) :
    (keys.foldl (Cascade.writeAll ctx mode ds) a).Matches
      (keys.foldl (Cascade.writeAll ctx' mode ds) b) := by
  induction keys generalizing a b with
  | nil => exact h
  | cons k keys ih => exact ih (h.writeAll hctx mode ds k)

end BucketIndex.Matches

/-! ## 5. Cascades -/

/-- Two registries hold the same layers in the same order, and declare the same order. -/
structure LayerRegistry.Matches (r r' : LayerRegistry) : Prop where
  entries : r.entries.Same (fun _ => ()) r'.entries
  declared : r.declared = r'.declared

/-- Two cascades hold the same entries in the same order, but for where and when these were
written. -/
structure Cascade.Matches (a b : Cascade) : Prop where
  tokens : a.tokens.Same TokenEntry.bare b.tokens
  selectors : a.selectors.Same SelectorEntry.bare b.selectors
  layers : a.layers.Matches b.layers
  buckets : a.buckets.Matches b.buckets
  properties : a.properties.Same PropertyEntry.bare b.properties
  fontFaces : a.fontFaces.Same FontFace.bare b.fontFaces
  keyframes : a.keyframes.Same Animation.bare b.keyframes
  pages : a.pages.Same RuleBlock.bare b.pages
  counterStyles : a.counterStyles.Same RuleBlock.bare b.counterStyles
  fontFeatureValues : a.fontFeatureValues.Same RuleBlock.bare b.fontFeatureValues
  fontPaletteValues : a.fontPaletteValues.Same RuleBlock.bare b.fontPaletteValues
  startingStyles : a.startingStyles.Same RuleBlock.bare b.startingStyles
  raw : a.raw.map RawEntry.bare = b.raw.map RawEntry.bare
  imports : a.imports.map ImportEntry.bare = b.imports.map ImportEntry.bare

namespace LayerRegistry.Matches

variable {r r' : LayerRegistry}

theorem encounter (h : r.Matches r') (name : Json) (p p' : Provenance) :
    (r.encounter name p).Matches (r'.encounter name p') := by
  unfold LayerRegistry.encounter
  rw [h.entries.contains name]
  split
  · exact h
  · exact { h with entries := h.entries.put name rfl }

theorem declare (h : r.Matches r') (names : List Json) (p p' : Provenance) :
    (r.declare names p).Matches (r'.declare names p') := by
  unfold LayerRegistry.declare
  induction names generalizing r r' with
  | nil => exact h
  | cons name names ih =>
    refine ih ?_
    have hone := h.encounter name p p'
    simp only [LayerRegistry.declareOne, hone.declared]
    split
    · exact hone
    · exact { hone with declared := rfl }

end LayerRegistry.Matches

namespace Cascade.Matches

variable {a b : Cascade}

theorem empty : Matches {} {} where
  tokens := rfl
  selectors := rfl
  layers := ⟨rfl, rfl⟩
  buckets := .empty
  properties := rfl
  fontFaces := rfl
  keyframes := rfl
  pages := rfl
  counterStyles := rfl
  fontFeatureValues := rfl
  fontPaletteValues := rfl
  startingStyles := rfl
  raw := rfl
  imports := rfl

theorem symm (h : Matches a b) : Matches b a where
  tokens := h.tokens.symm
  selectors := h.selectors.symm
  layers := ⟨h.layers.entries.symm, h.layers.declared.symm⟩
  buckets := h.buckets.symm
  properties := h.properties.symm
  fontFaces := h.fontFaces.symm
  keyframes := h.keyframes.symm
  pages := h.pages.symm
  counterStyles := h.counterStyles.symm
  fontFeatureValues := h.fontFeatureValues.symm
  fontPaletteValues := h.fontPaletteValues.symm
  startingStyles := h.startingStyles.symm
  raw := h.raw.symm
  imports := h.imports.symm

theorem putToken (h : Matches a b) (ctx ctx' : Context) (name value : Json) :
    Matches (a.putToken ctx name value) (b.putToken ctx' name value) := by
  refine { h with tokens := ?_ }
  simp only [Cascade.putToken]
  rcases h.tokens.get?_cases name with ⟨ha, hb⟩ | ⟨old, old', ha, hb, hold⟩
  · rw [ha, hb]
    exact h.tokens.put name rfl
  · obtain ⟨-, hdeleted⟩ := TokenEntry.bare_eq_iff.1 hold
    rw [ha, hb]
    simp only [hdeleted]
    split
    · exact (h.tokens.erase name).put name rfl
    · exact h.tokens.put name rfl

theorem deleteToken (h : Matches a b) (ctx ctx' : Context) (name : Json) :
    Matches (a.deleteToken ctx name) (b.deleteToken ctx' name) := by
  unfold Cascade.deleteToken
  rcases h.tokens.get?_cases name with ⟨ha, hb⟩ | ⟨old, old', ha, hb, hold⟩
  · rw [ha, hb]
    exact h
  · obtain ⟨hvalue, hdeleted⟩ := TokenEntry.bare_eq_iff.1 hold
    rw [ha, hb]
    simp only [hdeleted]
    split
    · exact h
    · exact { h with tokens := h.tokens.put name (TokenEntry.bare_eq_iff.2 ⟨hvalue, rfl⟩) }

theorem putSelector (h : Matches a b) (ctx ctx' : Context) (name : Json) (definition : Selector) :
    Matches (a.putSelector ctx name definition) (b.putSelector ctx' name definition) :=
  { h with selectors := h.selectors.put name rfl }

theorem referenceSelector (h : Matches a b) (ctx ctx' : Context) (name : Json) :
    Matches (a.referenceSelector ctx name) (b.referenceSelector ctx' name) := by
  unfold Cascade.referenceSelector
  rw [h.selectors.contains name]
  split
  · exact h
  · exact { h with selectors := h.selectors.put name rfl }

theorem deleteSelector (h : Matches a b) (ctx ctx' : Context) (name : Json) :
    Matches (a.deleteSelector ctx name) (b.deleteSelector ctx' name) := by
  unfold Cascade.deleteSelector
  rcases h.selectors.get?_cases name with ⟨ha, hb⟩ | ⟨old, old', ha, hb, hold⟩
  · rw [ha, hb]
    exact h
  · obtain ⟨hdefinition, hdeleted⟩ := SelectorEntry.bare_eq_iff.1 hold
    rw [ha, hb]
    simp only [hdeleted]
    split
    · exact h
    · exact { h with
        selectors := h.selectors.put name (SelectorEntry.bare_eq_iff.2 ⟨hdefinition, rfl⟩) }

theorem mentions (names : List String) {p q : Context × Cascade} (h : Matches p.2 q.2)
    (hctx : p.1.Matches q.1) :
    Matches (names.foldl mention p).2 (names.foldl mention q).2 ∧
      (names.foldl mention p).1.Matches (names.foldl mention q).1 := by
  induction names generalizing p q with
  | nil => exact ⟨h, hctx⟩
  | cons name names ih => exact ih (h.referenceSelector p.1 q.1 (.text name)) (hctx.tickIf _ _)

theorem writeStyle (h : Matches a b) {ctx ctx' : Context} (hctx : ctx.Matches ctx')
    {target : StyleTarget} {mode : WriteMode} {ds : List Declaration} {after : Context}
    {a' : Cascade} (hwrite : a.writeStyle ctx target mode ds = .ok (after, a')) :
    ∃ after' b', b.writeStyle ctx' target mode ds = .ok (after', b') ∧ Matches a' b' ∧
      after.Matches after' := by
  simp only [Cascade.writeStyle, bind_eq_ok, pure_eq_ok, Prod.mk.injEq] at hwrite ⊢
  obtain ⟨wrappers, hwrappers, rfl, rfl⟩ := hwrite
  obtain ⟨hrefs, hafter⟩ := mentions (selectorsOf target) (p := (ctx, a)) (q := (ctx', b)) h hctx
  refine ⟨_, _, ⟨wrappers, hwrappers, rfl, rfl⟩, { hrefs with buckets := ?_ }, hafter⟩
  rw [hctx.activeLayer]
  exact hrefs.buckets.writeKeys hctx mode ds _

theorem putFontFace (h : Matches a b) (ctx ctx' : Context) (family : String)
    (ds : List Declaration) :
    Matches (a.putFontFace ctx family ds) (b.putFontFace ctx' family ds) :=
  { h with fontFaces := h.fontFaces.put _ rfl }

/-! ## 6. Statements -/

/-- A statement that is accepted on one side is accepted on the other, and leads to matching
cascades and contexts. -/
theorem step (h : Matches a b) {ctx ctx' : Context} (hctx : ctx.Matches ctx') {stmt : Statement}
    {next : Context} {a' : Cascade} (hstep : Cascade.step ctx a stmt = .ok (next, a')) :
    ∃ next' b', Cascade.step ctx' b stmt = .ok (next', b') ∧ Matches a' b' ∧
      next.Matches next' := by
  cases stmt with
  | createStyle target ds | alterStyle target mode ds =>
    exact h.writeStyle hctx hstep
  | setLayer name =>
    obtain ⟨rfl, rfl⟩ := Prod.mk.inj (Except.ok.inj hstep)
    exact ⟨_, _, rfl, { h with layers := h.layers.encounter _ _ _ },
      { hctx with activeLayer := rfl }⟩
  | setSpacing mode =>
    obtain ⟨rfl, rfl⟩ := Prod.mk.inj (Except.ok.inj hstep)
    exact ⟨_, _, rfl, h, { hctx with spacingMode := rfl }⟩
  | deleteStyle selector property =>
    obtain ⟨rfl, rfl⟩ := Prod.mk.inj (Except.ok.inj hstep)
    refine ⟨_, _, rfl, { h with buckets := ?_ }, hctx⟩
    rw [hctx.activeLayer]
    exact h.buckets.delete _ _ _
  | dropStyle selector =>
    obtain ⟨rfl, rfl⟩ := Prod.mk.inj (Except.ok.inj hstep)
    refine ⟨_, _, rfl, { h with buckets := ?_ }, hctx⟩
    rw [hctx.activeLayer]
    exact h.buckets.drop _ _
  | raw css =>
    obtain ⟨rfl, rfl⟩ := Prod.mk.inj (Except.ok.inj hstep)
    refine ⟨_, _, rfl, { h with raw := ?_ }, hctx⟩
    have hlength : a.raw.length = b.raw.length := by simpa using congrArg List.length h.raw
    simp [h.raw, hlength, RawEntry.bare]
  | imports kind path media =>
    obtain ⟨rfl, rfl⟩ := Prod.mk.inj (Except.ok.inj hstep)
    refine ⟨_, _, rfl, { h with imports := ?_ }, hctx⟩
    have hlength : a.imports.length = b.imports.length := by
      simpa using congrArg List.length h.imports
    simp [h.imports, hlength, ImportEntry.bare]
  | dropFontFace family =>
    obtain ⟨rfl, rfl⟩ := Prod.mk.inj (Except.ok.inj hstep)
    refine ⟨_, _, rfl, { h with fontFaces := ?_ }, hctx⟩
    exact h.fontFaces.filter (q := fun _ f => f.family ≠ .text family) fun _ _ => rfl
  | createLayers names =>
    obtain ⟨rfl, rfl⟩ := Prod.mk.inj (Except.ok.inj hstep)
    exact ⟨_, _, rfl, { h with layers := h.layers.declare _ _ _ }, hctx⟩
  | createToken name value =>
    obtain ⟨rfl, rfl⟩ := Prod.mk.inj (Except.ok.inj hstep)
    exact ⟨_, _, rfl, h.putToken ctx ctx' _ _, hctx.tick⟩
  | dropToken name | deleteToken name =>
    obtain ⟨rfl, rfl⟩ := Prod.mk.inj (Except.ok.inj hstep)
    exact ⟨_, _, rfl, h.deleteToken ctx ctx' _, hctx.tickIf _ _⟩
  | createSelector name definition =>
    obtain ⟨rfl, rfl⟩ := Prod.mk.inj (Except.ok.inj hstep)
    exact ⟨_, _, rfl, h.putSelector ctx ctx' _ _, hctx.tick⟩
  | dropSelector name =>
    obtain ⟨rfl, rfl⟩ := Prod.mk.inj (Except.ok.inj hstep)
    exact ⟨_, _, rfl, h.deleteSelector ctx ctx' _, hctx.tickIf _ _⟩
  | createFontFace family ds =>
    obtain ⟨rfl, rfl⟩ := Prod.mk.inj (Except.ok.inj hstep)
    exact ⟨_, _, rfl, h.putFontFace ctx ctx' _ _, hctx⟩
  | createKeyframes name frames =>
    obtain ⟨rfl, rfl⟩ := Prod.mk.inj (Except.ok.inj hstep)
    exact ⟨_, _, rfl, { h with keyframes := h.keyframes.put _ rfl }, hctx⟩
  | dropKeyframes name =>
    obtain ⟨rfl, rfl⟩ := Prod.mk.inj (Except.ok.inj hstep)
    exact ⟨_, _, rfl, { h with keyframes := h.keyframes.erase _ }, hctx⟩
  | createProperty name ds =>
    obtain ⟨rfl, rfl⟩ := Prod.mk.inj (Except.ok.inj hstep)
    exact ⟨_, _, rfl, { h with properties := h.properties.put _ rfl }, hctx⟩
  | dropProperty name =>
    obtain ⟨rfl, rfl⟩ := Prod.mk.inj (Except.ok.inj hstep)
    exact ⟨_, _, rfl, { h with properties := h.properties.erase _ }, hctx⟩
  | createPage ds pseudo =>
    obtain ⟨rfl, rfl⟩ := Prod.mk.inj (Except.ok.inj hstep)
    exact ⟨_, _, rfl, { h with pages := h.pages.put _ rfl }, hctx⟩
  | dropPage pseudo =>
    obtain ⟨rfl, rfl⟩ := Prod.mk.inj (Except.ok.inj hstep)
    exact ⟨_, _, rfl, { h with pages := h.pages.erase _ }, hctx⟩
  | createCounterStyle name ds =>
    obtain ⟨rfl, rfl⟩ := Prod.mk.inj (Except.ok.inj hstep)
    exact ⟨_, _, rfl, { h with counterStyles := h.counterStyles.put _ rfl }, hctx⟩
  | dropCounterStyle name =>
    obtain ⟨rfl, rfl⟩ := Prod.mk.inj (Except.ok.inj hstep)
    exact ⟨_, _, rfl, { h with counterStyles := h.counterStyles.erase _ }, hctx⟩
  | createFontFeatureValues family ds =>
    obtain ⟨rfl, rfl⟩ := Prod.mk.inj (Except.ok.inj hstep)
    exact ⟨_, _, rfl, { h with fontFeatureValues := h.fontFeatureValues.put _ rfl }, hctx⟩
  | dropFontFeatureValues family =>
    obtain ⟨rfl, rfl⟩ := Prod.mk.inj (Except.ok.inj hstep)
    exact ⟨_, _, rfl, { h with fontFeatureValues := h.fontFeatureValues.erase _ }, hctx⟩
  | createFontPaletteValues name ds =>
    obtain ⟨rfl, rfl⟩ := Prod.mk.inj (Except.ok.inj hstep)
    exact ⟨_, _, rfl, { h with fontPaletteValues := h.fontPaletteValues.put _ rfl }, hctx⟩
  | dropFontPaletteValues name =>
    obtain ⟨rfl, rfl⟩ := Prod.mk.inj (Except.ok.inj hstep)
    exact ⟨_, _, rfl, { h with fontPaletteValues := h.fontPaletteValues.erase _ }, hctx⟩
  | createStartingStyle selector ds =>
    obtain ⟨rfl, rfl⟩ := Prod.mk.inj (Except.ok.inj hstep)
    have hrefs := h.referenceSelector ctx ctx' (.text selector)
    exact ⟨_, _, rfl, { hrefs with startingStyles := hrefs.startingStyles.put _ rfl },
      hctx.tickIf _ _⟩
  | dropStartingStyle selector =>
    obtain ⟨rfl, rfl⟩ := Prod.mk.inj (Except.ok.inj hstep)
    exact ⟨_, _, rfl, { h with startingStyles := h.startingStyles.erase _ }, hctx⟩
  | selectStyles selector condition | describeSelector name | begin | commit | rollback =>
    obtain ⟨rfl, rfl⟩ := Prod.mk.inj (Except.ok.inj hstep)
    exact ⟨_, _, rfl, h, hctx⟩

/-- A file of statements that is accepted on one side is accepted on the other, and leads to
matching cascades. -/
theorem build (h : Matches a b) {stmts : List Statement} {ctx ctx' : Context}
    (hctx : ctx.Matches ctx') {a' : Cascade} (hbuild : Cascade.build ctx a stmts = .ok a') :
    ∃ b', Cascade.build ctx' b stmts = .ok b' ∧ Matches a' b' := by
  induction stmts generalizing ctx ctx' a b with
  | nil =>
    obtain rfl : a = a' := Except.ok.inj hbuild
    exact ⟨b, rfl, h⟩
  | cons stmt stmts ih =>
    obtain ⟨next, u, hstep, hrest⟩ := exists_of_build_cons hbuild
    obtain ⟨next', v, hstep', hmatch, hnext⟩ := h.step hctx hstep
    obtain ⟨b', hb', hfinal⟩ := ih hmatch hnext hrest
    refine ⟨b', ?_, hfinal⟩
    rw [build_cons_of_step hstep', hb']

end Cascade.Matches

end StyleLedger
