import StyleLedger.Proofs.Cascade.Growth
import StyleLedger.Proofs.Cascade.Sound

/-!
What holds of a cascade wherever its buckets come from.

A reload may merge buckets, change their wrappers and take one name for another, so a cascade that
is read back from its rows need not be coherent. Everything beside the buckets does not depend on
them: a statement does to it what it does where there are no buckets (`step_withBuckets`), so it
stays coherent. Of the keys of the buckets it is enough for most purposes that they hold texts.

* `Cascade.withBuckets` — the cascade with other buckets.
* `BucketKey.IsWordy` — a key of texts.
* `Cascade.IsSettled` — the invariant.
-/

namespace StyleLedger

open Outcome

/-! ## 1. The invariant -/

/-- The selector of a bucket is named by a text, and so are its layer and its scope if there are
any. -/
structure BucketKey.IsWordy (k : BucketKey) : Prop where
  selector : k.selector.IsString
  layer : k.layer.IsWord
  scopeRoot : k.scopeRoot.IsWord
  scopeLimit : k.scopeLimit.IsWord

theorem BucketKey.IsKnown.isWordy {selectors layers : List Json} {k : BucketKey}
    (h : k.IsKnown selectors layers) : k.IsWordy := by
  have hword : ∀ {keys : List Json} {v : Json}, v = .null ∨ v.RefersTo keys → v.IsWord :=
    fun h => h.imp_right (·.isString)
  exact ⟨h.selector.isString, hword h.layer, hword h.scopeRoot, hword h.scopeLimit⟩

theorem Cascade.isWordy_of_mem_keysOf {layer : Option String} {target : StyleTarget}
    {wrappers : List (Option Descriptor)} :
    ∀ k ∈ keysOf layer target wrappers, k.IsWordy := by
  intro k hk
  obtain ⟨d, -, rfl⟩ := List.mem_map.1 hk
  exact ⟨Json.isString_text _, Json.isWord_textOrNull _, Json.isWord_textOrNull _,
    Json.isWord_textOrNull _⟩

namespace Cascade

/-- The cascade with other buckets. -/
def withBuckets (s : Cascade) (index : BucketIndex) : Cascade :=
  { s with buckets := index }

/-- Everything but the buckets is coherent, and the keys of the buckets hold texts. -/
structure IsSettled (s : Cascade) : Prop where
  rest : (s.withBuckets {}).IsCoherent fun _ => True
  keys : ∀ k ∈ s.buckets.buckets.keys, k.IsWordy

theorem isSettled_empty : IsSettled {} :=
  ⟨isCoherent_empty, by simp [Table.keys]⟩

theorem IsCoherent.rest {D : Option Descriptor → Prop} {s : Cascade} (h : s.IsCoherent D) :
    (s.withBuckets {}).IsCoherent fun _ => True :=
  { h with buckets := BucketIndex.isCoherent_empty }

theorem IsCoherent.isSettled {D : Option Descriptor → Prop} {s : Cascade} (h : s.IsCoherent D) :
    s.IsSettled := by
  refine ⟨h.rest, fun k hk => ?_⟩
  obtain ⟨e, he, rfl⟩ := List.mem_map.1 hk
  exact (h.buckets.all e he).1.1.isWordy

end Cascade

namespace Cascade

/-! ## 2. What a statement does beside the buckets -/

section Frame

variable {s t : Cascade} {ctx ctx' : Context} (index : BucketIndex)

theorem deleteToken_withBuckets (s : Cascade) (ctx : Context) (name : Json) :
    (s.withBuckets index).deleteToken ctx name = (s.deleteToken ctx name).withBuckets index := by
  simp only [deleteToken, withBuckets]
  split
  · split <;> rfl
  · rfl

theorem deleteSelector_withBuckets (s : Cascade) (ctx : Context) (name : Json) :
    (s.withBuckets index).deleteSelector ctx name =
      (s.deleteSelector ctx name).withBuckets index := by
  simp only [deleteSelector, withBuckets]
  split
  · split <;> rfl
  · rfl

theorem referenceSelector_withBuckets (s : Cascade) (ctx : Context) (name : Json) :
    (s.withBuckets index).referenceSelector ctx name =
      (s.referenceSelector ctx name).withBuckets index := by
  cases h : s.selectors.contains name with
  | true => simp [referenceSelector, withBuckets, h]
  | false => simp [referenceSelector, withBuckets, h]

theorem mention_withBuckets (p : Context × Cascade) (name : String) :
    mention (p.1, p.2.withBuckets index) name =
      ((mention p name).1, (mention p name).2.withBuckets index) := by
  simp only [mention, referenceSelector_withBuckets]
  rfl

theorem mentions_withBuckets (names : List String) (p : Context × Cascade) :
    names.foldl mention (p.1, p.2.withBuckets index) =
      ((names.foldl mention p).1, (names.foldl mention p).2.withBuckets index) := by
  induction names generalizing p with
  | nil => rfl
  | cons name names ih =>
    rw [List.foldl_cons, mention_withBuckets, ih]
    rfl

theorem writeStyle_withBuckets {target : StyleTarget} {mode : WriteMode} {ds : List Declaration}
    (h : s.writeStyle ctx target mode ds = .ok (ctx', t)) :
    ∃ index', (s.withBuckets index).writeStyle ctx target mode ds =
      .ok (ctx', t.withBuckets index') := by
  simp only [writeStyle, bind_eq_ok, pure_eq_ok, Prod.mk.injEq] at h
  obtain ⟨wrappers, hwrappers, rfl, rfl⟩ := h
  have hmentions := mentions_withBuckets index (selectorsOf target) (ctx, s)
  simp only [writeStyle, hwrappers, hmentions]
  exact ⟨_, rfl⟩

/-- A statement does to everything beside the buckets what it does where the buckets are others. -/
theorem step_withBuckets {stmt : Statement} (h : step ctx s stmt = .ok (ctx', t)) :
    ∃ index', step ctx (s.withBuckets index) stmt = .ok (ctx', t.withBuckets index') := by
  cases stmt with
  | createStyle target ds | alterStyle target mode ds => exact writeStyle_withBuckets index h
  | dropToken name | deleteToken name =>
    obtain ⟨rfl, rfl⟩ := Prod.mk.inj (Except.ok.inj h)
    exact ⟨index, by rw [step, deleteToken_withBuckets]; rfl⟩
  | dropSelector name =>
    obtain ⟨rfl, rfl⟩ := Prod.mk.inj (Except.ok.inj h)
    exact ⟨index, by rw [step, deleteSelector_withBuckets]; rfl⟩
  | createStartingStyle selector ds =>
    obtain ⟨rfl, rfl⟩ := Prod.mk.inj (Except.ok.inj h)
    have hmention := mention_withBuckets index (ctx, s) selector
    exact ⟨index, by rw [step, hmention]; rfl⟩
  | _ =>
    obtain ⟨rfl, rfl⟩ := Prod.mk.inj (Except.ok.inj h)
    exact ⟨_, rfl⟩

end Frame

end Cascade

/-! ## 3. Keys of written buckets -/

namespace BucketIndex

variable {index : BucketIndex} {k l : BucketKey}

theorem mem_keys_putTouched {properties : Table Json StyleProperty}
    (h : l ∈ (index.putTouched k properties).buckets.keys) : l ∈ index.buckets.keys ∨ l = k := by
  rw [putTouched, Table.keys_put] at h
  split at h
  · exact .inl h
  · simpa using h

theorem mem_keys_writeOne {ctx : Context} {mode : WriteMode} {d : Declaration}
    (h : l ∈ (Cascade.writeOne ctx mode k index d).buckets.keys) :
    l ∈ index.buckets.keys ∨ l = k := by
  cases mode with
  | set => exact mem_keys_putTouched h
  | add =>
    simp only [Cascade.writeOne, add] at h
    split at h
    · exact mem_keys_putTouched h
    · exact mem_keys_putTouched h

theorem mem_keys_writeAll {ctx : Context} {mode : WriteMode} {ds : List Declaration}
    (h : l ∈ (Cascade.writeAll ctx mode ds index k).buckets.keys) :
    l ∈ index.buckets.keys ∨ l = k := by
  unfold Cascade.writeAll at h
  split at h
  · unfold touch at h
    split at h
    · exact mem_keys_putTouched h
    · exact .inl h
  · clear * - h
    induction ds generalizing index with
    | nil => exact .inl h
    | cons d ds ih =>
      rcases ih h with h | h
      · exact mem_keys_writeOne h
      · exact .inr h

/-- Buckets that are written stand under the keys that were there and those that are addressed. -/
theorem mem_keys_writeKeys {ctx : Context} {mode : WriteMode} {ds : List Declaration}
    {keys : List BucketKey}
    (h : l ∈ (keys.foldl (Cascade.writeAll ctx mode ds) index).buckets.keys) :
    l ∈ index.buckets.keys ∨ l ∈ keys := by
  induction keys generalizing index with
  | nil => exact .inl h
  | cons k keys ih =>
    rw [List.mem_cons]
    rcases ih h with h | h
    · rcases mem_keys_writeAll h with h | h
      · exact .inl h
      · exact .inr (.inl h)
    · exact .inr (.inr h)

theorem keys_drop_subset (index : BucketIndex) (selector layer : Json) :
    (index.drop selector layer).1.buckets.keys ⊆ index.buckets.keys :=
  (List.filter_sublist.map _).subset

theorem keys_delete_subset (index : BucketIndex) (selector layer : Json) (name : Option Json) :
    (index.delete selector layer name).1.buckets.keys ⊆ index.buckets.keys := by
  rcases delete_cases index selector layer name with heq | ⟨k, b, left, hrecent, -, heq⟩
  · rw [heq]
    exact List.Subset.refl _
  · rw [heq]
    have hmem : (k, b) ∈ index.buckets.entries := (mostRecent?_eq_some hrecent).1
    split
    · exact (List.filter_sublist.map _).subset
    · rw [Table.keys_put, if_pos (Table.isSome_get?_iff.2 ⟨_, hmem, rfl⟩)]
      exact List.Subset.refl _

end BucketIndex

/-! ## 4. Statements -/

namespace Cascade.IsSettled

variable {s t : Cascade} {ctx ctx' : Context}

/-- One statement keeps a cascade settled, and the layer that is written to known. -/
theorem step (h : s.IsSettled) (hctx : ctx.IsKnown s.layers.entries.keys) {stmt : Statement}
    (hplain : stmt.IsPlain) (hstep : Cascade.step ctx s stmt = .ok (ctx', t)) :
    t.IsSettled ∧ ctx'.IsKnown t.layers.entries.keys := by
  obtain ⟨index, hbeside⟩ := step_withBuckets {} hstep
  obtain ⟨hrest, hctx'⟩ := h.rest.step hctx hplain (fun _ _ => trivial) hbeside
  refine ⟨⟨hrest.rest, fun k hk => ?_⟩, hctx'⟩
  rcases (buckets_of_step hstep).2 with heq | ⟨target, mode, ds, wrappers, -, -, heq⟩ |
    ⟨selector, layer, name, heq⟩ | ⟨selector, layer, heq⟩
  · exact h.keys k (heq ▸ hk)
  · rw [heq] at hk
    rcases BucketIndex.mem_keys_writeKeys hk with hk | hk
    · exact h.keys k hk
    · exact isWordy_of_mem_keysOf k hk
  · exact h.keys k (BucketIndex.keys_delete_subset _ _ _ _ (heq ▸ hk))
  · exact h.keys k (BucketIndex.keys_drop_subset _ _ _ (heq ▸ hk))

end Cascade.IsSettled

end StyleLedger
