import StyleLedger.Proofs.Cascade.Settled
import StyleLedger.Proofs.Store.Regrouped

/-!
Buckets refer to what is known, also after reloads.

A reload may merge buckets and change their wrappers, so a cascade that is read back from its rows
need not be coherent. But it leaves everything beside the buckets as it was
(`eq_withBuckets_of_reload`), which therefore stays coherent, and of the buckets only the selectors
and layers that their keys name have to be followed. References go by identifier, so this needs
that the identifiers of the names in use are distinct; as no name is ever lost, it is enough that
they are so in the end (`IsReachable.isAnchored`).

* `Cascade.IsAnchored` — the invariant.
-/

namespace StyleLedger

open Outcome Identity

/-! ## 1. The invariant -/

/-- The selector, the layer and the scope of a bucket are known, whatever its wrapper is. -/
def BucketKey.IsAnchored (selectors layers : List Json) (k : BucketKey) : Prop :=
  ({ k with descriptor := none } : BucketKey).IsKnown selectors layers

theorem BucketKey.IsKnown.isAnchored {selectors layers : List Json} {k : BucketKey}
    (h : k.IsKnown selectors layers) : k.IsAnchored selectors layers :=
  { h with descriptor := by simp [Descriptor.IsWritten] }

namespace Cascade

/-- Everything but the buckets is coherent, and the keys of the buckets refer to what is known. -/
structure IsAnchored (s : Cascade) : Prop where
  rest : (s.withBuckets {}).IsCoherent fun _ => True
  keys : ∀ k ∈ s.buckets.buckets.keys, k.IsAnchored s.selectors.keys s.layers.entries.keys

theorem isAnchored_empty : IsAnchored {} :=
  ⟨isCoherent_empty, by simp [Table.keys]⟩

theorem IsCoherent.isAnchored {D : Option Descriptor → Prop} {s : Cascade} (h : s.IsCoherent D) :
    s.IsAnchored := by
  refine ⟨h.rest, fun k hk => ?_⟩
  obtain ⟨e, he, rfl⟩ := List.mem_map.1 hk
  exact (h.buckets.all e he).1.1.isAnchored

end Cascade

/-! ## 2. Statements -/

namespace Cascade.IsAnchored

variable {s t : Cascade} {ctx ctx' : Context}

/-- The selectors that a style names are known once it is written. -/
theorem mem_selectors_of_writeStyle (h : s.IsAnchored) (hctx : ctx.IsKnown s.layers.entries.keys)
    {target : StyleTarget} {mode : WriteMode} {ds : List Declaration}
    (hwrite : s.writeStyle ctx target mode ds = .ok (ctx', t)) :
    ∀ n ∈ selectorsOf target, .text n ∈ t.selectors.keys := by
  simp only [Cascade.writeStyle, bind_eq_ok, pure_eq_ok, Prod.mk.injEq] at hwrite
  obtain ⟨wrappers, -, rfl, rfl⟩ := hwrite
  have hmentions := mentions_withBuckets {} (selectorsOf target) (ctx, s)
  obtain ⟨-, hkeys, -⟩ := h.rest.mentions hctx hmentions
  exact fun n hn => hkeys _ (List.mem_append_right _ (List.mem_map_of_mem hn))

/-- One statement keeps the buckets anchored, and the layer that is written to known. -/
theorem step (h : s.IsAnchored) (hctx : ctx.IsKnown s.layers.entries.keys) {stmt : Statement}
    (hplain : stmt.IsPlain) (hstep : Cascade.step ctx s stmt = .ok (ctx', t)) :
    t.IsAnchored ∧ ctx'.IsKnown t.layers.entries.keys := by
  obtain ⟨index, hbeside⟩ := step_withBuckets {} hstep
  obtain ⟨hrest, hctx'⟩ := h.rest.step hctx hplain (fun _ _ => trivial) hbeside
  have hgrows := grows_step hstep
  have hold : ∀ k ∈ s.buckets.buckets.keys, k.IsAnchored t.selectors.keys t.layers.entries.keys :=
    fun k hk => (h.keys k hk).mono hgrows.selectors hgrows.layers
  refine ⟨⟨hrest.rest, ?_⟩, hctx'⟩
  intro k hk
  rcases (buckets_of_step hstep).2 with heq | ⟨target, mode, ds, wrappers, hstmt, hwrappers, heq⟩ |
    ⟨selector, layer, name, heq⟩ | ⟨selector, layer, heq⟩
  · exact hold k (heq ▸ hk)
  · rw [heq] at hk
    have htarget : target.IsPlain := by
      rcases hstmt with rfl | rfl
      · exact hplain
      · exact hplain
    have hselectors : ∀ n ∈ selectorsOf target, .text n ∈ t.selectors.keys := by
      rcases hstmt with rfl | rfl
      · exact h.mem_selectors_of_writeStyle hctx hstep
      · exact h.mem_selectors_of_writeStyle hctx hstep
    have hlayer : ctx.IsKnown t.layers.entries.keys :=
      fun n hn => ⟨(hctx n hn).1, hgrows.layers (hctx n hn).2⟩
    rcases BucketIndex.mem_keys_writeKeys hk with hk | hk
    · exact hold k hk
    · exact (keysOf_isKnown hlayer htarget hselectors
        (isWritten_of_ofCondition htarget.condition hwrappers) k hk).isAnchored
  · exact hold k (BucketIndex.keys_delete_subset _ _ _ _ (heq ▸ hk))
  · exact hold k (BucketIndex.keys_drop_subset _ _ _ (heq ▸ hk))

end Cascade.IsAnchored

/-! ## 3. Reloads -/

namespace Snapshot

/-- The rows of styles show in nothing but the buckets. -/
theorem toCascade_withoutStyles {s : Snapshot} {c : Cascade} (h : s.toCascade = .ok c) :
    ({ s with styles := [] } : Snapshot).toCascade = .ok (c.withBuckets {}) := by
  simp only [toCascade, bind_eq_ok, pure_eq_ok] at h ⊢
  obtain ⟨tokens, htokens, selectors, hselectors, layers, hlayers, -, -, properties, hproperties,
    fontFaces, hfaces, keyframes, hkeyframes, raw, hraw, imports, himports, pages, hpages, counter,
    hcounter, feature, hfeature, palette, hpalette, starting, hstarting, rfl⟩ := h
  exact ⟨tokens, htokens, selectors, hselectors, layers, hlayers, {}, rfl, properties, hproperties,
    fontFaces, hfaces, keyframes, hkeyframes, raw, hraw, imports, himports, pages, hpages, counter,
    hcounter, feature, hfeature, palette, hpalette, starting, hstarting, rfl⟩

/-- The rows of a bucket are read into one with the same selector, layer and scope. -/
theorem Rekeys.isAnchored {S L : Table Json Json} {selectors layers : List Json}
    (hS : ∀ n ∈ selectors, S.get? (idCell .selector n) = some n)
    (hL : ∀ n ∈ layers, L.get? (idCell .layer n) = some n) {k l : BucketKey}
    (hk : k.IsAnchored selectors layers) (h : Rekeys S L k l) :
    l.IsAnchored selectors layers := by
  obtain ⟨hselector, hlayer, hroot, hlimit, -, -⟩ := keyCells_styleRow k .null .null default
  obtain ⟨selector, hname, -, hkey⟩ := h
  rw [hselector, nameAt?_idCell, hS _ hk.selector.1] at hname
  obtain rfl := Option.some.inj (Except.ok.inj hname)
  simp only [keyOf, hlayer, hroot, hlimit, bind_eq_ok, pure_eq_ok, nameOf_reference hL hk.layer,
    nameOf_reference hS hk.scopeRoot, nameOf_reference hS hk.scopeLimit] at hkey
  obtain ⟨layer, hlayer, root, hroot, limit, hlimit, -, -, rfl⟩ := hkey
  obtain rfl := Except.ok.inj hlayer
  obtain rfl := Except.ok.inj hroot
  obtain rfl := Except.ok.inj hlimit
  exact hk

end Snapshot

namespace Cascade.IsAnchored

open Snapshot

variable {s t : Cascade} {log : List LogEntry}

/-- A reload leaves everything beside the buckets as it was. -/
theorem eq_withBuckets_of_reload (h : s.IsAnchored)
    (hselectors : Separates .selector s.selectors.keys)
    (hlayers : Separates .layer s.layers.entries.keys)
    (hreload : (ofCascade s log).toCascade = .ok t) : t = s.withBuckets t.buckets := by
  have hback : (ofCascade (s.withBuckets {}) log).toCascade = .ok (s.withBuckets {}) :=
    toCascade_ofCascade h.rest (by simp [Cascade.withBuckets, Table.keys]) hselectors hlayers log
  have hbeside : (ofCascade (s.withBuckets {}) log).toCascade = .ok (t.withBuckets {}) :=
    toCascade_withoutStyles hreload
  have heq : t.withBuckets {} = s.withBuckets {} := Except.ok.inj (hbeside.symm.trans hback)
  exact congrArg (fun c => c.withBuckets t.buckets) heq

theorem reload (h : s.IsAnchored) (hselectors : Separates .selector s.selectors.keys)
    (hlayers : Separates .layer s.layers.entries.keys)
    (hreload : (ofCascade s log).toCascade = .ok t) : t.IsAnchored := by
  obtain ⟨hregroups, -⟩ := regroups_of_bucketIndex (bucketIndex_of_toCascade hreload)
  rw [h.eq_withBuckets_of_reload hselectors hlayers hreload]
  refine ⟨h.rest, fun k hk => ?_⟩
  obtain ⟨d, hd, hrekeys⟩ := hregroups.keys k hk
  exact hrekeys.isAnchored (fun n => get?_selectorNames h.rest log hselectors)
    (fun n => get?_layerNames h.rest log hlayers) (h.keys d.1 (Table.mem_keys_of_mem hd))

end Cascade.IsAnchored

/-! ## 4. Names that are there after a reload -/

theorem Table.isSome_get?_putRow {κ α : Type} [DecidableEq κ] [Keyed κ] (t : Table κ α)
    (e : κ × α) (k : κ) : ((Snapshot.putRow t e).get? k).isSome ↔
      Keyed.key k = Keyed.key e.1 ∨ (t.get? k).isSome := by
  have hrespell : ((Snapshot.putRow t e).get? k).isSome ↔ ((t.put e.1 e.2).get? k).isSome := by
    simp only [isSome_get?_iff, Snapshot.putRow, respell, List.mem_map, exists_exists_and_eq_and]
    refine exists_congr fun d => and_congr_right fun _ => ?_
    split
    · next hd => rw [hd]
    · rfl
  rw [hrespell, get?_put]
  by_cases hk : Keyed.key k = Keyed.key e.1 <;> simp [hk]

namespace Snapshot

/-- A table that is written row by row has the key of every row. -/
theorem isSome_get?_of_fill {κ α : Type} [DecidableEq κ] [Keyed κ] {rows : List Row}
    {entry : Row → Except ShapeError (κ × α)} {t : Table κ α} (h : fill rows entry = .ok t)
    {r : Row} (hr : r ∈ rows) {k : κ} (hk : ∀ e, entry r = .ok e → e.1 = k) :
    (t.get? k).isSome := by
  simp only [fill, bind_eq_ok, pure_eq_ok] at h
  obtain ⟨es, hes, rfl⟩ := h
  have hmem : ∃ e ∈ es, e.1 = k := by
    have hboth := mapM_forall₂ hes
    clear hes
    induction hboth with
    | nil => simp at hr
    | cons he _ ih =>
      rcases List.mem_cons.1 hr with rfl | hr
      · exact ⟨_, List.mem_cons_self, hk _ he⟩
      · obtain ⟨e, hmem, heq⟩ := ih hr
        exact ⟨e, List.mem_cons_of_mem _ hmem, heq⟩
  obtain ⟨e, he, rfl⟩ := hmem
  have hfold : ∀ (ds : List (κ × α)) (u : Table κ α), e ∈ ds ∨ (u.get? e.1).isSome →
      ((ds.foldl putRow u).get? e.1).isSome := by
    intro ds
    induction ds with
    | nil =>
      rintro u (he | hu)
      · simp at he
      · exact hu
    | cons d ds ih =>
      intro u hor
      refine ih _ ?_
      rw [Table.isSome_get?_putRow]
      rcases hor with he | hu
      · rcases List.mem_cons.1 he with rfl | he
        · exact .inr (.inl rfl)
        · exact .inl he
      · exact .inr (.inr hu)
  exact hfold es {} (.inl he)

/-- The names of a table are there again after its rows have been read. -/
theorem keys_subset_of_fill {α β : Type} {V : α → Prop} {W : β → Prop} {t : Table Json α}
    {u : Table Json β} (ht : t.HasTextKeys V) (hu : u.HasTextKeys W) {row : Json × α → Row}
    {entry : Row → Except ShapeError (Json × β)} (h : fill (t.entries.map row) entry = .ok u)
    (hentry : ∀ e d, entry (row e) = .ok d → d.1 = e.1) : t.keys ⊆ u.keys := by
  intro n hn
  obtain ⟨e, he, rfl⟩ := List.mem_map.1 hn
  have hsome := isSome_get?_of_fill h (List.mem_map_of_mem he) (hentry e)
  obtain ⟨d, hd, hkey⟩ := Table.isSome_get?_iff.1 hsome
  change d.1.key = e.1.key at hkey
  rw [(hu d hd).1.isWord.key_eq, (ht e he).1.isWord.key_eq] at hkey
  exact hkey ▸ Table.mem_keys_of_mem hd

end Snapshot

namespace Cascade

open Snapshot

variable {s t : Cascade} {log : List LogEntry}

theorem IsTyped.reload (h : s.IsTyped) (hreload : (ofCascade s log).toCascade = .ok t) :
    t.IsTyped :=
  (fits_ofCascade h log).isTyped hreload

/-- No selector and no layer is lost in a reload, not even if their identifiers are not distinct. -/
theorem IsTyped.grows_reload (h : s.IsTyped) (hreload : (ofCascade s log).toCascade = .ok t) :
    s.Grows t := by
  have ht := h.reload hreload
  simp only [toCascade, bind_eq_ok, pure_eq_ok] at hreload
  obtain ⟨_, -, selectors, hselectors, layers, hlayers, _, -, _, -, _, -, _, -, _, -, _, -, _, -, _,
    -, _, -, _, -, _, -, rfl⟩ := hreload
  simp only [layerRegistry, bind_eq_ok, pure_eq_ok] at hlayers
  obtain ⟨entries, hentries, _, -, rfl⟩ := hlayers
  constructor
  · refine keys_subset_of_fill h.selectors ht.selectors hselectors fun e d hd => ?_
    simp only [selectorEntry, bind_eq_ok, pure_eq_ok] at hd
    obtain ⟨-, -, -, -, name, hname, rfl⟩ := hd
    exact (eq_of_keyCell hname).symm
  · refine keys_subset_of_fill h.layers ht.layers hentries fun e d hd => ?_
    simp only [bind_eq_ok, pure_eq_ok] at hd
    obtain ⟨-, -, name, hname, rfl⟩ := hd
    exact (eq_of_keyCell hname).symm.trans (get_layerRow s.layers e.1 e.2).1

/-! ## 5. Statements and reloads -/

namespace IsReachable

variable {migrations : List String} {ctx : Context}

theorem isTyped (h : IsReachable migrations ctx s) : s.IsTyped := by
  induction h with
  | start => exact isTyped_empty
  | file _ _ _ ih => exact ih
  | statement _ hparsed hstep ih => exact ih.step hparsed.isPlain hstep
  | reload _ hreload ih => exact ih.reload hreload

/-- As long as the identifiers of all selectors and of all layers are distinct, every bucket refers
to selectors and layers that are known. -/
theorem isAnchored (h : IsReachable migrations ctx s)
    (hselectors : Separates .selector s.selectors.keys)
    (hlayers : Separates .layer s.layers.entries.keys) :
    s.IsAnchored ∧ ctx.IsKnown s.layers.entries.keys := by
  induction h with
  | start o => exact ⟨isAnchored_empty, o.isKnown_context _⟩
  | file _ o _ ih => exact ⟨(ih hselectors hlayers).1, o.isKnown_context _⟩
  | statement _ hparsed hstep ih =>
    have hgrows := grows_step hstep
    obtain ⟨hs, hctx⟩ := ih (hselectors.subset hgrows.selectors) (hlayers.subset hgrows.layers)
    exact hs.step hctx hparsed.isPlain hstep
  | reload hprevious hreload ih =>
    have hgrows := hprevious.isTyped.grows_reload hreload
    have hselectors := hselectors.subset hgrows.selectors
    have hlayers := hlayers.subset hgrows.layers
    obtain ⟨hs, hctx⟩ := ih hselectors hlayers
    exact ⟨hs.reload hselectors hlayers hreload,
      fun n hn => ⟨(hctx n hn).1, hgrows.layers (hctx n hn).2⟩⟩

end IsReachable

end Cascade

end StyleLedger
