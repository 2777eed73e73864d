import StyleLedger.Proofs.Cascade.Buckets
import StyleLedger.Proofs.Store.Blobs

/-!
What every cascade keeps that plain statements write to.

A cascade is *coherent* when its tables are addressed by texts, its buckets refer to selectors and
layers that are known, its declared layers are known and distinct, its raw blocks and imports are
numbered from zero in their order, and its at-rules hold plain declarations. One statement keeps
this (`IsCoherent.step`), so a run of any length does (`IsCoherent.run`). `D` is any property that
the descriptors of the statements have; the wrappers of all buckets have it too.

* `BucketKey.IsKnown` — what the key of a bucket refers to is there.
* `Cascade.IsCoherent` — the invariant.
* `Context.IsKnown` — the layer that is written to is there.
-/

namespace StyleLedger

open Outcome

/-! ## 1. The invariant -/

/-- A text that is not empty and is among some keys. -/
def Json.RefersTo (keys : List Json) (v : Json) : Prop :=
  v ∈ keys ∧ ∃ n, n ≠ "" ∧ v = .text n

theorem Json.RefersTo.mono {keys keys' : List Json} (hsub : keys ⊆ keys') {v : Json}
    (h : v.RefersTo keys) : v.RefersTo keys' :=
  ⟨hsub h.1, h.2⟩

theorem Json.RefersTo.isString {keys : List Json} {v : Json} (h : v.RefersTo keys) :
    v.IsString := by
  obtain ⟨-, n, -, rfl⟩ := h
  exact ⟨n, rfl⟩

/-- A wrapper that a plain condition addresses, or none. -/
def Descriptor.IsWritten (d : Option Descriptor) : Prop :=
  ∀ x ∈ d, x.IsMerged ∧ x.IsWordy

/-- The selector, the layer and the scope of a bucket are known, a layer and a scope only if there
is one. -/
structure BucketKey.IsKnown (selectors layers : List Json) (k : BucketKey) : Prop where
  selector : k.selector.RefersTo selectors
  layer : k.layer = .null ∨ k.layer.RefersTo layers
  scopeRoot : k.scopeRoot = .null ∨ k.scopeRoot.RefersTo selectors
  scopeLimit : k.scopeLimit = .null ∨ k.scopeLimit.RefersTo selectors
  descriptor : Descriptor.IsWritten k.descriptor

/-- Every layer is named by a text, and the declared layers are distinct and known. -/
structure LayerRegistry.IsCoherent (r : LayerRegistry) : Prop where
  entries : r.entries.IsNamed fun _ => True
  declared : r.declared.Nodup
  known : ∀ n ∈ r.declared, n ∈ r.entries.keys

/-- Every declaration of an at-rule is plain. -/
def RuleBlock.IsPlain (b : RuleBlock) : Prop :=
  ∀ d ∈ b.declarations, d.IsPlain

/-- A font face stands under its own key, and its declarations are plain. -/
def FontFace.IsPlainAt (key : String) (f : FontFace) : Prop :=
  key = Identity.fontFaceKey f.family f.src ∧ ∀ d ∈ f.declarations, d.IsPlain

/-- Everything in a cascade is named, known and plain, and every wrapper has a property. -/
structure Cascade.IsCoherent (D : Option Descriptor → Prop) (s : Cascade) : Prop where
  tokens : s.tokens.IsNamed fun _ => True
  selectors : s.selectors.IsNamed fun e => ∀ d ∈ e.definition, d.IsPlain
  layers : s.layers.IsCoherent
  buckets : s.buckets.IsCoherent fun k =>
    k.IsKnown s.selectors.keys s.layers.entries.keys ∧ D k.descriptor
  properties : s.properties.IsNamed fun _ => True
  fontFaces : s.fontFaces.IsCanonical ∧ s.fontFaces.All FontFace.IsPlainAt
  keyframes : s.keyframes.IsNamed fun a => ∀ f ∈ a.frames, f.IsPlain
  pages : s.pages.IsNamed RuleBlock.IsPlain
  counterStyles : s.counterStyles.IsNamed RuleBlock.IsPlain
  fontFeatureValues : s.fontFeatureValues.IsNamed RuleBlock.IsPlain
  fontPaletteValues : s.fontPaletteValues.IsNamed RuleBlock.IsPlain
  startingStyles : s.startingStyles.IsNamed RuleBlock.IsPlain
  starting : s.startingStyles.keys ⊆ s.selectors.keys
  raw : ∀ (i : Nat) r, s.raw[i]? = some r → r.sequence = .int i
  imports : ∀ (i : Nat) r, s.imports[i]? = some r → r.sequence = .int i

/-- The layer that is written to, if there is one, is known. -/
def Context.IsKnown (layers : List Json) (ctx : Context) : Prop :=
  ∀ n ∈ ctx.activeLayer, n ≠ "" ∧ .text n ∈ layers

/-- Where and when a file of statements is applied. -/
structure Occasion where
  migrationId : String := adhocMigration
  originFile : Option String := none
  now : String := ""
  later : List String := []
deriving Repr, DecidableEq, Inhabited

/-- The context in which a file starts: no layer and no spacing mode is set. -/
def Occasion.context (o : Occasion) : Context :=
  { migrationId := o.migrationId, originFile := o.originFile, now := o.now, later := o.later }

theorem Occasion.isKnown_context (o : Occasion) (layers : List Json) :
    o.context.IsKnown layers := by
  simp [Context.IsKnown, Occasion.context]

/-- The wrappers of the buckets that a statement writes to. -/
def Statement.wrappers : Statement → List (Option Descriptor)
  | .createStyle target _ | .alterStyle target _ _ =>
    (Descriptor.ofCondition target.condition).toOption.getD []
  | _ => []

/-- Every wrapper that a statement writes to has a property. -/
def Statement.Writes (D : Option Descriptor → Prop) (stmt : Statement) : Prop :=
  ∀ d ∈ stmt.wrappers, D d

instance {D : Option Descriptor → Prop} [DecidablePred D] (stmt : Statement) :
    Decidable (stmt.Writes D) :=
  inferInstanceAs (Decidable (∀ d ∈ stmt.wrappers, D d))

/-! ## 2. Readings of the clock -/

namespace Context

variable {ctx : Context}

@[simp] theorem activeLayer_tick (ctx : Context) : ctx.tick.activeLayer = ctx.activeLayer := by
  unfold tick
  split <;> rfl

@[simp] theorem spacingMode_tick (ctx : Context) : ctx.tick.spacingMode = ctx.spacingMode := by
  unfold tick
  split <;> rfl

@[simp] theorem activeLayer_tickIf (ctx : Context) (read : Bool) :
    (ctx.tickIf read).activeLayer = ctx.activeLayer := by
  cases read <;> simp [tickIf]

@[simp] theorem spacingMode_tickIf (ctx : Context) (read : Bool) :
    (ctx.tickIf read).spacingMode = ctx.spacingMode := by
  cases read <;> simp [tickIf]

theorem IsKnown.tick {layers : List Json} (h : ctx.IsKnown layers) : ctx.tick.IsKnown layers := by
  simpa [IsKnown] using h

theorem IsKnown.tickIf {layers : List Json} (h : ctx.IsKnown layers) (read : Bool) :
    (ctx.tickIf read).IsKnown layers := by
  simpa [IsKnown] using h

end Context

/-! ## 3. Keys of buckets -/

theorem DescriptorKind.ofCell_cell_key {d : Descriptor} (h : d.IsMerged) :
    DescriptorKind.ofCell d.kind.cell.key = d.kind := by
  cases h <;> simp [DescriptorKind.cell, DescriptorKind.ofCell, Json.key]

theorem Descriptor.IsWritten.key_eq {d : Option Descriptor} (h : IsWritten d) :
    Keyed.key d = d := by
  cases d with
  | none => rfl
  | some d =>
    obtain ⟨hmerged, hwordy⟩ := h d rfl
    have hd : d.key = d := by
      unfold Descriptor.key
      rw [DescriptorKind.ofCell_cell_key hmerged, hwordy.min.key_eq, hwordy.max.key_eq,
        hwordy.axis.key_eq, hwordy.name.key_eq, hwordy.condition.key_eq, hwordy.supports.key_eq]
    exact congrArg some hd

namespace BucketKey.IsKnown

variable {selectors layers : List Json} {k : BucketKey}

theorem key_eq (h : k.IsKnown selectors layers) : Keyed.key k = k := by
  have hword : ∀ {keys : List Json} {v : Json}, v = .null ∨ v.RefersTo keys → v.key = v := by
    rintro keys v (rfl | hv)
    · exact Json.isWord_null.key_eq
    · exact hv.isString.isWord.key_eq
  show BucketKey.key k = k
  unfold BucketKey.key
  rw [h.selector.isString.isWord.key_eq, hword h.layer, hword h.scopeRoot, hword h.scopeLimit,
    h.descriptor.key_eq]

theorem mono {selectors' layers' : List Json} (hs : selectors ⊆ selectors')
    (hl : layers ⊆ layers') (h : k.IsKnown selectors layers) : k.IsKnown selectors' layers' :=
  ⟨h.selector.mono hs, h.layer.imp_right (·.mono hl), h.scopeRoot.imp_right (·.mono hs),
    h.scopeLimit.imp_right (·.mono hs), h.descriptor⟩

end BucketKey.IsKnown

/-! ## 4. Layers -/

namespace LayerRegistry.IsCoherent

variable {r : LayerRegistry}

theorem encounter (h : r.IsCoherent) (name : String) (p : Provenance) :
    (r.encounter (.text name) p).IsCoherent ∧
      r.entries.keys ⊆ (r.encounter (.text name) p).entries.keys ∧
      .text name ∈ (r.encounter (.text name) p).entries.keys := by
  have hname := Json.isString_text name
  unfold LayerRegistry.encounter
  split
  · next hmem =>
    exact ⟨h, List.Subset.refl _, (h.entries.contains_iff hname).1 hmem⟩
  · have hkeys : ∀ {l}, l ∈ (r.entries.put (.text name) p).keys ↔
        l ∈ r.entries.keys ∨ l = .text name := h.entries.mem_keys_put hname p
    exact ⟨⟨h.entries.put hname trivial, h.declared, fun n hn => hkeys.2 (.inl (h.known n hn))⟩,
      fun l hl => hkeys.2 (.inl hl), hkeys.2 (.inr rfl)⟩

theorem isString (h : r.IsCoherent) {n : Json} (hn : n ∈ r.declared) : n.IsString := by
  obtain ⟨e, he, rfl⟩ := List.mem_map.1 (h.known n hn)
  exact (h.entries.all e he).1

/-- Names of declared layers are alike only if they are the same. -/
theorem any_alike_iff (h : r.IsCoherent) (name : String) :
    r.declared.any (Json.text name).alike = true ↔ .text name ∈ r.declared := by
  rw [List.any_eq_true]
  constructor
  · rintro ⟨n, hn, halike⟩
    simp only [Json.alike, decide_eq_true_eq] at halike
    rw [(Json.isWord_text name).key_eq, (h.isString hn).isWord.key_eq] at halike
    rwa [halike]
  · intro hmem
    exact ⟨_, hmem, by simp [Json.alike]⟩

theorem declareOne (h : r.IsCoherent) (name : String) (p : Provenance) :
    (LayerRegistry.declareOne p r (.text name)).IsCoherent ∧
      r.entries.keys ⊆ (LayerRegistry.declareOne p r (.text name)).entries.keys := by
  obtain ⟨hr, hsub, hmem⟩ := h.encounter name p
  simp only [LayerRegistry.declareOne]
  split
  · exact ⟨hr, hsub⟩
  · next hnew =>
    rw [hr.any_alike_iff] at hnew
    refine ⟨⟨hr.entries, ?_, ?_⟩, hsub⟩
    · rw [List.nodup_append]
      refine ⟨hr.declared, by simp, fun a ha b hb => ?_⟩
      rw [List.mem_singleton.1 hb]
      exact fun hab => hnew (hab ▸ ha)
    · intro n hn
      rcases List.mem_append.1 hn with hn | hn
      · exact hr.known n hn
      · rw [List.mem_singleton.1 hn]
        exact hmem

theorem declare (h : r.IsCoherent) (names : List String) (p : Provenance) :
    (r.declare (names.map .text) p).IsCoherent ∧
      r.entries.keys ⊆ (r.declare (names.map .text) p).entries.keys := by
  unfold LayerRegistry.declare
  induction names generalizing r with
  | nil => exact ⟨h, List.Subset.refl _⟩
  | cons name names ih =>
    obtain ⟨hone, hsub⟩ := h.declareOne name p
    obtain ⟨hall, hsub'⟩ := ih hone
    exact ⟨hall, List.Subset.trans hsub hsub'⟩

end LayerRegistry.IsCoherent

/-! ## 5. Tokens and selectors -/

namespace Cascade

variable {D : Option Descriptor → Prop} {s : Cascade}

theorem isCoherent_empty : IsCoherent D {} where
  tokens := Table.isNamed_empty
  selectors := Table.isNamed_empty
  layers := ⟨Table.isNamed_empty, by simp, by simp⟩
  buckets := BucketIndex.isCoherent_empty
  properties := Table.isNamed_empty
  fontFaces := ⟨Table.isCanonical_empty, Table.all_empty _⟩
  keyframes := Table.isNamed_empty
  pages := Table.isNamed_empty
  counterStyles := Table.isNamed_empty
  fontFeatureValues := Table.isNamed_empty
  fontPaletteValues := Table.isNamed_empty
  startingStyles := Table.isNamed_empty
  starting := by simp [Table.keys]
  raw := by simp
  imports := by simp

/-- The keys of the buckets that a plain target addresses are known once its selectors are. -/
theorem keysOf_isKnown {selectors layers : List Json} {ctx : Context} (hctx : ctx.IsKnown layers)
    {target : StyleTarget} (htarget : target.IsPlain)
    (hselectors : ∀ n ∈ selectorsOf target, .text n ∈ selectors)
    {wrappers : List (Option Descriptor)} (hw : ∀ d ∈ wrappers, Descriptor.IsWritten d) :
    ∀ k ∈ keysOf ctx.activeLayer target wrappers, k.IsKnown selectors layers := by
  have hnames : ∀ n ∈ target.selector :: (target.scopeRoot.toList ++ target.scopeLimit.toList),
      n ≠ "" → (Json.text n).RefersTo selectors := fun n hn hne =>
    ⟨hselectors n (List.mem_filter.2 ⟨hn, by simpa using hne⟩), n, hne, rfl⟩
  intro k hk
  obtain ⟨d, hd, rfl⟩ := List.mem_map.1 hk
  refine ⟨hnames _ (by simp) htarget.selector, ?_, ?_, ?_, hw d hd⟩
  · cases hlayer : ctx.activeLayer with
    | none => exact .inl rfl
    | some n =>
      obtain ⟨hne, hmem⟩ := hctx n hlayer
      exact .inr ⟨hmem, n, hne, rfl⟩
  · cases hroot : target.scopeRoot with
    | none => exact .inl rfl
    | some n => exact .inr (hnames n (by simp [hroot]) (htarget.scopeRoot n hroot))
  · cases hlimit : target.scopeLimit with
    | none => exact .inl rfl
    | some n => exact .inr (hnames n (by simp [hlimit]) (htarget.scopeLimit n hlimit))

theorem isWritten_of_ofCondition {c : Option Condition} (hc : ∀ c' ∈ c, c'.IsPlain)
    {ds : List (Option Descriptor)} (h : Descriptor.ofCondition c = .ok ds) :
    ∀ d ∈ ds, Descriptor.IsWritten d := by
  rintro d hd x rfl
  exact ⟨Descriptor.isMerged_of_ofCondition h hd, Descriptor.isWordy_of_ofCondition hc h hd⟩

/-! Declarations in normal form are plain, whatever was written. -/

theorem cleanStored_isPlain (ds : List Declaration) : ∀ d ∈ cleanStored ds, d.IsPlain := by
  intro d hd
  obtain ⟨c, -, rfl⟩ := List.mem_map.1 hd
  exact ⟨Json.isString_text _, Json.isString_text _⟩

theorem ruleBlock_isPlain (ctx : Context) (ds : List Declaration) : (ruleBlock ctx ds).IsPlain :=
  cleanStored_isPlain ds

theorem featureBlock_isPlain (ctx : Context) (ds : List Declaration) :
    (featureBlock ctx ds).IsPlain := by
  intro d hd
  obtain ⟨c, -, rfl⟩ := List.mem_map.1 hd
  exact ⟨Json.isString_text _, Json.isString_text _⟩

theorem frames_isPlain (fs : List Keyframe) : ∀ f ∈ fs.map frame, f.IsPlain := by
  intro f hf
  obtain ⟨g, -, rfl⟩ := List.mem_map.1 hf
  exact ⟨Json.isString_text _, cleanStored_isPlain g.declarations⟩

/-- A list that is numbered from zero stays so when the next number goes to its end. -/
theorem numbered_append {α : Type} {number : α → Json} {xs : List α}
    (h : ∀ (i : Nat) x, xs[i]? = some x → number x = .int i) {y : α}
    (hy : number y = .int xs.length) (i : Nat) (x : α) (hx : (xs ++ [y])[i]? = some x) :
    number x = .int i := by
  rcases Nat.lt_trichotomy i xs.length with hi | rfl | hi
  · rw [List.getElem?_append_left hi] at hx
    exact h i x hx
  · obtain rfl : y = x := by simpa using hx
    exact hy
  · rw [List.getElem?_eq_none (by simp; omega)] at hx
    simp at hx

/-- A token that is deleted changes nothing but the tokens. -/
theorem deleteToken_eq (s : Cascade) (ctx : Context) (name : Json) :
    s.deleteToken ctx name = { s with tokens := (s.deleteToken ctx name).tokens } := by
  unfold deleteToken
  split
  · split <;> rfl
  · rfl

/-- A selector that is deleted changes nothing but the selectors. -/
theorem deleteSelector_eq (s : Cascade) (ctx : Context) (name : Json) :
    s.deleteSelector ctx name = { s with selectors := (s.deleteSelector ctx name).selectors } := by
  unfold deleteSelector
  split
  · split <;> rfl
  · rfl

/-- A selector that is mentioned changes nothing but the selectors. -/
theorem referenceSelector_eq (s : Cascade) (ctx : Context) (name : Json) :
    s.referenceSelector ctx name =
      { s with selectors := (s.referenceSelector ctx name).selectors } := by
  unfold referenceSelector
  split
  · rfl
  · rfl

theorem mentions_eq (names : List String) (p : Context × Cascade) :
    (names.foldl mention p).2 =
      { p.2 with selectors := (names.foldl mention p).2.selectors } := by
  induction names generalizing p with
  | nil => rfl
  | cons name names ih =>
    have hone : (mention p name).2 = { p.2 with selectors := (mention p name).2.selectors } :=
      p.2.referenceSelector_eq p.1 (.text name)
    rw [List.foldl_cons, ih, hone]

namespace IsCoherent

theorem putToken (h : s.IsCoherent D) (ctx : Context) (name : String) (value : Json) :
    (s.putToken ctx (.text name) value).IsCoherent D := by
  have hname := Json.isString_text name
  refine { h with tokens := ?_ }
  simp only [Cascade.putToken]
  split
  · exact h.tokens.put hname trivial
  · split
    · exact (h.tokens.erase _).put hname trivial
    · exact h.tokens.put hname trivial

theorem deleteToken (h : s.IsCoherent D) (ctx : Context) (name : String) :
    (s.deleteToken ctx (.text name)).IsCoherent D := by
  unfold Cascade.deleteToken
  split
  · split
    · exact h
    · exact { h with tokens := h.tokens.put (Json.isString_text name) trivial }
  · exact h

/-- Selectors that are only added leave everything else as it was. -/
theorem withSelectors (h : s.IsCoherent D) {selectors : Table Json SelectorEntry}
    (hs : selectors.IsNamed fun e => ∀ d ∈ e.definition, d.IsPlain)
    (hsub : s.selectors.keys ⊆ selectors.keys) : ({ s with selectors } : Cascade).IsCoherent D :=
  { h with
    selectors := hs
    buckets := h.buckets.imp fun _ hk => ⟨hk.1.mono hsub (List.Subset.refl _), hk.2⟩
    starting := List.Subset.trans h.starting hsub }

theorem putEntry (h : s.IsCoherent D) (name : String) {e : SelectorEntry}
    (he : ∀ d ∈ e.definition, d.IsPlain) :
    ({ s with selectors := s.selectors.put (.text name) e } : Cascade).IsCoherent D := by
  have hname := Json.isString_text name
  exact h.withSelectors (h.selectors.put hname he) fun l hl =>
    (h.selectors.mem_keys_put hname e).2 (.inl hl)

theorem referenceSelector (h : s.IsCoherent D) (ctx : Context) (name : String) :
    (s.referenceSelector ctx (.text name)).IsCoherent D ∧
      s.selectors.keys ⊆ (s.referenceSelector ctx (.text name)).selectors.keys ∧
      .text name ∈ (s.referenceSelector ctx (.text name)).selectors.keys ∧
      (s.referenceSelector ctx (.text name)).layers = s.layers := by
  have hname := Json.isString_text name
  unfold Cascade.referenceSelector
  split
  · next hmem =>
    exact ⟨h, List.Subset.refl _, (h.selectors.contains_iff hname).1 hmem, rfl⟩
  · exact ⟨h.putEntry name (by simp), fun l hl => (h.selectors.mem_keys_put hname _).2 (.inl hl),
      (h.selectors.mem_keys_put hname _).2 (.inr rfl), rfl⟩

theorem deleteSelector (h : s.IsCoherent D) (ctx : Context) (name : String) :
    (s.deleteSelector ctx (.text name)).IsCoherent D := by
  unfold Cascade.deleteSelector
  split
  · next old hold =>
    split
    · exact h
    · have hdefinition := h.selectors.get? hold
      exact h.putEntry name hdefinition
  · exact h

/-- Layers that are only added leave everything else as it was. -/
theorem withLayers (h : s.IsCoherent D) {layers : LayerRegistry} (hl : layers.IsCoherent)
    (hsub : s.layers.entries.keys ⊆ layers.entries.keys) :
    ({ s with layers } : Cascade).IsCoherent D :=
  { h with
    layers := hl
    buckets := h.buckets.imp fun _ hk => ⟨hk.1.mono (List.Subset.refl _) hsub, hk.2⟩ }

/-- Names that are mentioned become known. -/
theorem mentions (h : s.IsCoherent D) {ctx : Context} (hctx : ctx.IsKnown s.layers.entries.keys)
    {names : List String} {after : Context} {t : Cascade}
    (hmentions : names.foldl mention (ctx, s) = (after, t)) :
    t.IsCoherent D ∧ (∀ n ∈ s.selectors.keys ++ names.map .text, n ∈ t.selectors.keys) ∧
      t.layers = s.layers ∧ after.IsKnown t.layers.entries.keys := by
  induction names generalizing ctx s with
  | nil =>
    obtain ⟨rfl, rfl⟩ := Prod.mk.inj hmentions
    exact ⟨h, by simp, rfl, hctx⟩
  | cons name names ih =>
    obtain ⟨hone, hsub, hmem, hlayers⟩ := h.referenceSelector ctx name
    obtain ⟨hall, hkeys, hlayers', hafter⟩ := ih hone (hlayers ▸ hctx.tickIf _) hmentions
    refine ⟨hall, fun n hn => hkeys n ?_, hlayers'.trans hlayers, hafter⟩
    simp only [List.map_cons, List.mem_append, List.mem_cons] at hn ⊢
    rcases hn with hn | rfl | hn
    · exact .inl (hsub hn)
    · exact .inl hmem
    · exact .inr hn

/-! ## 6. Styles -/

theorem writeStyle (h : s.IsCoherent D) {ctx : Context}
    (hctx : ctx.IsKnown s.layers.entries.keys) {target : StyleTarget} (htarget : target.IsPlain)
    (hD : ∀ d ∈ (Descriptor.ofCondition target.condition).toOption.getD [], D d)
    {mode : WriteMode} {ds : List Declaration} {after : Context} {t : Cascade}
    (hwrite : s.writeStyle ctx target mode ds = .ok (after, t)) :
    t.IsCoherent D ∧ after.IsKnown t.layers.entries.keys := by
  simp only [Cascade.writeStyle, bind_eq_ok, pure_eq_ok, Prod.mk.injEq] at hwrite
  obtain ⟨wrappers, hwrappers, rfl, rfl⟩ := hwrite
  obtain ⟨hrefs, hkeys, hlayers, hafter⟩ :=
    h.mentions hctx (Eq.refl ((selectorsOf target).foldl mention (ctx, s)))
  refine ⟨{ hrefs with buckets := hrefs.buckets.writeKeys ctx mode ds fun k hk => ?_ }, hafter⟩
  have hknown := keysOf_isKnown (hlayers ▸ hctx) htarget
    (fun n hn => hkeys _ (List.mem_append_right _ (List.mem_map_of_mem hn)))
    (isWritten_of_ofCondition htarget.condition hwrappers) k hk
  obtain ⟨d, hd, rfl⟩ := List.mem_map.1 hk
  rw [hwrappers] at hD
  exact ⟨⟨hknown, hD d hd⟩, hknown.key_eq⟩

theorem putFontFace (h : s.IsCoherent D) (ctx : Context) (family : String)
    (ds : List Declaration) : (s.putFontFace ctx family ds).IsCoherent D := by
  obtain ⟨hcanonical, hall⟩ := h.fontFaces
  refine { h with fontFaces := ⟨hcanonical.put (key_string _) _, ?_⟩ }
  exact hcanonical.all_put hall (key_string _) ⟨rfl, cleanStored_isPlain ds⟩

theorem withoutFontFaces (h : s.IsCoherent D) (family : String) :
    ({ s with fontFaces := s.fontFaces.filter fun _ f => f.family ≠ .text family } :
      Cascade).IsCoherent D :=
  { h with
    fontFaces := ⟨h.fontFaces.1.filter fun _ f => f.family ≠ .text family, h.fontFaces.2.filter _⟩ }

theorem withoutStarting (h : s.IsCoherent D) (selector : String) :
    ({ s with startingStyles := s.startingStyles.erase (.text selector) } : Cascade).IsCoherent D :=
  { h with
    startingStyles := h.startingStyles.erase _
    starting := fun _ hl => h.starting ((List.filter_sublist.map _).subset hl) }

/-! ## 7. Statements -/

/-- One statement keeps a cascade coherent, and the layer that is written to known. -/
theorem step (h : s.IsCoherent D) {ctx : Context} (hctx : ctx.IsKnown s.layers.entries.keys)
    {stmt : Statement} (hplain : stmt.IsPlain) (hD : stmt.Writes D) {ctx' : Context} {t : Cascade}
    (hstep : Cascade.step ctx s stmt = .ok (ctx', t)) :
    t.IsCoherent D ∧ ctx'.IsKnown t.layers.entries.keys := by
  have hname : ∀ n : String, (Json.text n).IsString := Json.isString_text
  cases stmt with
  | createStyle target ds | alterStyle target mode ds =>
    exact h.writeStyle hctx hplain hD hstep
  | createLayers names =>
    obtain ⟨rfl, rfl⟩ := Prod.mk.inj (Except.ok.inj hstep)
    obtain ⟨hl, hsub⟩ := h.layers.declare names ctx.provenance
    exact ⟨h.withLayers hl hsub, fun n hn => ⟨(hctx n hn).1, hsub (hctx n hn).2⟩⟩
  | setLayer name =>
    obtain ⟨rfl, rfl⟩ := Prod.mk.inj (Except.ok.inj hstep)
    obtain ⟨hl, hsub, hmem⟩ := h.layers.encounter name ctx.provenance
    refine ⟨h.withLayers hl hsub, fun n hn => ?_⟩
    obtain rfl : name = n := by simpa using hn
    exact ⟨hplain, hmem⟩
  | createToken name value =>
    obtain ⟨rfl, rfl⟩ := Prod.mk.inj (Except.ok.inj hstep)
    exact ⟨h.putToken ctx name _, hctx.tick⟩
  | dropToken name | deleteToken name =>
    obtain ⟨rfl, rfl⟩ := Prod.mk.inj (Except.ok.inj hstep)
    refine ⟨h.deleteToken ctx name, ?_⟩
    rw [deleteToken_eq]
    exact hctx.tickIf _
  | createSelector name definition =>
    obtain ⟨rfl, rfl⟩ := Prod.mk.inj (Except.ok.inj hstep)
    exact ⟨h.putEntry name fun d hd => Option.some.inj hd ▸ hplain, hctx.tick⟩
  | dropSelector name =>
    obtain ⟨rfl, rfl⟩ := Prod.mk.inj (Except.ok.inj hstep)
    refine ⟨h.deleteSelector ctx name, ?_⟩
    rw [deleteSelector_eq]
    exact hctx.tickIf _
  | deleteStyle selector property =>
    obtain ⟨rfl, rfl⟩ := Prod.mk.inj (Except.ok.inj hstep)
    exact ⟨{ h with buckets := h.buckets.delete _ _ _ }, hctx⟩
  | dropStyle selector =>
    obtain ⟨rfl, rfl⟩ := Prod.mk.inj (Except.ok.inj hstep)
    exact ⟨{ h with buckets := h.buckets.drop _ _ }, hctx⟩
  | setSpacing mode =>
    obtain ⟨rfl, rfl⟩ := Prod.mk.inj (Except.ok.inj hstep)
    exact ⟨h, hctx⟩
  | raw css =>
    obtain ⟨rfl, rfl⟩ := Prod.mk.inj (Except.ok.inj hstep)
    exact ⟨{ h with raw := numbered_append h.raw rfl }, hctx⟩
  | imports kind path media =>
    obtain ⟨rfl, rfl⟩ := Prod.mk.inj (Except.ok.inj hstep)
    exact ⟨{ h with imports := numbered_append h.imports rfl }, hctx⟩
  | createFontFace family ds =>
    obtain ⟨rfl, rfl⟩ := Prod.mk.inj (Except.ok.inj hstep)
    exact ⟨h.putFontFace ctx family ds, hctx⟩
  | dropFontFace family =>
    obtain ⟨rfl, rfl⟩ := Prod.mk.inj (Except.ok.inj hstep)
    exact ⟨h.withoutFontFaces family, hctx⟩
  | createKeyframes name frames =>
    obtain ⟨rfl, rfl⟩ := Prod.mk.inj (Except.ok.inj hstep)
    exact ⟨{ h with keyframes := h.keyframes.put (hname name) (frames_isPlain frames) }, hctx⟩
  | dropKeyframes name =>
    obtain ⟨rfl, rfl⟩ := Prod.mk.inj (Except.ok.inj hstep)
    exact ⟨{ h with keyframes := h.keyframes.erase _ }, hctx⟩
  | createProperty name ds =>
    obtain ⟨rfl, rfl⟩ := Prod.mk.inj (Except.ok.inj hstep)
    exact ⟨{ h with properties := h.properties.put (hname name) trivial }, hctx⟩
  | dropProperty name =>
    obtain ⟨rfl, rfl⟩ := Prod.mk.inj (Except.ok.inj hstep)
    exact ⟨{ h with properties := h.properties.erase _ }, hctx⟩
  | createPage ds pseudo =>
    obtain ⟨rfl, rfl⟩ := Prod.mk.inj (Except.ok.inj hstep)
    exact ⟨{ h with pages := h.pages.put (hname _) (ruleBlock_isPlain ctx ds) }, hctx⟩
  | dropPage pseudo =>
    obtain ⟨rfl, rfl⟩ := Prod.mk.inj (Except.ok.inj hstep)
    exact ⟨{ h with pages := h.pages.erase _ }, hctx⟩
  | createCounterStyle name ds =>
    obtain ⟨rfl, rfl⟩ := Prod.mk.inj (Except.ok.inj hstep)
    exact ⟨{ h with
      counterStyles := h.counterStyles.put (hname name) (ruleBlock_isPlain ctx ds) }, hctx⟩
  | dropCounterStyle name =>
    obtain ⟨rfl, rfl⟩ := Prod.mk.inj (Except.ok.inj hstep)
    exact ⟨{ h with counterStyles := h.counterStyles.erase _ }, hctx⟩
  | createFontFeatureValues family ds =>
    obtain ⟨rfl, rfl⟩ := Prod.mk.inj (Except.ok.inj hstep)
    exact ⟨{ h with
      fontFeatureValues := h.fontFeatureValues.put (hname family) (featureBlock_isPlain ctx ds) },
      hctx⟩
  | dropFontFeatureValues family =>
    obtain ⟨rfl, rfl⟩ := Prod.mk.inj (Except.ok.inj hstep)
    exact ⟨{ h with fontFeatureValues := h.fontFeatureValues.erase _ }, hctx⟩
  | createFontPaletteValues name ds =>
    obtain ⟨rfl, rfl⟩ := Prod.mk.inj (Except.ok.inj hstep)
    exact ⟨{ h with
      fontPaletteValues := h.fontPaletteValues.put (hname name) (ruleBlock_isPlain ctx ds) }, hctx⟩
  | dropFontPaletteValues name =>
    obtain ⟨rfl, rfl⟩ := Prod.mk.inj (Except.ok.inj hstep)
    exact ⟨{ h with fontPaletteValues := h.fontPaletteValues.erase _ }, hctx⟩
  | dropStartingStyle selector =>
    obtain ⟨rfl, rfl⟩ := Prod.mk.inj (Except.ok.inj hstep)
    exact ⟨h.withoutStarting selector, hctx⟩
  | selectStyles selector condition | describeSelector name | begin | commit | rollback =>
    obtain ⟨rfl, rfl⟩ := Prod.mk.inj (Except.ok.inj hstep)
    exact ⟨h, hctx⟩
  | createStartingStyle selector ds =>
    obtain ⟨rfl, rfl⟩ := Prod.mk.inj (Except.ok.inj hstep)
    obtain ⟨hr, hsub, hmem, hlayers⟩ := h.referenceSelector ctx selector
    refine ⟨?_, hlayers ▸ hctx.tickIf _⟩
    exact { hr with
      startingStyles := hr.startingStyles.put (hname selector) (ruleBlock_isPlain ctx ds)
      starting := fun l hl => by
        rcases (hr.startingStyles.mem_keys_put (hname selector) _).1 hl with hl | rfl
        · exact hr.starting hl
        · exact hmem }

/-- Statements keep a cascade coherent, also when one of them is refused. -/
theorem run {stmts : List Statement} (hplain : ∀ stmt ∈ stmts, stmt.IsPlain)
    (hD : ∀ stmt ∈ stmts, stmt.Writes D) (h : s.IsCoherent D) {ctx : Context}
    (hctx : ctx.IsKnown s.layers.entries.keys) : (Cascade.run ctx s stmts).state.IsCoherent D := by
  induction stmts generalizing ctx s with
  | nil => exact h
  | cons stmt stmts ih =>
    obtain ⟨hp, hplain⟩ := List.forall_mem_cons.1 hplain
    obtain ⟨hd, hD⟩ := List.forall_mem_cons.1 hD
    simp only [Cascade.run]
    split
    · next ctx' t hstep =>
      obtain ⟨ht, hctx'⟩ := h.step hctx hp hd hstep
      exact ih hplain hD ht hctx'
    · exact h

theorem build {stmts : List Statement} (hplain : ∀ stmt ∈ stmts, stmt.IsPlain)
    (hD : ∀ stmt ∈ stmts, stmt.Writes D) (h : s.IsCoherent D) {o : Occasion} {t : Cascade}
    (hbuild : Cascade.build o.context s stmts = .ok t) : t.IsCoherent D := by
  simp only [Cascade.build] at hbuild
  split at hbuild
  · exact Except.ok.inj hbuild ▸ h.run hplain hD (o.isKnown_context _)
  · simp at hbuild

end IsCoherent

end Cascade

end StyleLedger
