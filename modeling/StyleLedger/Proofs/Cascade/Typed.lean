import StyleLedger.Cascade.Timed
import StyleLedger.Proofs.Cascade.Growth
import StyleLedger.Descriptor.Columns

/-!
Cells of the kinds that the columns of the store are for.

A cascade is *typed* when it holds texts where texts are stored, or null where they may be absent,
and numbers and truth values where those are. This asks for less than a coherent cascade: nothing is
said of which names there are. Plain statements keep a cascade typed (`IsTyped.step`), at whatever
time the clock shows and also when it is at fault (`IsTyped.buildAt`).

* `Cascade.IsTyped` — the invariant.
-/

namespace StyleLedger

open Outcome

/-! ## 1. Typed cascades -/

/-- A whole number. -/
def Json.IsWhole (v : Json) : Prop :=
  ∃ n : Int, v = .int n

/-- A truth value. -/
def Json.IsFlag (v : Json) : Prop :=
  ∃ b, v = .bool b

/-- Every key of a table is a text, and every value has a property. -/
def Table.HasTextKeys {α : Type} (V : α → Prop) (t : Table Json α) : Prop :=
  t.All fun k v => k.IsString ∧ V v

structure Provenance.IsTyped (p : Provenance) : Prop where
  originFile : p.originFile.IsWord
  migrationId : p.migrationId.IsWord

structure TokenEntry.IsTyped (t : TokenEntry) : Prop where
  value : t.value.IsString
  provenance : t.provenance.IsTyped
  createdAt : t.createdAt.IsString
  updatedAt : t.updatedAt.IsString
  deleted : t.deleted.IsFlag

structure SelectorEntry.IsTyped (e : SelectorEntry) : Prop where
  provenance : e.provenance.IsTyped
  createdAt : e.createdAt.IsString
  updatedAt : e.updatedAt.IsString
  deleted : e.deleted.IsFlag

structure StyleProperty.IsTyped (p : StyleProperty) : Prop where
  value : p.value.IsString
  rowId : p.rowId.IsWord
  sequence : p.sequence.IsWhole
  spacingMode : p.spacingMode.IsWord
  originFile : p.originFile.IsWord
  migrationId : p.migrationId.IsWord

structure DescriptorColumns.IsTyped (c : DescriptorColumns) : Prop where
  kind : c.kind.IsWord
  min : c.min.IsWord
  max : c.max.IsWord
  axis : c.axis.IsWord
  containerName : c.containerName.IsWord
  condition : c.condition.IsWord
  supports : c.supports.IsWord

/-- The wrapper of a bucket takes typed columns. What else is in its key shows in the rows only
through identifiers, which are texts. -/
def BucketKey.IsTyped (k : BucketKey) : Prop :=
  (Descriptor.columns k.descriptor).IsTyped

structure Bucket.IsTyped (b : Bucket) : Prop where
  properties : b.properties.HasTextKeys StyleProperty.IsTyped
  touched : b.touched.IsWhole

structure PropertyEntry.IsTyped (p : PropertyEntry) : Prop where
  valueSyntax : p.valueSyntax.IsWord
  inherits : p.inherits.IsWord
  initialValue : p.initialValue.IsWord
  provenance : p.provenance.IsTyped

structure FontFace.IsTyped (f : FontFace) : Prop where
  family : f.family.IsString
  src : f.src.IsWord
  provenance : f.provenance.IsTyped

structure RawEntry.IsTyped (r : RawEntry) : Prop where
  css : r.css.IsString
  sequence : r.sequence.IsWhole
  provenance : r.provenance.IsTyped

structure ImportEntry.IsTyped (i : ImportEntry) : Prop where
  path : i.path.IsString
  media : i.media.IsWord
  sequence : i.sequence.IsWhole
  provenance : i.provenance.IsTyped

/-- Every cell that a cascade puts into a row is of the kind its column is for. -/
structure Cascade.IsTyped (s : Cascade) : Prop where
  tokens : s.tokens.HasTextKeys TokenEntry.IsTyped
  selectors : s.selectors.HasTextKeys SelectorEntry.IsTyped
  layers : s.layers.entries.HasTextKeys Provenance.IsTyped
  buckets : s.buckets.buckets.All fun k b => k.IsTyped ∧ b.IsTyped
  properties : s.properties.HasTextKeys PropertyEntry.IsTyped
  fontFaces : s.fontFaces.All fun _ f => f.IsTyped
  keyframes : s.keyframes.HasTextKeys fun a => a.provenance.IsTyped
  pages : s.pages.HasTextKeys fun b => b.provenance.IsTyped
  counterStyles : s.counterStyles.HasTextKeys fun b => b.provenance.IsTyped
  fontFeatureValues : s.fontFeatureValues.HasTextKeys fun b => b.provenance.IsTyped
  fontPaletteValues : s.fontPaletteValues.HasTextKeys fun b => b.provenance.IsTyped
  startingStyles : s.startingStyles.All fun _ b => b.provenance.IsTyped
  raw : ∀ r ∈ s.raw, r.IsTyped
  imports : ∀ i ∈ s.imports, i.IsTyped

/-! ## 2. Tables -/

namespace Table

theorem All.put_values {κ α : Type} [DecidableEq κ] [Keyed κ] {V : α → Prop} {t : Table κ α}
    (h : t.All fun _ v => V v) (k : κ) {v : α} (hv : V v) : (t.put k v).All fun _ v => V v :=
  (All.put (K := fun _ => True) (h.imp fun _ _ hv => ⟨trivial, hv⟩) trivial hv).imp fun _ _ h => h.2

theorem HasTextKeys.put {α : Type} {V : α → Prop} {t : Table Json α} (h : t.HasTextKeys V)
    (k : String) {v : α} (hv : V v) : (t.put (.text k) v).HasTextKeys V :=
  All.put h (Json.isString_text k) hv

theorem HasTextKeys.erase {α : Type} {V : α → Prop} {t : Table Json α} (h : t.HasTextKeys V)
    (k : Json) : (t.erase k).HasTextKeys V :=
  All.erase h k

end Table

theorem Context.isTyped_provenance (ctx : Context) : ctx.provenance.IsTyped :=
  ⟨Json.isWord_textOrNull _, Json.isWord_text _⟩

/-! ## 3. Buckets -/

namespace BucketIndex

/-- The number of the next property is whole when all numbers in use are. -/
theorem isWhole_nextSequence {index : BucketIndex}
    (h : index.buckets.All fun k b => k.IsTyped ∧ b.IsTyped) :
    (Json.number index.nextSequence).IsWhole := by
  have hall : ∀ n ∈ index.sequences, ∃ i, n = .integer i := by
    intro n hn
    obtain ⟨cell, hcell, hn⟩ := List.mem_filterMap.1 hn
    obtain ⟨b, hb, hcell⟩ := List.mem_flatMap.1 hcell
    obtain ⟨p, hp, rfl⟩ := List.mem_map.1 hcell
    obtain ⟨e, he, rfl⟩ := List.mem_map.1 hb
    obtain ⟨d, hd, rfl⟩ := List.mem_map.1 hp
    obtain ⟨i, hi⟩ := ((h e he).2.properties d hd).2.sequence
    rw [hi] at hn
    exact ⟨i, (Option.some.inj hn).symm⟩
  have hfold : ∀ (ns : List Numeral) (i : Int), (∀ n ∈ ns, ∃ i, n = .integer i) →
      ∃ j, ns.foldl Numeral.greater (.integer i) = .integer j := by
    intro ns
    induction ns with
    | nil => exact fun i _ => ⟨i, rfl⟩
    | cons n ns ih =>
      intro i hns
      obtain ⟨⟨j, rfl⟩, htail⟩ := List.forall_mem_cons.1 hns
      rw [List.foldl_cons, Numeral.greater_integer]
      exact ih _ htail
  unfold nextSequence
  cases hs : index.sequences with
  | nil => exact ⟨1, rfl⟩
  | cons n ns =>
    rw [hs] at hall
    obtain ⟨⟨i, rfl⟩, hns⟩ := List.forall_mem_cons.1 hall
    obtain ⟨j, hj⟩ := hfold ns i hns
    simp only [hj]
    exact ⟨j + 1, rfl⟩

variable {index : BucketIndex} (h : index.buckets.All fun k b => k.IsTyped ∧ b.IsTyped)

include h

theorem isTyped_propertiesOf (k : BucketKey) :
    (index.propertiesOf k).HasTextKeys StyleProperty.IsTyped := by
  unfold propertiesOf
  cases hb : index.get? k with
  | none => exact Table.all_empty _
  | some b => exact (h.get? hb).properties

theorem isTyped_putTouched {k : BucketKey} (hk : k.IsTyped) {ps : Table Json StyleProperty}
    (hps : ps.HasTextKeys StyleProperty.IsTyped) :
    (index.putTouched k ps).buckets.All fun k b => k.IsTyped ∧ b.IsTyped :=
  h.put hk ⟨hps, index.clock + 1, rfl⟩

theorem isTyped_touch {k : BucketKey} (hk : k.IsTyped) :
    (index.touch k).1.buckets.All fun k b => k.IsTyped ∧ b.IsTyped := by
  unfold touch
  split
  · next b hb => exact isTyped_putTouched h hk (h.get? hb).properties
  · exact h

theorem isTyped_writeOne {k : BucketKey} (hk : k.IsTyped) (ctx : Context) (mode : WriteMode)
    (d : Declaration) :
    (Cascade.writeOne ctx mode k index d).buckets.All fun k b => k.IsTyped ∧ b.IsTyped := by
  have hold := isTyped_propertiesOf h k
  have hnew : (Cascade.newProperty index ctx d).IsTyped :=
    ⟨Json.isString_text _, Json.isWord_text _, isWhole_nextSequence h, Json.isWord_textOrNull _,
      Json.isWord_textOrNull _, Json.isWord_text _⟩
  cases mode with
  | add =>
    simp only [Cascade.writeOne, add]
    split
    · exact isTyped_putTouched h hk hold
    · exact isTyped_putTouched h hk (hold.put _ hnew)
  | set =>
    refine isTyped_putTouched h hk (hold.put _ ?_)
    split
    · next old hget =>
      have hprevious : old.IsTyped := Table.All.get? hold hget
      exact { hnew with rowId := hprevious.rowId, sequence := hprevious.sequence }
    · exact hnew

theorem isTyped_delete (selector layer : Json) (name : Option Json) :
    (index.delete selector layer name).1.buckets.All fun k b => k.IsTyped ∧ b.IsTyped := by
  rcases delete_cases index selector layer name with heq | ⟨k, b, left, hrecent, hleft, heq⟩
  · rw [heq]
    exact h
  · rw [heq]
    obtain ⟨hk, hb⟩ := h _ (mostRecent?_eq_some hrecent).1
    have htyped : left.HasTextKeys StyleProperty.IsTyped := by
      rcases hleft with rfl | ⟨n, rfl⟩
      · exact Table.all_empty _
      · exact hb.properties.erase n
    split
    · exact h.erase k
    · exact h.put hk ⟨htyped, hb.touched⟩

theorem isTyped_writeAll {k : BucketKey} (hk : k.IsTyped) (ctx : Context) (mode : WriteMode)
    (ds : List Declaration) :
    (Cascade.writeAll ctx mode ds index k).buckets.All fun k b => k.IsTyped ∧ b.IsTyped := by
  unfold Cascade.writeAll
  split
  · exact isTyped_touch h hk
  · clear * - h hk
    induction ds generalizing index with
    | nil => exact h
    | cons d ds ih => exact ih (isTyped_writeOne h hk ctx mode d)

theorem isTyped_writeKeys (ctx : Context) (mode : WriteMode) (ds : List Declaration)
    {keys : List BucketKey} (hkeys : ∀ k ∈ keys, k.IsTyped) :
    (keys.foldl (Cascade.writeAll ctx mode ds) index).buckets.All fun k b =>
      k.IsTyped ∧ b.IsTyped := by
  induction keys generalizing index with
  | nil => exact h
  | cons k keys ih =>
    obtain ⟨hk, hkeys⟩ := List.forall_mem_cons.1 hkeys
    exact ih (isTyped_writeAll h hk ctx mode ds) hkeys

end BucketIndex

/-- The columns of a wrapper that a plain condition addresses are typed. -/
theorem Descriptor.IsWritten.isTyped_columns {d : Option Descriptor} (h : IsWritten d) :
    (columns d).IsTyped := by
  have hnull := Json.isWord_null
  cases d with
  | none => exact ⟨hnull, hnull, hnull, hnull, hnull, hnull, hnull⟩
  | some d =>
    obtain ⟨hmerged, hwordy⟩ := h d rfl
    cases hmerged with
    | media min max supports features =>
      exact ⟨Json.isWord_text _, hwordy.min, hwordy.max, hnull, hnull, Json.isWord_textOrNull _,
        hwordy.supports⟩
    | container name min max axis supports =>
      exact ⟨Json.isWord_text _, hwordy.min, hwordy.max, hwordy.axis, hwordy.name, hnull,
        hwordy.supports⟩
    | containerStyle name condition supports =>
      exact ⟨Json.isWord_text _, hnull, hnull, hnull, hwordy.name, hwordy.condition,
        hwordy.supports⟩
    | supports condition =>
      exact ⟨Json.isWord_text _, hnull, hnull, hnull, hnull, hwordy.condition, hnull⟩

/-! ## 4. Statements -/

namespace Cascade

variable {s : Cascade}

theorem isTyped_empty : IsTyped {} where
  tokens := Table.all_empty _
  selectors := Table.all_empty _
  layers := Table.all_empty _
  buckets := Table.all_empty _
  properties := Table.all_empty _
  fontFaces := Table.all_empty _
  keyframes := Table.all_empty _
  pages := Table.all_empty _
  counterStyles := Table.all_empty _
  fontFeatureValues := Table.all_empty _
  fontPaletteValues := Table.all_empty _
  startingStyles := Table.all_empty _
  raw := by simp
  imports := by simp

namespace IsTyped

theorem putToken (h : s.IsTyped) (ctx : Context) (name value : String) :
    (s.putToken ctx (.text name) (.text value)).IsTyped := by
  have hnew : ∀ createdAt : Json, createdAt.IsString → TokenEntry.IsTyped
      { value := .text value, provenance := ctx.provenance, createdAt
        updatedAt := .text ctx.now } := fun createdAt hcreated =>
    ⟨Json.isString_text _, ctx.isTyped_provenance, hcreated, Json.isString_text _, false, rfl⟩
  refine { h with tokens := ?_ }
  simp only [Cascade.putToken]
  split
  · exact h.tokens.put name (hnew _ (Json.isString_text _))
  · next old hold =>
    have hcreated : old.createdAt.IsString := (Table.All.get? h.tokens hold).createdAt
    split
    · exact (h.tokens.erase _).put name (hnew _ hcreated)
    · exact h.tokens.put name (hnew _ hcreated)

theorem deleteToken (h : s.IsTyped) (ctx : Context) (name : String) :
    (s.deleteToken ctx (.text name)).IsTyped := by
  unfold Cascade.deleteToken
  split
  · next old hold =>
    split
    · exact h
    · have hprevious : old.IsTyped := Table.All.get? h.tokens hold
      exact { h with
        tokens := h.tokens.put name
          { hprevious with updatedAt := Json.isString_text _, deleted := ⟨true, rfl⟩ } }
  · exact h

theorem putSelector (h : s.IsTyped) (ctx : Context) (name : String) (definition : Selector) :
    (s.putSelector ctx (.text name) definition).IsTyped := by
  refine { h with
    selectors := h.selectors.put name
      ⟨ctx.isTyped_provenance, ?_, Json.isString_text _, false, rfl⟩ }
  cases hold : s.selectors.get? (.text name) with
  | none => exact Json.isString_text _
  | some old =>
    have hprevious : old.IsTyped := Table.All.get? h.selectors hold
    exact hprevious.createdAt

theorem referenceSelector (h : s.IsTyped) (ctx : Context) (name : String) :
    (s.referenceSelector ctx (.text name)).IsTyped := by
  unfold Cascade.referenceSelector
  split
  · exact h
  · exact { h with
      selectors := h.selectors.put name
        ⟨ctx.isTyped_provenance, Json.isString_text _, Json.isString_text _, false, rfl⟩ }

theorem deleteSelector (h : s.IsTyped) (ctx : Context) (name : String) :
    (s.deleteSelector ctx (.text name)).IsTyped := by
  unfold Cascade.deleteSelector
  split
  · next old hold =>
    split
    · exact h
    · have hprevious : old.IsTyped := Table.All.get? h.selectors hold
      exact { h with
        selectors := h.selectors.put name
          { hprevious with updatedAt := Json.isString_text _, deleted := ⟨true, rfl⟩ } }
  · exact h

theorem encounter {r : LayerRegistry} (h : r.entries.HasTextKeys Provenance.IsTyped) (ctx : Context)
    (name : String) :
    (r.encounter (.text name) ctx.provenance).entries.HasTextKeys Provenance.IsTyped := by
  unfold LayerRegistry.encounter
  split
  · exact h
  · exact h.put name ctx.isTyped_provenance

theorem declare {r : LayerRegistry} (h : r.entries.HasTextKeys Provenance.IsTyped) (ctx : Context)
    (names : List String) :
    (r.declare (names.map .text) ctx.provenance).entries.HasTextKeys Provenance.IsTyped := by
  unfold LayerRegistry.declare
  induction names generalizing r with
  | nil => exact h
  | cons name names ih =>
    refine ih ?_
    simp only [LayerRegistry.declareOne]
    split
    · exact encounter h ctx name
    · exact encounter h ctx name

theorem mentions (names : List String) {p : Context × Cascade} (h : p.2.IsTyped) :
    (names.foldl mention p).2.IsTyped := by
  induction names generalizing p with
  | nil => exact h
  | cons name names ih => exact ih (h.referenceSelector p.1 name)

theorem writeStyle (h : s.IsTyped) {ctx : Context} {target : StyleTarget} (htarget : target.IsPlain)
    {mode : WriteMode} {ds : List Declaration} {after : Context} {t : Cascade}
    (hwrite : s.writeStyle ctx target mode ds = .ok (after, t)) : t.IsTyped := by
  simp only [Cascade.writeStyle, bind_eq_ok, pure_eq_ok, Prod.mk.injEq] at hwrite
  obtain ⟨wrappers, hwrappers, rfl, rfl⟩ := hwrite
  have hrefs : ((selectorsOf target).foldl mention (ctx, s)).2.IsTyped := mentions _ h
  refine { hrefs with
    buckets := BucketIndex.isTyped_writeKeys hrefs.buckets ctx mode ds fun k hk => ?_ }
  obtain ⟨d, hd, rfl⟩ := List.mem_map.1 hk
  exact (isWritten_of_ofCondition htarget.condition hwrappers d hd).isTyped_columns

/-- One statement keeps a cascade typed. -/
theorem step (h : s.IsTyped) {ctx : Context} {stmt : Statement} (hplain : stmt.IsPlain)
    {ctx' : Context} {t : Cascade} (hstep : Cascade.step ctx s stmt = .ok (ctx', t)) :
    t.IsTyped := by
  have hfrom := ctx.isTyped_provenance
  cases stmt with
  | createStyle target ds | alterStyle target mode ds =>
    exact h.writeStyle hplain hstep
  | createLayers names =>
    obtain ⟨rfl, rfl⟩ := Prod.mk.inj (Except.ok.inj hstep)
    exact { h with layers := declare h.layers ctx names }
  | setLayer name =>
    obtain ⟨rfl, rfl⟩ := Prod.mk.inj (Except.ok.inj hstep)
    exact { h with layers := encounter h.layers ctx name }
  | createToken name value =>
    obtain ⟨rfl, rfl⟩ := Prod.mk.inj (Except.ok.inj hstep)
    exact h.putToken ctx name _
  | dropToken name | deleteToken name =>
    obtain ⟨rfl, rfl⟩ := Prod.mk.inj (Except.ok.inj hstep)
    exact h.deleteToken ctx name
  | createSelector name definition =>
    obtain ⟨rfl, rfl⟩ := Prod.mk.inj (Except.ok.inj hstep)
    exact h.putSelector ctx name definition
  | dropSelector name =>
    obtain ⟨rfl, rfl⟩ := Prod.mk.inj (Except.ok.inj hstep)
    exact h.deleteSelector ctx name
  | deleteStyle selector property =>
    obtain ⟨rfl, rfl⟩ := Prod.mk.inj (Except.ok.inj hstep)
    exact { h with buckets := BucketIndex.isTyped_delete h.buckets _ _ _ }
  | dropStyle selector =>
    obtain ⟨rfl, rfl⟩ := Prod.mk.inj (Except.ok.inj hstep)
    exact { h with buckets := h.buckets.filter _ }
  | raw css =>
    obtain ⟨rfl, rfl⟩ := Prod.mk.inj (Except.ok.inj hstep)
    refine { h with raw := List.forall_mem_append.2 ⟨h.raw, ?_⟩ }
    exact List.forall_mem_singleton.2 ⟨Json.isString_text _, ⟨_, rfl⟩, hfrom⟩
  | imports kind path media =>
    obtain ⟨rfl, rfl⟩ := Prod.mk.inj (Except.ok.inj hstep)
    refine { h with imports := List.forall_mem_append.2 ⟨h.imports, ?_⟩ }
    exact List.forall_mem_singleton.2
      ⟨Json.isString_text _, Json.isWord_textOrNull _, ⟨_, rfl⟩, hfrom⟩
  | createFontFace family ds =>
    obtain ⟨rfl, rfl⟩ := Prod.mk.inj (Except.ok.inj hstep)
    exact { h with
      fontFaces := h.fontFaces.put_values _
        ⟨Json.isString_text _, Json.isWord_textOrNull _, hfrom⟩ }
  | dropFontFace family =>
    obtain ⟨rfl, rfl⟩ := Prod.mk.inj (Except.ok.inj hstep)
    exact { h with fontFaces := h.fontFaces.filter _ }
  | createKeyframes name frames =>
    obtain ⟨rfl, rfl⟩ := Prod.mk.inj (Except.ok.inj hstep)
    exact { h with keyframes := h.keyframes.put name hfrom }
  | dropKeyframes name =>
    obtain ⟨rfl, rfl⟩ := Prod.mk.inj (Except.ok.inj hstep)
    exact { h with keyframes := h.keyframes.erase _ }
  | createProperty name ds =>
    obtain ⟨rfl, rfl⟩ := Prod.mk.inj (Except.ok.inj hstep)
    exact { h with
      properties := h.properties.put name
        ⟨Json.isWord_textOrNull _, Json.isWord_textOrNull _, Json.isWord_textOrNull _, hfrom⟩ }
  | dropProperty name =>
    obtain ⟨rfl, rfl⟩ := Prod.mk.inj (Except.ok.inj hstep)
    exact { h with properties := h.properties.erase _ }
  | createPage ds pseudo =>
    obtain ⟨rfl, rfl⟩ := Prod.mk.inj (Except.ok.inj hstep)
    exact { h with pages := h.pages.put _ hfrom }
  | dropPage pseudo =>
    obtain ⟨rfl, rfl⟩ := Prod.mk.inj (Except.ok.inj hstep)
    exact { h with pages := h.pages.erase _ }
  | createCounterStyle name ds =>
    obtain ⟨rfl, rfl⟩ := Prod.mk.inj (Except.ok.inj hstep)
    exact { h with counterStyles := h.counterStyles.put name hfrom }
  | dropCounterStyle name =>
    obtain ⟨rfl, rfl⟩ := Prod.mk.inj (Except.ok.inj hstep)
    exact { h with counterStyles := h.counterStyles.erase _ }
  | createFontFeatureValues family ds =>
    obtain ⟨rfl, rfl⟩ := Prod.mk.inj (Except.ok.inj hstep)
    exact { h with fontFeatureValues := h.fontFeatureValues.put family hfrom }
  | dropFontFeatureValues family =>
    obtain ⟨rfl, rfl⟩ := Prod.mk.inj (Except.ok.inj hstep)
    exact { h with fontFeatureValues := h.fontFeatureValues.erase _ }
  | createFontPaletteValues name ds =>
    obtain ⟨rfl, rfl⟩ := Prod.mk.inj (Except.ok.inj hstep)
    exact { h with fontPaletteValues := h.fontPaletteValues.put name hfrom }
  | dropFontPaletteValues name =>
    obtain ⟨rfl, rfl⟩ := Prod.mk.inj (Except.ok.inj hstep)
    exact { h with fontPaletteValues := h.fontPaletteValues.erase _ }
  | createStartingStyle selector ds =>
    obtain ⟨rfl, rfl⟩ := Prod.mk.inj (Except.ok.inj hstep)
    have hr := h.referenceSelector ctx selector
    exact { hr with startingStyles := hr.startingStyles.put_values _ hfrom }
  | dropStartingStyle selector =>
    obtain ⟨rfl, rfl⟩ := Prod.mk.inj (Except.ok.inj hstep)
    exact { h with startingStyles := h.startingStyles.erase _ }
  | setSpacing mode | selectStyles selector condition | describeSelector name | begin | commit
  | rollback =>
    obtain ⟨rfl, rfl⟩ := Prod.mk.inj (Except.ok.inj hstep)
    exact h

theorem run {stmts : List Statement} (hplain : ∀ stmt ∈ stmts, stmt.IsPlain) (h : s.IsTyped)
    (ctx : Context) : (Cascade.run ctx s stmts).state.IsTyped := by
  induction stmts generalizing ctx s with
  | nil => exact h
  | cons stmt stmts ih =>
    obtain ⟨hp, hplain⟩ := List.forall_mem_cons.1 hplain
    simp only [Cascade.run]
    split
    · next ctx' t hstep => exact ih hplain (h.step hp hstep) ctx'
    · exact h

theorem build {stmts : List Statement} (hplain : ∀ stmt ∈ stmts, stmt.IsPlain) (h : s.IsTyped)
    {ctx : Context} {t : Cascade} (hbuild : Cascade.build ctx s stmts = .ok t) : t.IsTyped := by
  simp only [Cascade.build] at hbuild
  split at hbuild
  · exact Except.ok.inj hbuild ▸ h.run hplain ctx
  · simp at hbuild

/-- Statements keep a cascade typed, whatever the clock shows. -/
theorem buildAt {stmts : List Statement} (hplain : ∀ stmt ∈ stmts, stmt.IsPlain) (h : s.IsTyped)
    {clock : Except ClockFault String} {ctx : Context} {t : Cascade}
    (hbuild : Cascade.buildAt clock ctx s stmts = .ok t) : t.IsTyped := by
  obtain ⟨now, hbuild⟩ := exists_build_of_buildAt hbuild
  exact h.build hplain hbuild

end IsTyped

end Cascade

end StyleLedger
