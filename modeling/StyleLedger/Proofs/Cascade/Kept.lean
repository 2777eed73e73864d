import StyleLedger.Proofs.Cascade.Index
import StyleLedger.Proofs.Cascade.Matching

/-!
What is kept by statements that take nothing away.

Tables, buckets and layers are addressed by keys. A statement that takes nothing away adds keys or
writes values under keys that are there, so no key is lost and no token is deleted (`within_step`).
Only a token that was deleted and is created again leaves its place.

* `Table.Within`, `BucketIndex.Within`, `LayerRegistry.Within`, `Cascade.Within` — every key of one
  is there in the other.
* `Statement.removes` — whether a statement can take something away.
-/

namespace StyleLedger

open Outcome
open Keyed (key)

/-! ## 1. Tables -/

namespace Table

variable {κ α : Type} [DecidableEq κ] [Keyed κ] {s t u : Table κ α} {k : κ}

/-- Every key of a table has a value in another one. -/
def Within (s t : Table κ α) : Prop :=
  ∀ k, s.contains k = true → t.contains k = true

theorem Within.refl (t : Table κ α) : t.Within t :=
  fun _ h => h

theorem Within.trans (h : s.Within t) (h' : t.Within u) : s.Within u :=
  fun k hk => h' k (h k hk)

theorem contains_put (t : Table κ α) (k l : κ) (v : α) :
    (t.put k v).contains l = (decide (key l = key k) || t.contains l) := by
  rw [contains, get?_put]
  split
  · next h => simp [h]
  · next h => simp [h, contains]

theorem within_put (t : Table κ α) (k : κ) (v : α) : t.Within (t.put k v) :=
  fun l hl => by simp [contains_put, hl]

theorem get?_erase_of_ne {l : κ} (h : key l ≠ key k) (t : Table κ α) :
    (t.erase k).get? l = t.get? l := by
  have hfilter := get?_filter (p := fun m => decide (key m ≠ key k))
    (fun m n hmn => by simp [hmn]) t l
  rw [if_pos (by simpa using h)] at hfilter
  exact hfilter

/-- A key that is written to a table is in every table that the written one is within. -/
theorem Within.contains_of_put {v : α} (h : (s.put k v).Within t) : t.contains k = true :=
  h k (by simp [contains_put])

end Table

/-! ## 2. Buckets -/

namespace BucketIndex

variable {s t u : BucketIndex} {k : BucketKey}

theorem get?_putTouched (k l : BucketKey) (properties : Table Json StyleProperty) :
    (s.putTouched k properties).get? l =
      if key l = key k then some { properties, touched := .int (s.clock + 1) } else s.get? l :=
  Table.get?_put _ _ _ _

/-- Every bucket of an index, and every property of it, is in another one too. -/
structure Within (s t : BucketIndex) : Prop where
  buckets : ∀ k, (s.get? k).isSome → (t.get? k).isSome
  properties : ∀ k, (s.propertiesOf k).Within (t.propertiesOf k)

theorem Within.refl (s : BucketIndex) : s.Within s :=
  ⟨fun _ h => h, fun _ => .refl _⟩

theorem Within.trans (h : s.Within t) (h' : t.Within u) : s.Within u :=
  ⟨fun k hk => h'.buckets k (h.buckets k hk), fun k => (h.properties k).trans (h'.properties k)⟩

theorem within_putTouched {properties : Table Json StyleProperty}
    (h : (s.propertiesOf k).Within properties) : s.Within (s.putTouched k properties) := by
  refine ⟨fun l hl => ?_, fun l => ?_⟩
  · rw [get?_putTouched]
    split
    · rfl
    · exact hl
  · rw [propertiesOf_putTouched]
    split
    · next hlk => rwa [propertiesOf_congr hlk]
    · exact .refl _

theorem within_touch (s : BucketIndex) (k : BucketKey) : s.Within (s.touch k).1 := by
  cases hk : s.get? k with
  | none =>
    rw [touch_of_eq_none hk]
    exact .refl s
  | some b =>
    rw [touch_of_isSome (by simp [hk])]
    exact within_putTouched (.refl _)

/-- A declaration puts a property into a bucket, whether it is added or set. -/
theorem exists_writeOne_eq (ctx : Context) (mode : WriteMode) (k : BucketKey) (s : BucketIndex)
    (d : Declaration) : ∃ p, Cascade.writeOne ctx mode k s d =
      s.putTouched k ((s.propertiesOf k).put (.text (Value.canonicalName d.name)) p) := by
  cases mode with
  | add => exact ⟨_, add_eq _⟩
  | set => exact ⟨_, set_eq _⟩

theorem within_writeOne (ctx : Context) (mode : WriteMode) (k : BucketKey) (s : BucketIndex)
    (d : Declaration) : s.Within (Cascade.writeOne ctx mode k s d) := by
  obtain ⟨p, heq⟩ := exists_writeOne_eq ctx mode k s d
  rw [heq]
  exact within_putTouched (Table.within_put _ _ p)

/-- A declaration that is written is there. -/
theorem contains_writeOne (ctx : Context) (mode : WriteMode) (k : BucketKey) (s : BucketIndex)
    (d : Declaration) : ((Cascade.writeOne ctx mode k s d).get? k).isSome ∧
      ((Cascade.writeOne ctx mode k s d).propertiesOf k).contains
        (.text (Value.canonicalName d.name)) = true := by
  obtain ⟨p, heq⟩ := exists_writeOne_eq ctx mode k s d
  rw [heq, get?_putTouched, propertiesOf_putTouched, if_pos rfl, if_pos rfl]
  exact ⟨rfl, by simp [Table.contains_put]⟩

/-- What grows with every step has grown after all of them. -/
theorem within_foldl {α : Type} {g : BucketIndex → α → BucketIndex}
    (h : ∀ (s : BucketIndex) x, s.Within (g s x)) (xs : List α) (s : BucketIndex) :
    s.Within (xs.foldl g s) := by
  induction xs generalizing s with
  | nil => exact .refl s
  | cons x xs ih => exact (h s x).trans (ih (g s x))

theorem within_writeAll (ctx : Context) (mode : WriteMode) (ds : List Declaration)
    (s : BucketIndex) (k : BucketKey) : s.Within (Cascade.writeAll ctx mode ds s k) := by
  unfold Cascade.writeAll
  split
  · exact s.within_touch k
  · exact within_foldl (within_writeOne ctx mode k) ds s

theorem within_writeKeys (ctx : Context) (mode : WriteMode) (ds : List Declaration)
    (keys : List BucketKey) (s : BucketIndex) :
    s.Within (keys.foldl (Cascade.writeAll ctx mode ds) s) :=
  within_foldl (within_writeAll ctx mode ds) keys s

end BucketIndex

/-! ## 3. Layers -/

namespace LayerRegistry

variable {r r' : LayerRegistry}

/-- Every layer of a registry, and every declared one, is in another registry too. -/
structure Within (r r' : LayerRegistry) : Prop where
  entries : r.entries.Within r'.entries
  declared : ∀ n : Json, r.declared.any n.alike = true → r'.declared.any n.alike = true

theorem Within.refl (r : LayerRegistry) : r.Within r :=
  ⟨.refl _, fun _ h => h⟩

theorem Within.trans {r'' : LayerRegistry} (h : r.Within r') (h' : r'.Within r'') :
    r.Within r'' :=
  ⟨h.entries.trans h'.entries, fun n hn => h'.declared n (h.declared n hn)⟩

theorem within_encounter (r : LayerRegistry) (name : Json) (p : Provenance) :
    r.Within (r.encounter name p) := by
  unfold encounter
  split
  · exact .refl r
  · exact { Within.refl r with entries := Table.within_put _ _ _ }

theorem contains_encounter (r : LayerRegistry) (name : Json) (p : Provenance) :
    (r.encounter name p).entries.contains name = true := by
  unfold encounter
  split
  · next h => exact h
  · simp [Table.contains_put]

theorem within_declareOne (p : Provenance) (r : LayerRegistry) (name : Json) :
    r.Within (declareOne p r name) := by
  refine (r.within_encounter name p).trans ?_
  simp only [declareOne]
  split
  · exact .refl _
  · exact { Within.refl (r.encounter name p) with declared := fun n hn => by simp [hn] }

/-- A layer that is declared is known and has a place. -/
theorem contains_declareOne (p : Provenance) (r : LayerRegistry) (name : Json) :
    (declareOne p r name).entries.contains name = true ∧
      (declareOne p r name).declared.any name.alike = true := by
  simp only [declareOne]
  split
  · next h => exact ⟨r.contains_encounter name p, h⟩
  · exact ⟨r.contains_encounter name p, by simp [Json.alike]⟩

theorem within_declare (r : LayerRegistry) (names : List Json) (p : Provenance) :
    r.Within (r.declare names p) := by
  unfold declare
  induction names generalizing r with
  | nil => exact .refl r
  | cons name names ih => exact (within_declareOne p r name).trans (ih _)

end LayerRegistry

/-! ## 4. Cascades -/

/-- Whether a statement can take something away. -/
def Statement.removes : Statement → Bool
  | .dropToken _ | .deleteToken _ | .dropSelector _ | .deleteStyle .. | .dropStyle _
  | .dropFontFace _ | .dropKeyframes _ | .dropProperty _ | .dropPage _ | .dropCounterStyle _
  | .dropFontFeatureValues _ | .dropFontPaletteValues _ | .dropStartingStyle _ => true
  | _ => false

namespace Cascade

variable {s t u : Cascade} {ctx : Context}

/-- Everything in a cascade that has a key is in another one too, and so is every token that is not
deleted. -/
structure Within (s t : Cascade) : Prop where
  tokens : s.tokens.Within t.tokens
  live : ∀ name, s.hasToken name = true → t.hasToken name = true
  selectors : s.selectors.Within t.selectors
  layers : s.layers.Within t.layers
  buckets : s.buckets.Within t.buckets
  properties : s.properties.Within t.properties
  fontFaces : s.fontFaces.Within t.fontFaces
  keyframes : s.keyframes.Within t.keyframes
  pages : s.pages.Within t.pages
  counterStyles : s.counterStyles.Within t.counterStyles
  fontFeatureValues : s.fontFeatureValues.Within t.fontFeatureValues
  fontPaletteValues : s.fontPaletteValues.Within t.fontPaletteValues
  startingStyles : s.startingStyles.Within t.startingStyles

theorem Within.refl (s : Cascade) : s.Within s where
  tokens := .refl _
  live _ h := h
  selectors := .refl _
  layers := .refl _
  buckets := .refl _
  properties := .refl _
  fontFaces := .refl _
  keyframes := .refl _
  pages := .refl _
  counterStyles := .refl _
  fontFeatureValues := .refl _
  fontPaletteValues := .refl _
  startingStyles := .refl _

theorem Within.trans (h : s.Within t) (h' : t.Within u) : s.Within u where
  tokens := h.tokens.trans h'.tokens
  live name hname := h'.live name (h.live name hname)
  selectors := h.selectors.trans h'.selectors
  layers := h.layers.trans h'.layers
  buckets := h.buckets.trans h'.buckets
  properties := h.properties.trans h'.properties
  fontFaces := h.fontFaces.trans h'.fontFaces
  keyframes := h.keyframes.trans h'.keyframes
  pages := h.pages.trans h'.pages
  counterStyles := h.counterStyles.trans h'.counterStyles
  fontFeatureValues := h.fontFeatureValues.trans h'.fontFeatureValues
  fontPaletteValues := h.fontPaletteValues.trans h'.fontPaletteValues
  startingStyles := h.startingStyles.trans h'.startingStyles

/-- The tokens of a cascade are what they were but for the one that is written. -/
theorem exists_get?_putToken (s : Cascade) (ctx : Context) (name value : Json) :
    ∃ createdAt, ∀ l, (s.putToken ctx name value).tokens.get? l =
      if key l = key name then
        some { value, provenance := ctx.provenance, createdAt, updatedAt := .text ctx.now }
      else s.tokens.get? l := by
  unfold putToken
  cases hname : s.tokens.get? name with
  | none => exact ⟨_, fun l => Table.get?_put _ _ _ _⟩
  | some old =>
    refine ⟨old.createdAt, fun l => ?_⟩
    by_cases hdeleted : old.deleted.isTrue = true
    · simp only [hdeleted, if_true, Table.get?_put]
      by_cases hl : key l = key name
      · simp only [hl, if_true]
      · simp only [hl, if_false]
        exact Table.get?_erase_of_ne hl _
    · simp only [hdeleted, Bool.false_eq_true, if_false, Table.get?_put]

/-- A token that is not deleted is written in its place. -/
theorem exists_putToken_eq {name : Json} (h : s.hasToken name = true) (ctx : Context)
    (value : Json) : ∃ createdAt, s.putToken ctx name value = { s with
      tokens := s.tokens.put name
        { value, provenance := ctx.provenance, createdAt, updatedAt := .text ctx.now } } := by
  cases hold : s.tokens.get? name with
  | none => simp [hasToken, hold] at h
  | some old =>
    have hlive : old.deleted.isTrue = false := by simpa [hasToken, hold] using h
    exact ⟨old.createdAt, by simp [putToken, hold, hlive]⟩

/-- A token is there and not deleted once it is written, and so are those that were. -/
theorem hasToken_putToken (s : Cascade) (ctx : Context) (name value l : Json) :
    (s.putToken ctx name value).hasToken l = (decide (key l = key name) || s.hasToken l) := by
  obtain ⟨createdAt, hget⟩ := s.exists_get?_putToken ctx name value
  rw [hasToken, hget]
  split
  · next hl => simp [hl, Json.isTrue]
  · next hl => simp [hl, hasToken]

theorem within_referenceSelector (s : Cascade) (ctx : Context) (name : Json) :
    s.Within (s.referenceSelector ctx name) := by
  unfold referenceSelector
  split
  · exact .refl s
  · exact { Within.refl s with selectors := Table.within_put _ _ _ }

theorem contains_referenceSelector (s : Cascade) (ctx : Context) (name : Json) :
    (s.referenceSelector ctx name).selectors.contains name = true := by
  unfold referenceSelector
  split
  · next h => exact h
  · simp [Table.contains_put]

theorem within_mentions (names : List String) (p : Context × Cascade) :
    p.2.Within (names.foldl mention p).2 := by
  induction names generalizing p with
  | nil => exact .refl p.2
  | cons name names ih =>
    exact (p.2.within_referenceSelector p.1 (.text name)).trans (ih (mention p name))

theorem within_writeStyle {after : Context} {target : StyleTarget} {mode : WriteMode}
    {ds : List Declaration} (h : s.writeStyle ctx target mode ds = .ok (after, t)) :
    s.Within t := by
  simp only [writeStyle, bind_eq_ok, pure_eq_ok, Prod.mk.injEq] at h
  obtain ⟨wrappers, -, rfl, rfl⟩ := h
  refine (within_mentions (selectorsOf target) (ctx, s)).trans ?_
  exact { Within.refl _ with buckets := BucketIndex.within_writeKeys ctx mode ds _ _ }

theorem within_putToken (s : Cascade) (ctx : Context) (name value : Json) :
    s.Within (s.putToken ctx name value) := by
  obtain ⟨createdAt, hget⟩ := s.exists_get?_putToken ctx name value
  refine { Within.refl s with tokens := fun l hl => ?_, live := fun l hl => ?_ }
  · rw [Table.contains, hget]
    split
    · rfl
    · exact hl
  · simp [hasToken_putToken, hl]

/-- A statement that removes nothing keeps every key, and deletes no token. -/
theorem within_step {stmt : Statement} (hkeeps : stmt.removes = false) {next : Context}
    (h : step ctx s stmt = .ok (next, t)) : s.Within t := by
  cases stmt with
  | createStyle target ds | alterStyle target mode ds => exact within_writeStyle h
  | createToken name value =>
    obtain ⟨rfl, rfl⟩ := Prod.mk.inj (Except.ok.inj h)
    exact s.within_putToken ctx _ _
  | createSelector name definition =>
    obtain ⟨rfl, rfl⟩ := Prod.mk.inj (Except.ok.inj h)
    exact { Within.refl s with selectors := Table.within_put _ _ _ }
  | createLayers names =>
    obtain ⟨rfl, rfl⟩ := Prod.mk.inj (Except.ok.inj h)
    exact { Within.refl s with layers := s.layers.within_declare _ _ }
  | setLayer name =>
    obtain ⟨rfl, rfl⟩ := Prod.mk.inj (Except.ok.inj h)
    exact { Within.refl s with layers := s.layers.within_encounter _ _ }
  | createFontFace family ds =>
    obtain ⟨rfl, rfl⟩ := Prod.mk.inj (Except.ok.inj h)
    exact { Within.refl s with fontFaces := Table.within_put _ _ _ }
  | createKeyframes name frames =>
    obtain ⟨rfl, rfl⟩ := Prod.mk.inj (Except.ok.inj h)
    exact { Within.refl s with keyframes := Table.within_put _ _ _ }
  | createProperty name ds =>
    obtain ⟨rfl, rfl⟩ := Prod.mk.inj (Except.ok.inj h)
    exact { Within.refl s with properties := Table.within_put _ _ _ }
  | createPage ds pseudo =>
    obtain ⟨rfl, rfl⟩ := Prod.mk.inj (Except.ok.inj h)
    exact { Within.refl s with pages := Table.within_put _ _ _ }
  | createCounterStyle name ds =>
    obtain ⟨rfl, rfl⟩ := Prod.mk.inj (Except.ok.inj h)
    exact { Within.refl s with counterStyles := Table.within_put _ _ _ }
  | createFontFeatureValues family ds =>
    obtain ⟨rfl, rfl⟩ := Prod.mk.inj (Except.ok.inj h)
    exact { Within.refl s with fontFeatureValues := Table.within_put _ _ _ }
  | createFontPaletteValues name ds =>
    obtain ⟨rfl, rfl⟩ := Prod.mk.inj (Except.ok.inj h)
    exact { Within.refl s with fontPaletteValues := Table.within_put _ _ _ }
  | createStartingStyle selector ds =>
    obtain ⟨rfl, rfl⟩ := Prod.mk.inj (Except.ok.inj h)
    refine (s.within_referenceSelector ctx (.text selector)).trans ?_
    exact { Within.refl (s.referenceSelector ctx (.text selector)) with
      startingStyles := Table.within_put _ _ _ }
  | setSpacing _ | raw _ | imports _ _ _ | selectStyles _ _ | describeSelector _ | begin | commit
  | rollback =>
    obtain ⟨rfl, rfl⟩ := Prod.mk.inj (Except.ok.inj h)
    exact { Within.refl s with }
  | _ => cases hkeeps

theorem within_build {stmts : List Statement} (hkeeps : ∀ stmt ∈ stmts, stmt.removes = false)
    (h : build ctx s stmts = .ok t) : s.Within t := by
  induction stmts generalizing ctx s with
  | nil =>
    obtain rfl : s = t := Except.ok.inj h
    exact .refl s
  | cons stmt stmts ih =>
    obtain ⟨hstmt, hkeeps⟩ := List.forall_mem_cons.1 hkeeps
    obtain ⟨next, v, hstep, hrest⟩ := exists_of_build_cons h
    exact (within_step hstmt hstep).trans (ih hkeeps hrest)

theorem within_files {files : List (List Statement)}
    (hkeeps : ∀ stmts ∈ files, ∀ stmt ∈ stmts, stmt.removes = false)
    (h : files.foldlM (build {}) s = .ok t) : s.Within t := by
  refine foldlM_keeps (P := fun v => s.Within v) ?_ (.refl s) h
  intro stmts hstmts v w hv hbuild
  exact hv.trans (within_build (hkeeps stmts hstmts) hbuild)

end Cascade

end StyleLedger
