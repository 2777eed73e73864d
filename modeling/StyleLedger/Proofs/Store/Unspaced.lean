import Mathlib.Data.List.Find
import StyleLedger.Proofs.Cascade.Unspaced
import StyleLedger.Proofs.Digest
import StyleLedger.Proofs.Source.Evaluation
import StyleLedger.Proofs.Store.Persisted
import StyleLedger.Proofs.Store.Regrouped

/-!
A forced spacing mode hides every statement that sets one.

The spacing mode of a property has a column of its own, which may stay empty and which nothing is
looked up by. So the cascade of some rows without this column is the cascade of the rows without its
modes (`Snapshot.toCascade_unspaced`), and the store takes in the rows with it or without
(`Snapshot.Fits.check_unspaced`). Two lists of files that differ in their spacing statements only
lead to stores that differ in this column only, and under a forced mode to one style sheet
(`compileFiles_eq_of_isForced`), directly and through a store.

* `Row.unspaced`, `Snapshot.unspaced`, `Store.unspaced` — without the column.
* `FileOfStatements.unspaced` — a file without its spacing statements.
* `Cascade.compileFiles`, `Store.compileFiles` — the style sheet of some files.
-/

namespace StyleLedger

open Outcome

/-! ## 1. Rows -/

/-- A cell without what it says of the spacing mode. -/
def Row.unspacedCell (c : String × Json) : String × Json :=
  if c.1 = "spacing_mode" then (c.1, .null) else c

/-- A row without its spacing mode. -/
def Row.unspaced (r : Row) : Row :=
  ⟨r.cells.map Row.unspacedCell⟩

theorem Row.get_unspaced (r : Row) (column : String) :
    r.unspaced.get column = if column = "spacing_mode" then .null else r.get column := by
  have hlookup : ∀ cells : List (String × Json),
      Json.optional column (cells.map Row.unspacedCell) =
        if column = "spacing_mode" then .null else Json.optional column cells := by
    intro cells
    induction cells with
    | nil => simp [Json.optional, Json.field?, Table.lookup]
    | cons c cells ih =>
      simp only [Json.optional, Json.field?] at ih ⊢
      by_cases hspacing : c.1 = "spacing_mode" <;> by_cases hcolumn : c.1 = column <;>
        simp_all [Table.lookup, Row.unspacedCell]
  exact hlookup r.cells

/-- Every other column is as it was. -/
theorem Row.get_unspaced_of_ne (r : Row) {column : String} (h : column ≠ "spacing_mode") :
    r.unspaced.get column = r.get column := by
  rw [Row.get_unspaced, if_neg h]

@[simp] theorem Row.id_unspaced (r : Row) : r.unspaced.id = r.id :=
  r.get_unspaced_of_ne (by decide)

/-- The column may stay empty, and points nowhere. -/
theorem Schema.spacing_column : ∀ c ∈ Schema.styles.columns, c.name = "spacing_mode" →
    c = .optional "spacing_mode" := by
  decide

theorem Schema.Fits.unspaced {r : Row} (h : Schema.styles.Fits r) :
    Schema.styles.Fits r.unspaced := by
  constructor
  · calc r.unspaced.cells
      _ = (Schema.styles.columns.map fun c => (c.name, r.get c.name)).map Row.unspacedCell :=
        congrArg (List.map Row.unspacedCell) h.cells
      _ = Schema.styles.columns.map fun c => (c.name, r.unspaced.get c.name) := by
        rw [List.map_map]
        refine List.map_congr_left fun c _ => ?_
        simp only [Function.comp_apply, Row.unspacedCell, Row.get_unspaced]
        split <;> rfl
  · intro c hc
    rw [Row.get_unspaced]
    split
    · next hname =>
      rw [Schema.spacing_column c hc hname]
      exact Json.isWord_null
    · exact h.kinds c hc

namespace Snapshot

/-- The rows without the spacing modes. -/
def unspaced (s : Snapshot) : Snapshot :=
  { s with styles := s.styles.map Row.unspaced }

theorem styleRow_unspaced (k : BucketKey) (touched name : Json) (p : StyleProperty) :
    styleRow k touched name p.unspaced = (styleRow k touched name p).unspaced := by
  simp [styleRow, Row.unspaced, Row.unspacedCell, descriptorCells, StyleProperty.unspaced]

/-- The rows of a cascade without its modes. -/
theorem ofCascade_unspaced (s : Cascade) (log : List LogEntry) :
    ofCascade s.unspaced log = (ofCascade s log).unspaced := by
  have hrows : ∀ e : BucketKey × Bucket,
      styleRows e.1 e.2.unspaced = (styleRows e.1 e.2).map Row.unspaced := by
    intro e
    simp only [styleRows, Bucket.unspaced, Table.map, List.map_map, Function.comp_def,
      styleRow_unspaced]
  have hstyles : (s.unspaced.buckets.buckets.entries.flatMap fun e => styleRows e.1 e.2) =
      (s.buckets.buckets.entries.flatMap fun e => styleRows e.1 e.2).map Row.unspaced := by
    simp only [Cascade.unspaced, BucketIndex.unspaced, Table.map, List.flatMap_map,
      List.map_flatMap, hrows]
  simp only [ofCascade, unspaced, hstyles]
  rfl

theorem checkCascade_unspaced (s : Cascade) : checkCascade s.unspaced = checkCascade s := by
  have hbuckets : (s.unspaced.buckets.buckets.entries.all fun e => isNamedBucket e.1 e.2) =
      s.buckets.buckets.entries.all fun e => isNamedBucket e.1 e.2 := by
    have hnamed : ∀ (k : BucketKey) (b : Bucket),
        isNamedBucket k b.unspaced = isNamedBucket k b := fun k b => by
      simp [isNamedBucket, Bucket.unspaced]
    simp only [Cascade.unspaced, BucketIndex.unspaced, Table.map, List.all_map, Function.comp_def,
      hnamed]
  simp only [checkCascade, hbuckets]
  rfl

/-! ## 2. The cascade of some rows -/

theorem keyOf_unspaced (S L : Table Json Json) (r : Row) (selector : Json) :
    keyOf S L r.unspaced selector = keyOf S L r selector := by
  simp [keyOf, descriptorColumns, Row.get_unspaced]

theorem propertyOf_unspaced (r : Row) : propertyOf r.unspaced = (propertyOf r).unspaced := by
  simp [propertyOf, StyleProperty.unspaced, Row.get_unspaced]

/-- A row goes to the same bucket, with or without its mode. -/
theorem addStyle_unspaced (S L : Table Json Json) (t : Table BucketKey Bucket) (r : Row) :
    addStyle S L (t.map .unspaced) r.unspaced = (addStyle S L t r).map (Table.map .unspaced) := by
  have hget : ∀ column, column ≠ "spacing_mode" → r.unspaced.get column = r.get column :=
    fun _ => r.get_unspaced_of_ne
  unfold addStyle
  rw [hget "selector_id" (by decide)]
  cases nameAt? S (r.get "selector_id") with
  | error e => rfl
  | ok name? =>
    simp only [bind, Except.bind]
    split
    · rfl
    · rfl
    · simp only [keyOf_unspaced, hget "prop" (by decide)]
      cases keyOf S L r _ with
      | error e => rfl
      | ok k =>
        cases keyCell (r.get "prop") with
        | error e => rfl
        | ok name =>
          have hput : ∀ b : Bucket,
              (t.map .unspaced).put k { b.unspaced with
                properties := putRow b.unspaced.properties (name, propertyOf r.unspaced) } =
              (t.put k { b with properties := putRow b.properties (name, propertyOf r) }).map
                .unspaced := by
            intro b
            rw [Table.map_put, propertyOf_unspaced]
            simp only [Bucket.unspaced, Table.map_putRow]
          dsimp only
          rw [Table.get?_map, hget "touched" (by decide)]
          cases t.get? k with
          | some b => exact congrArg Except.ok (hput b)
          | none =>
            cases timeCell (r.get "touched") with
            | error e => rfl
            | ok touched => exact congrArg Except.ok (hput { touched })

theorem bucketIndex_unspaced (S L : Table Json Json) (rows : List Row) :
    bucketIndex S L (rows.map Row.unspaced) = (bucketIndex S L rows).map .unspaced := by
  have hrows : (rows.map Row.unspaced).foldlM (addStyle S L) {} =
      (rows.foldlM (addStyle S L) {}).map (Table.map .unspaced) :=
    foldlM_map (P := fun _ => True) (s := {}) (fun r _ t _ => addStyle_unspaced S L t r)
      (fun _ _ _ _ _ _ => trivial) trivial
  have hrestore : ∀ (es : List (BucketKey × Bucket)) (index : BucketIndex),
      (es.map fun e => (e.1, e.2.unspaced)).foldl (fun index e => index.restore e.1 e.2)
        index.unspaced = (es.foldl (fun index e => index.restore e.1 e.2) index).unspaced := by
    intro es index
    rw [List.foldl_map]
    refine List.foldl_hom BucketIndex.unspaced fun index e => ?_
    simp only [BucketIndex.restore, BucketIndex.unspaced, Table.map_put]
    rfl
  unfold bucketIndex
  rw [hrows]
  cases rows.foldlM (addStyle S L) {} with
  | error e => rfl
  | ok buckets => exact congrArg Except.ok (hrestore buckets.entries {})

/-- The cascade of rows without the modes is the one without its modes. -/
theorem toCascade_unspaced (s : Snapshot) :
    s.unspaced.toCascade = s.toCascade.map Cascade.unspaced := by
  have hmap : ∀ {α β : Type} (f : α → β) (x : Except ShapeError α), x.map f = f <$> x :=
    fun _ _ => rfl
  simp only [toCascade, unspaced, bucketIndex_unspaced, hmap, map_bind, bind_map_left, map_pure]
  rfl

/-! ## 3. Saving -/

theorem checkStorable_unspaced {r : Row} (h : Schema.styles.Fits r) (columns : List Column) :
    ∀ position, checkStorable r.unspaced position columns = checkStorable r position columns := by
  have hcell : ∀ column, (r.unspaced.get column).unstorable? = (r.get column).unstorable? := by
    intro column
    rw [Row.get_unspaced]
    split
    · next hname =>
      rw [hname]
      rcases h.word "spacing_mode" (by decide) with hnull | ⟨mode, hmode⟩
      · rw [hnull]
      · rw [hmode]
        rfl
    · rfl
  induction columns with
  | nil => exact fun _ => rfl
  | cons c columns ih =>
    intro position
    simp only [checkStorable, hcell, ih]

/-- Neither of the checks that look at single columns cares for the mode. -/
theorem checkRow_unspaced {r : Row} (h : Schema.styles.Fits r) (targets : Targets)
    (taken : List Json) : checkRow Schema.styles targets taken r.unspaced =
      checkRow Schema.styles targets taken r := by
  have hfilled : ∀ c ∈ Schema.styles.columns,
      (c.required && (r.unspaced.get c.name).isNull) = (c.required && (r.get c.name).isNull) := by
    intro c hc
    rw [Row.get_unspaced]
    split
    · next hname => rw [Schema.spacing_column c hc hname]; rfl
    · rfl
  have hpoints : ∀ c ∈ Schema.styles.columns,
      pointsInto targets r.unspaced c = pointsInto targets r c := by
    intro c hc
    by_cases hname : c.name = "spacing_mode"
    · rw [Schema.spacing_column c hc hname]
      rfl
    · simp only [pointsInto, r.get_unspaced_of_ne hname]
  simp only [checkRow, h.store_eq, h.unspaced.store_eq, checkStorable_unspaced h, checkFilled,
    Row.id_unspaced]
  have hall : Schema.styles.columns.all (pointsInto targets r.unspaced) =
      Schema.styles.columns.all (pointsInto targets r) := by
    rw [Bool.eq_iff_iff, List.all_eq_true, List.all_eq_true]
    exact forall₂_congr fun c hc => by rw [hpoints c hc]
  rw [List.find?_congr hfilled, hall]

theorem checkRows_unspaced (targets : Targets) {rows : List Row}
    (h : ∀ r ∈ rows, Schema.styles.Fits r) (taken : List Json) :
    checkRows Schema.styles targets taken (rows.map Row.unspaced) =
      checkRows Schema.styles targets taken rows := by
  induction rows generalizing taken with
  | nil => rfl
  | cons r rows ih =>
    obtain ⟨hr, hrows⟩ := List.forall_mem_cons.1 h
    simp only [List.map_cons, checkRows, checkRow_unspaced hr, hr.store_eq, hr.unspaced.store_eq,
      Row.id_unspaced, ih hrows]

variable {s : Snapshot}

theorem Fits.styles (h : s.Fits) : ∀ r ∈ s.styles, Schema.styles.Fits r :=
  h (.styles, s.styles) (by simp [Snapshot.tables])

theorem Fits.unspaced (h : s.Fits) : s.unspaced.Fits := by
  have hstyles : ∀ r ∈ s.unspaced.styles, Schema.styles.Fits r := by
    intro r hr
    obtain ⟨r, hmem, rfl⟩ := List.mem_map.1 hr
    exact (h.styles r hmem).unspaced
  obtain ⟨htokens, hselectors, hlayers, -, hrest⟩ := List.forall_iff_forall_mem.2 h
  exact List.forall_iff_forall_mem.1 ⟨htokens, hselectors, hlayers, hstyles, hrest⟩

/-- The store takes rows in with their modes exactly when it does without. -/
theorem Fits.check_unspaced (h : s.Fits) : s.unspaced.check = s.check := by
  simp only [Snapshot.check, Snapshot.tables, List.forM_eq_forM, List.forM_cons]
  have htargets : s.unspaced.targets = s.targets := rfl
  rw [htargets]
  simp only [Snapshot.unspaced, checkRows_unspaced _ h.styles]

end Snapshot

namespace Store

def unspaced (store : Store) : Store :=
  { store with content := store.content.unspaced }

theorem save_unspaced (store : Store) {s : Snapshot} (h : s.Fits) :
    store.unspaced.save s.unspaced = (store.save s).map unspaced := by
  unfold save
  rw [h.check_unspaced, h.unspaced.stored_eq, h.stored_eq]
  cases s.check <;> rfl

theorem compile_unspaced {config : CompilerConfig} (h : config.IsForced) (store : Store) :
    store.unspaced.compile config = store.compile config := by
  have hload : store.unspaced.load.toCascade = store.load.toCascade.map Cascade.unspaced :=
    Snapshot.toCascade_unspaced store.load
  rw [compile, compile, hload]
  cases store.load.toCascade with
  | error e => rfl
  | ok s => exact Cascade.compile_unspaced h s

/-! ## 4. Files -/

/-- A store holds rows that fit after a file of plain statements. -/
theorem fits_apply {store next : Store} (h : store.content.Fits) {o : Occasion}
    {stmts : List Statement} (hplain : ∀ stmt ∈ stmts, stmt.IsPlain)
    (happly : store.apply o stmts = .ok next) : next.content.Fits := by
  simp only [apply, save, bind_eq_ok, mapError_eq_ok, pure_eq_ok] at happly
  obtain ⟨s, hload, t, hbuild, -, -, -, -, rfl⟩ := happly
  have hfits := Snapshot.fits_ofCascade ((h.isTyped hload).build hplain hbuild) store.log
  rw [hfits.stored_eq]
  exact hfits

/-- A file without its spacing statements does to a store without modes what the file does to the
store. -/
theorem apply_unspaced {store : Store} (h : store.content.Fits) (o : Occasion)
    {stmts : List Statement} (hplain : ∀ stmt ∈ stmts, stmt.IsPlain) :
    store.unspaced.apply o (stmts.filter (!·.setsSpacing)) =
      (store.apply o stmts).map unspaced := by
  have hload : store.unspaced.load.toCascade = store.load.toCascade.map Cascade.unspaced :=
    Snapshot.toCascade_unspaced store.load
  simp only [apply, hload]
  cases hs : store.load.toCascade with
  | error e => rfl
  | ok s =>
    have hbuild : Cascade.build o.context s.unspaced (stmts.filter (!·.setsSpacing)) =
        (Cascade.build o.context s stmts).map Cascade.unspaced :=
      Cascade.build_unspaced stmts o.context s
    simp only [Except.map, Except.mapError, bind, Except.bind, hbuild]
    cases ht : Cascade.build o.context s stmts with
    | error e => rfl
    | ok t =>
      have hfits : (Snapshot.ofCascade t store.log).Fits :=
        Snapshot.fits_ofCascade ((h.isTyped hs).build hplain ht) store.log
      have hsave := store.save_unspaced hfits
      rw [← Snapshot.ofCascade_unspaced] at hsave
      have hlog : store.unspaced.log = store.log := rfl
      simp only [Snapshot.checkCascade_unspaced, hlog, hsave]
      cases Snapshot.checkCascade t with
      | error e => rfl
      | ok _ => cases store.save (Snapshot.ofCascade t store.log) <;> rfl

end Store

/-- A file without its spacing statements. -/
def FileOfStatements.unspaced (f : FileOfStatements) : FileOfStatements :=
  { f with statements := f.statements.filter (!·.setsSpacing) }

theorem Cascade.buildFiles_unspaced (s : Cascade) (files : List FileOfStatements) :
    s.unspaced.buildFiles (files.map .unspaced) = (s.buildFiles files).map unspaced :=
  foldlM_map (P := fun _ => True)
    (fun f _ s _ => build_unspaced f.statements f.direct.context s)
    (fun _ _ _ _ _ _ => trivial) trivial

theorem Store.applyFiles_unspaced {store : Store} (h : store.content.Fits)
    {files : List FileOfStatements} (hplain : ∀ f ∈ files, ∀ stmt ∈ f.statements, stmt.IsPlain) :
    store.unspaced.applyFiles (files.map .unspaced) = (store.applyFiles files).map unspaced :=
  foldlM_map (P := fun store => store.content.Fits)
    (fun f hf _ hfits => apply_unspaced hfits f.persisted (hplain f hf))
    (fun f hf _ _ hfits => fits_apply hfits (hplain f hf)) h

/-- The style sheet of some files that are applied to one cascade. -/
def Cascade.compileFiles (config : CompilerConfig) (files : List FileOfStatements) :
    Except Failure String := do
  let s ← (Cascade.buildFiles {} files).mapError .composition
  (s.compile config).mapError .shape

/-- The style sheet of some files that reach a store one at a time. -/
def Store.compileFiles (config : CompilerConfig) (files : List FileOfStatements) :
    Except Failure String := do
  let store ← Store.applyFiles {} files
  (store.compile config).mapError .shape

section Forced

variable {config : CompilerConfig} (hforced : config.IsForced)
  {files files' : List FileOfStatements}

include hforced

/-- Under a forced mode some files have the style sheet that they have without their spacing
statements. -/
theorem Cascade.compileFiles_unspaced :
    Cascade.compileFiles config (files.map .unspaced) = Cascade.compileFiles config files := by
  have hbuild : Cascade.buildFiles {} (files.map .unspaced) =
      (Cascade.buildFiles {} files).map unspaced := buildFiles_unspaced {} files
  rw [compileFiles, compileFiles, hbuild]
  cases Cascade.buildFiles {} files with
  | error e => rfl
  | ok s => exact congrArg (Except.mapError Failure.shape) (Cascade.compile_unspaced hforced s)

theorem Store.compileFiles_unspaced
    (hplain : ∀ f ∈ files, ∀ stmt ∈ f.statements, stmt.IsPlain) :
    Store.compileFiles config (files.map .unspaced) = Store.compileFiles config files := by
  have hfits : ({} : Store).content.Fits := Snapshot.fits_ofCascade Cascade.isTyped_empty []
  have happly : Store.applyFiles {} (files.map .unspaced) =
      (Store.applyFiles {} files).map unspaced := applyFiles_unspaced hfits hplain
  rw [compileFiles, compileFiles, happly]
  cases Store.applyFiles {} files with
  | error e => rfl
  | ok store =>
    exact congrArg (Except.mapError Failure.shape) (Store.compile_unspaced hforced store)

/-- Under a forced mode, files of parsed statements that are the same but for the statements that
set the mode have one style sheet, or fail in one way, when they are applied to one cascade and
when they reach a store. -/
theorem compileFiles_eq_of_isForced
    (hparsed : ∀ f ∈ files, ∃ source strict, Source.parse source strict = .ok f.statements)
    (hparsed' : ∀ f ∈ files', ∃ source strict, Source.parse source strict = .ok f.statements)
    (hsame : files.map FileOfStatements.unspaced = files'.map FileOfStatements.unspaced) :
    Cascade.compileFiles config files = Cascade.compileFiles config files' ∧
      Store.compileFiles config files = Store.compileFiles config files' := by
  have hplain : ∀ {files : List FileOfStatements},
      (∀ f ∈ files, ∃ source strict, Source.parse source strict = .ok f.statements) →
        ∀ f ∈ files, ∀ stmt ∈ f.statements, stmt.IsPlain := by
    intro files hparsed f hf
    obtain ⟨source, strict, hparse⟩ := hparsed f hf
    exact Source.isPlain_of_parse hparse
  constructor
  · rw [← Cascade.compileFiles_unspaced hforced, hsame, Cascade.compileFiles_unspaced hforced]
  · rw [← Store.compileFiles_unspaced hforced (hplain hparsed), hsame,
      Store.compileFiles_unspaced hforced (hplain hparsed')]

end Forced

/-- The selector and the declarations of a style that has neither a condition nor a scope. -/
def Statement.style? : Statement → Option (String × List Declaration)
  | createStyle ⟨selector, none, none, none⟩ declarations => some (selector, declarations)
  | _ => none

theorem Statement.eq_of_style? {stmt stmt' : Statement} {parts} (h : stmt.style? = some parts)
    (h' : stmt'.style? = some parts) : stmt = stmt' := by
  unfold style? at h h'
  split at h
  · split at h'
    · cases h
      cases h'
      rfl
    · cases h'
  · cases h

/-- A style that is written while a mode is in force, and one that is written before another mode
is: the sizes of the two differ unless a third mode is forced. -/
theorem compileFiles_eq_of_isForced_card :
    let config : CompilerConfig := { forcedSpacing := some "medium_spread" }
    ∃ first second,
      Source.parse "SET BUTTER = 'thin_spread'; CREATE STYLE SELECTOR card (margin = BUTTER());"
        false = .ok first ∧
      Source.parse "CREATE STYLE SELECTOR card (margin = BUTTER()); SET BUTTER = 'thick_smear';"
        false = .ok second ∧
      Cascade.compileFiles {} [{ statements := first }] ≠
        Cascade.compileFiles {} [{ statements := second }] ∧
      Cascade.compileFiles config [{ statements := first }] =
        Cascade.compileFiles config [{ statements := second }] ∧
      Cascade.compileFiles config [{ statements := second }] =
        .ok ".card \x7b\n  margin: 12px;\n\x7d\n" ∧
      Store.compileFiles config [{ statements := first }] =
        Store.compileFiles config [{ statements := second }] ∧
      Store.compileFiles config [{ statements := second }] =
        .ok ".card \x7b\n  margin: 12px;\n\x7d\n" := by
  intro config
  let style : String × List Declaration := ("card", [{ name := "margin", value := "BUTTER()" }])
  obtain ⟨⟨_, _⟩, hparse, hfiles⟩ := exists_ok_of_any
    (x := do
      let first ← Source.parse
        "SET BUTTER = 'thin_spread'; CREATE STYLE SELECTOR card (margin = BUTTER());" false
      let second ← Source.parse
        "CREATE STYLE SELECTOR card (margin = BUTTER()); SET BUTTER = 'thick_smear';" false
      return (first, second))
    (p := fun (r : List Statement × List Statement) =>
      decide ((Cascade.compileFiles {} [{ statements := r.1 }]).toOption ≠
        (Cascade.compileFiles {} [{ statements := r.2 }]).toOption ∧
        (Cascade.compileFiles config [{ statements := r.2 }]).toOption =
          some ".card \x7b\n  margin: 12px;\n\x7d\n" ∧
        (Store.compileFiles config [{ statements := r.2 }]).toOption =
          some ".card \x7b\n  margin: 12px;\n\x7d\n") &&
      decide ((r.1.filter (!·.setsSpacing)).map Statement.style? = [some style] ∧
        (r.2.filter (!·.setsSpacing)).map Statement.style? = [some style]))
    (by
      unfold Store.compileFiles Store.applyFiles Store.apply Snapshot.ofCascade Snapshot.selectorRow
        Snapshot.styleRows Snapshot.styleRow Snapshot.selectorId Snapshot.idCell
      rw [Source.parse_ofList, Source.parse_ofList, Identity.entityId_eq]
      decide +kernel)
  simp only [bind_eq_ok, pure_eq_ok, Prod.mk.injEq] at hparse
  obtain ⟨first, hfirst, second, hsecond, rfl, rfl⟩ := hparse
  rw [Bool.and_eq_true, decide_eq_true_eq, decide_eq_true_eq] at hfiles
  obtain ⟨⟨hdiffer, hcss, hstored⟩, hstyle, hstyle'⟩ := hfiles
  -- Without the spacing statement both files consist of one and the same style.
  have hsame : [FileOfStatements.mk first {} {}].map FileOfStatements.unspaced =
      [FileOfStatements.mk second {} {}].map FileOfStatements.unspaced := by
    obtain ⟨stmt, hstmt, hparts⟩ := List.map_eq_singleton_iff.1 hstyle
    obtain ⟨stmt', hstmt', hparts'⟩ := List.map_eq_singleton_iff.1 hstyle'
    rw [List.map_singleton, List.map_singleton, FileOfStatements.unspaced,
      FileOfStatements.unspaced, hstmt, hstmt', Statement.eq_of_style? hparts hparts']
  have hparsed : ∀ {stmts : List Statement} {source : String},
      Source.parse source false = .ok stmts → ∀ f ∈ [FileOfStatements.mk stmts {} {}],
        ∃ source strict, Source.parse source strict = .ok f.statements := by
    intro stmts source hparse f hf
    obtain rfl := List.mem_singleton.1 hf
    exact ⟨_, _, hparse⟩
  have hforced : config.IsForced := ⟨"medium_spread", rfl, by decide⟩
  obtain ⟨hdirect, hpersisted⟩ :=
    compileFiles_eq_of_isForced hforced (hparsed hfirst) (hparsed hsecond) hsame
  exact ⟨first, second, hfirst, hsecond, fun heq => hdiffer (congrArg Except.toOption heq), hdirect,
    eq_ok_of_toOption hcss, hpersisted, eq_ok_of_toOption hstored⟩

end StyleLedger
