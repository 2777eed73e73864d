import StyleLedger.Proofs.Outcome
import StyleLedger.Store.Basic

/-!
Saving as a transaction of single statements.

`Store.save` says what a save comes to: one check of all rows, and then new content or none. A
database does it in small steps. It empties the tables one by one, inserts the rows one by one, each
checked against what has been inserted so far, and adds a row to the log; any of these statements
can be refused when much has been changed already. What has been changed is then rolled back.

The two are the same (`performs_save`, `performs_saveWith`). The reason is the order of the tables.
Tables are emptied before those they point into, so that emptying is never refused whatever the
tables hold (`IsChildFirst`), and filled after those they point into, so that a row meets the
targets that the whole snapshot has (`IsParentFirst`).

* `EntityTable` — the tables, and what a snapshot holds in each.
* `Edit`, `Write` — the statements, each of which changes one table or the log.
* `Connection`, `Action` — a store that is committed, and a working copy that is not yet.
* `Action.transaction` — statements that are committed together or rolled back together.
-/

namespace StyleLedger

open Outcome

/-! ## 1. Tables -/

/-- The tables that hold rows. -/
inductive EntityTable
  | tokens
  | selectors
  | layers
  | styles
  | properties
  | fontFaces
  | keyframes
  | rawBlocks
  | imports
  | pages
  | counterStyles
  | fontFeatureValues
  | fontPaletteValues
  | startingStyles
deriving DecidableEq

namespace EntityTable

def schema : EntityTable → Schema
  | tokens => .tokens
  | selectors => .selectors
  | layers => .layers
  | styles => .styles
  | properties => .properties
  | fontFaces => .fontFaces
  | keyframes => .keyframes
  | rawBlocks => .rawBlocks
  | imports => .imports
  | pages => .pages
  | counterStyles => .counterStyles
  | fontFeatureValues => .fontFeatureValues
  | fontPaletteValues => .fontPaletteValues
  | startingStyles => .startingStyles

/-- The rows of a table. -/
def rows : EntityTable → Snapshot → List Row
  | tokens, s => s.tokens
  | selectors, s => s.selectors
  | layers, s => s.layers
  | styles, s => s.styles
  | properties, s => s.properties
  | fontFaces, s => s.fontFaces
  | keyframes, s => s.keyframes
  | rawBlocks, s => s.rawBlocks
  | imports, s => s.imports
  | pages, s => s.pages
  | counterStyles, s => s.counterStyles
  | fontFeatureValues, s => s.fontFeatureValues
  | fontPaletteValues, s => s.fontPaletteValues
  | startingStyles, s => s.startingStyles

/-- A snapshot with other rows in a table. -/
def setRows : EntityTable → List Row → Snapshot → Snapshot
  | tokens, rs, s => { s with tokens := rs }
  | selectors, rs, s => { s with selectors := rs }
  | layers, rs, s => { s with layers := rs }
  | styles, rs, s => { s with styles := rs }
  | properties, rs, s => { s with properties := rs }
  | fontFaces, rs, s => { s with fontFaces := rs }
  | keyframes, rs, s => { s with keyframes := rs }
  | rawBlocks, rs, s => { s with rawBlocks := rs }
  | imports, rs, s => { s with imports := rs }
  | pages, rs, s => { s with pages := rs }
  | counterStyles, rs, s => { s with counterStyles := rs }
  | fontFeatureValues, rs, s => { s with fontFeatureValues := rs }
  | fontPaletteValues, rs, s => { s with fontPaletteValues := rs }
  | startingStyles, rs, s => { s with startingStyles := rs }

/-- The order in which tables are filled. -/
def fillOrder : List EntityTable :=
  [tokens, selectors, layers, styles, properties, fontFaces, keyframes, rawBlocks, imports, pages,
    counterStyles, fontFeatureValues, fontPaletteValues, startingStyles]

/-- The order in which tables are emptied. -/
def clearOrder : List EntityTable :=
  [styles, startingStyles, tokens, selectors, layers, properties, fontFaces, keyframes, rawBlocks,
    imports, pages, counterStyles, fontFeatureValues, fontPaletteValues]

/-- The table that columns with a target point into. -/
def ofTarget : Target → EntityTable
  | .selectors => selectors
  | .layers => layers

/-- Whether some column of a table points into another. -/
def pointsInto (u t : EntityTable) : Bool :=
  u.schema.columns.any fun c => c.target.any (ofTarget · = t)

variable {s : Snapshot} {t u : EntityTable} {rs : List Row}

@[simp] theorem rows_setRows_self : t.rows (t.setRows rs s) = rs := by
  cases t <;> rfl

theorem rows_setRows_of_ne (h : u ≠ t) : u.rows (t.setRows rs s) = u.rows s := by
  cases t <;> cases u <;> first | rfl | exact absurd rfl h

theorem setRows_setRows (rs' : List Row) : t.setRows rs (t.setRows rs' s) = t.setRows rs s := by
  cases t <;> rfl

theorem setRows_rows : t.setRows (t.rows s) s = s := by
  cases t <;> rfl

theorem mem_fillOrder (t : EntityTable) : t ∈ fillOrder := by
  cases t <;> decide

end EntityTable

/-! ## 2. Statements -/

/-- The identifiers that a table has now. -/
def Snapshot.ids (s : Snapshot) (t : EntityTable) : List Json :=
  (t.rows s).map (·.id)

/-- The identifiers that a new row may point at now. -/
def Snapshot.currentTargets (s : Snapshot) : Targets :=
  { selectors := s.ids .selectors, layers := s.ids .layers }

/-- Whether a row of some table points at a row of a table. -/
def Snapshot.isPointedAt (s : Snapshot) (t : EntityTable) : Bool :=
  EntityTable.fillOrder.any fun u => (u.rows s).any fun r => u.schema.columns.any fun c =>
    c.target.any fun target => EntityTable.ofTarget target = t &&
      !(r.get c.name).isNull && (s.ids t).contains (r.get c.name)

/-- The row of an entry. -/
def LogEntry.toRow (e : LogEntry) : Row :=
  ⟨[("migration_id", .text e.migrationId), ("filename", .text e.filename),
    ("direction", .text e.direction), ("checksum", .text e.checksum),
    ("applied_at", .text e.appliedAt), ("duration_ms", .int 0), ("status", .text e.status)]⟩

/-- A statement that changes a table. -/
inductive Edit
  /-- Removes all rows of a table. -/
  | clear (t : EntityTable)
  /-- Adds a row to a table. -/
  | insert (t : EntityTable) (r : Row)

/-- What a statement makes of the content. Rows that others point at are not removed; a new row is
checked against the rows that are there. -/
def Edit.run (s : Snapshot) : Edit → Except Violation Snapshot
  | clear t => if s.isPointedAt t then .error .dangling else .ok (t.setRows [] s)
  | insert t r => do
    checkRow t.schema s.currentTargets (s.ids t) r
    return t.setRows (t.rows s ++ [t.schema.store r]) s

/-- The statements that replace all rows. -/
def Snapshot.replacement (s : Snapshot) : List Edit :=
  EntityTable.clearOrder.map .clear ++
    EntityTable.fillOrder.flatMap fun t => (t.rows s).map (.insert t)

/-! ## 3. Emptying tables -/

/-- Whether every table comes after those that point into it; `done` are empty already. -/
def isChildFirst (done : List EntityTable) : List EntityTable → Bool
  | [] => true
  | t :: ts =>
    EntityTable.fillOrder.all (fun u => !u.pointsInto t || done.contains u) &&
      isChildFirst (t :: done) ts

/-- Rows without references into a table do not point at its rows. -/
theorem isPointedAt_of_empty {s : Snapshot} {t : EntityTable}
    (h : ∀ u : EntityTable, u.pointsInto t = true → u.rows s = []) : s.isPointedAt t = false := by
  rw [← Bool.not_eq_true]
  intro hpointed
  simp only [Snapshot.isPointedAt, List.any_eq_true, Option.any_eq_true, Bool.and_eq_true,
    decide_eq_true_eq] at hpointed
  obtain ⟨u, -, r, hr, c, hc, target, htarget, ⟨ht, -⟩, -⟩ := hpointed
  have hinto : u.pointsInto t = true := List.any_eq_true.2
    ⟨c, hc, by simp [htarget, ht]⟩
  rw [h u hinto] at hr
  exact List.not_mem_nil hr

/-- Emptying tables that come after those that point into them is never refused. -/
theorem foldlM_clear {ts done : List EntityTable} (horder : isChildFirst done ts = true)
    {s : Snapshot} (hdone : ∀ u ∈ done, u.rows s = []) :
    (ts.map .clear).foldlM Edit.run s = .ok (ts.foldl (fun s t => t.setRows [] s) s) := by
  induction ts generalizing done s with
  | nil => rfl
  | cons t ts ih =>
    simp only [isChildFirst, Bool.and_eq_true, List.all_eq_true, Bool.or_eq_true,
      List.contains_iff_mem, Bool.not_eq_true'] at horder
    obtain ⟨hchildren, hrest⟩ := horder
    have hpointed : s.isPointedAt t = false := isPointedAt_of_empty fun u hu => by
      rcases hchildren u u.mem_fillOrder with hnot | hmem
      · simp [hu] at hnot
      · exact hdone u hmem
    have hrun : Edit.run s (.clear t) = .ok (t.setRows [] s) := by
      simp [Edit.run, hpointed]
    rw [List.map_cons, foldlM_cons_of_ok hrun]
    refine ih hrest fun u hu => ?_
    by_cases hut : u = t
    · rw [hut, EntityTable.rows_setRows_self]
    · rw [EntityTable.rows_setRows_of_ne hut]
      exact hdone u ((List.mem_cons.1 hu).resolve_left hut)

/-! ## 4. Filling tables -/

/-- Whether every table comes once and after those it points into; `done` are filled already. -/
def isParentFirst (done : List EntityTable) : List EntityTable → Bool
  | [] => true
  | t :: ts =>
    !done.contains t && EntityTable.fillOrder.all (fun u => !t.pointsInto u || done.contains u) &&
      isParentFirst (t :: done) ts

/-- A row is checked against the targets that its columns point at, and against no others. -/
theorem checkRow_congr {t : EntityTable} {targets targets' : Targets}
    (h : ∀ target, t.pointsInto (.ofTarget target) = true → targets.of target = targets'.of target)
    (taken : List Json) (r : Row) :
    checkRow t.schema targets taken r = checkRow t.schema targets' taken r := by
  have hpoints : ∀ r : Row, t.schema.columns.all (pointsInto targets r) =
      t.schema.columns.all (pointsInto targets' r) := by
    intro r
    rw [Bool.eq_iff_iff, List.all_eq_true, List.all_eq_true]
    refine forall₂_congr fun c hc => ?_
    unfold pointsInto
    cases htarget : c.target with
    | none => rfl
    | some target =>
      have hinto : t.pointsInto (.ofTarget target) = true :=
        List.any_eq_true.2 ⟨c, hc, by simp [htarget]⟩
      simp only [h target hinto]
  simp only [checkRow, hpoints]

theorem currentTargets_of (s : Snapshot) (target : Target) :
    s.currentTargets.of target = s.ids (.ofTarget target) := by
  cases target <;> rfl

/-- Inserting the rows of a table one by one checks them one by one. -/
theorem foldlM_insert {t : EntityTable} {targets : Targets} {rows : List Row} {s : Snapshot}
    (h : ∀ target, t.pointsInto (.ofTarget target) = true →
      EntityTable.ofTarget target ≠ t ∧ s.currentTargets.of target = targets.of target) :
    (rows.map (.insert t)).foldlM Edit.run s = (do
      checkRows t.schema targets (s.ids t) rows
      return t.setRows (t.rows s ++ rows.map t.schema.store) s) := by
  induction rows generalizing s with
  | nil =>
    rw [List.map_nil, List.map_nil, List.append_nil, EntityTable.setRows_rows]
    rfl
  | cons r rows ih =>
    rw [List.map_cons, List.foldlM_cons, checkRows, Edit.run,
      checkRow_congr fun target ht => (h target ht).2]
    cases hrow : checkRow t.schema targets (s.ids t) r with
    | error v => rfl
    | ok _ =>
      have hids : Snapshot.ids (t.setRows (t.rows s ++ [t.schema.store r]) s) t =
          s.ids t ++ [(t.schema.store r).id] := by
        simp [Snapshot.ids]
      have htargets : ∀ target, t.pointsInto (.ofTarget target) = true →
          EntityTable.ofTarget target ≠ t ∧
            (t.setRows (t.rows s ++ [t.schema.store r]) s).currentTargets.of target =
              targets.of target := by
        intro target ht
        obtain ⟨hne, htarget⟩ := h target ht
        refine ⟨hne, ?_⟩
        rw [← htarget, currentTargets_of, currentTargets_of, Snapshot.ids,
          EntityTable.rows_setRows_of_ne hne]
        rfl
      show (rows.map (.insert t)).foldlM Edit.run _ = _
      rw [ih htargets, hids, EntityTable.rows_setRows_self, EntityTable.setRows_setRows]
      simp [bind, Except.bind]

/-- The rows of a table as the table holds them. -/
def EntityTable.storedRows (t : EntityTable) (s : Snapshot) : List Row :=
  (t.rows s).map t.schema.store

theorem targets_of (s : Snapshot) (target : Target) :
    s.targets.of target = ((EntityTable.ofTarget target).storedRows s).map (·.id) := by
  cases target <;> rfl

/-- Filling empty tables that come after those they point into checks every row against the
targets of the whole snapshot. -/
theorem foldlM_fill (s : Snapshot) {ts done : List EntityTable}
    (horder : isParentFirst done ts = true) {content : Snapshot}
    (hdone : ∀ u ∈ done, u.rows content = u.storedRows s)
    (hempty : ∀ u : EntityTable, u ∉ done → u.rows content = []) :
    (ts.flatMap fun t => (t.rows s).map (.insert t)).foldlM Edit.run content = (do
      ts.forM fun t => checkRows t.schema s.targets [] (t.rows s)
      return ts.foldl (fun content t => t.setRows (t.storedRows s) content) content) := by
  induction ts generalizing done content with
  | nil => rfl
  | cons t ts ih =>
    simp only [isParentFirst, Bool.and_eq_true, List.all_eq_true, Bool.or_eq_true,
      List.contains_iff_mem, Bool.not_eq_true', ← Bool.not_eq_true] at horder
    obtain ⟨⟨hnew, hparents⟩, hrest⟩ := horder
    have htargets : ∀ target, t.pointsInto (.ofTarget target) = true →
        EntityTable.ofTarget target ≠ t ∧
          content.currentTargets.of target = s.targets.of target := by
      intro target ht
      have hmem := (hparents _ (EntityTable.mem_fillOrder _)).resolve_left fun hnot => hnot ht
      refine ⟨fun heq => hnew (heq ▸ hmem), ?_⟩
      rw [currentTargets_of, targets_of, Snapshot.ids, hdone _ hmem]
    have hrows : t.rows content = [] := hempty t hnew
    have hids : content.ids t = [] := by rw [Snapshot.ids, hrows, List.map_nil]
    rw [List.flatMap_cons, List.foldlM_append, foldlM_insert htargets, hids, hrows,
      List.nil_append]
    have hforM : ((t :: ts).forM fun t => checkRows t.schema s.targets [] (t.rows s)) =
        (checkRows t.schema s.targets [] (t.rows s) >>= fun _ =>
          ts.forM fun t => checkRows t.schema s.targets [] (t.rows s)) := rfl
    rw [hforM]
    cases hcheck : checkRows t.schema s.targets [] (t.rows s) with
    | error v => rfl
    | ok _ =>
      refine ih hrest (fun u hu => ?_) fun u hu => ?_
      · by_cases hut : u = t
        · rw [hut, EntityTable.rows_setRows_self]
          rfl
        · rw [EntityTable.rows_setRows_of_ne hut]
          exact hdone u ((List.mem_cons.1 hu).resolve_left hut)
      · obtain ⟨hut, hu⟩ := not_or.1 (List.mem_cons.not.1 hu)
        rw [EntityTable.rows_setRows_of_ne hut]
        exact hempty u hu

/-- Replacing all rows statement by statement comes to one check of all of them, whatever the
tables held before. -/
theorem foldlM_replacement (store : Store) (s : Snapshot) :
    s.replacement.foldlM Edit.run store.content = (store.save s).map (·.content) := by
  have hchildren : isChildFirst [] EntityTable.clearOrder = true := by decide
  have hparents : isParentFirst [] EntityTable.fillOrder = true := by decide
  have hclear : (EntityTable.clearOrder.map .clear).foldlM Edit.run store.content =
      .ok { migrations := store.log } := foldlM_clear hchildren (by simp)
  have hempty : ∀ u : EntityTable, u ∉ [] → u.rows { migrations := store.log } = [] :=
    fun u _ => by cases u <;> rfl
  have hfill := foldlM_fill s hparents (by simp) hempty
  have hcheck : (EntityTable.fillOrder.forM fun t => checkRows t.schema s.targets [] (t.rows s)) =
      s.check := rfl
  rw [Snapshot.replacement, List.foldlM_append, hclear, Store.save]
  refine hfill.trans ?_
  rw [hcheck]
  cases s.check with
  | error v => rfl
  | ok _ => rfl

theorem LogEntry.toEntry_toRow (e : LogEntry) : e.toRow.toEntry = .ok { e with seq := none } := by
  rfl

/-- A statement that changes a database: a table of it, or its log. -/
inductive Write
  | edit (c : Edit)
  /-- Adds a row to the log. -/
  | log (r : Row)

/-- What a statement makes of a store. Only a new row of the log uses up a number. -/
def Write.run (store : Store) : Write → Except Violation Store
  | edit c => (c.run store.content).map fun s => { store with content := s }
  | log r => do return (store.append (← r.toEntry)).1

/-- Statements that change tables leave the numbers alone. -/
theorem foldlM_edit (store : Store) (cs : List Edit) :
    (cs.map .edit).foldlM Write.run store =
      (cs.foldlM Edit.run store.content).map fun s => { store with content := s } := by
  induction cs generalizing store with
  | nil => rfl
  | cons c cs ih =>
    rw [List.map_cons, List.foldlM_cons, List.foldlM_cons, Write.run]
    cases c.run store.content with
    | error v => rfl
    | ok s => exact ih { store with content := s }

/-- Replacing all rows comes to a save. -/
theorem foldlM_save (store : Store) (s : Snapshot) :
    (s.replacement.map .edit).foldlM Write.run store = store.save s := by
  rw [foldlM_edit, foldlM_replacement, Store.save]
  cases s.check with
  | error v => rfl
  | ok _ => rfl

/-! ## 5. Actions -/

/-- A connection to a database: what is committed, and what statements have made of it since. -/
structure Connection where
  committed : Store
  working : Option Store := none

namespace Connection

/-- What a query finds. -/
def current (conn : Connection) : Store :=
  conn.working.getD conn.committed

/-- A connection to a store on which no transaction is open. -/
def idle (store : Store) : Connection :=
  { committed := store }

end Connection

/-- What is done over a connection. A failure does not undo anything by itself. -/
abbrev Action (ε : Type) := ExceptT ε (StateM Connection)

namespace Action

variable {ε ε' α β : Type}

/-- The result of an action, and the connection after it. -/
def outcome (x : Action ε α) (conn : Connection) : Except ε α × Connection :=
  x.run.run conn

/-- Reads everything. -/
def load : Action ε Snapshot := do
  return (← get).current.load

/-- Executes a statement. One that is refused changes nothing, but those before it have. -/
def execute (w : Write) : Action Violation Unit := do
  match w.run (← get).current with
  | .ok store => modify fun conn => { conn with working := some store }
  | .error v => throw v

def commit : Action ε Unit :=
  modify fun conn => { committed := conn.current }

def rollback : Action ε Unit :=
  modify fun conn => { committed := conn.committed }

/-- Commits on success and rolls everything back on failure. -/
def transaction (body : Action ε α) : Action ε α := do
  let a ← tryCatch body fun e => do
    rollback
    throw e
  commit
  return a

/-- Executes statements that belong together; gives the store they lead to. -/
def write (ws : List Write) : Action Violation Store :=
  transaction do
    ws.forM execute
    return (← get).current

/-- Replaces all rows. -/
def save (s : Snapshot) : Action Violation Unit := do
  let _ ← write (s.replacement.map .edit)

/-- Replaces all rows and adds an entry to the log, which is reported with its number. -/
def saveWith (s : Snapshot) (e : LogEntry) : Action Violation LogEntry := do
  let after ← write (s.replacement.map .edit ++ [.log e.toRow])
  return { e with seq := some after.lastNumber }

theorem outcome_bind (x : Action ε α) (f : α → Action ε β) (conn : Connection) :
    outcome (x >>= f) conn = match outcome x conn with
      | (.ok a, conn') => outcome (f a) conn'
      | (.error e, conn') => (.error e, conn') := by
  have hrun : outcome (x >>= f) conn =
      (ExceptT.bindCont f (outcome x conn).1).run (outcome x conn).2 := rfl
  rw [hrun]
  rcases outcome x conn with ⟨e | a, conn'⟩
  · rfl
  · rfl

theorem outcome_tryCatch (x : Action ε α) (f : ε → Action ε α) (conn : Connection) :
    outcome (tryCatch x f) conn = match outcome x conn with
      | (.ok a, conn') => (.ok a, conn')
      | (.error e, conn') => outcome (f e) conn' := by
  have hrun : outcome (tryCatch x f) conn = StateT.run (m := Id)
      (match (outcome x conn).1 with
        | .ok a => (pure (.ok a) : StateM Connection (Except ε α))
        | .error e => (f e).run) (outcome x conn).2 := rfl
  rw [hrun]
  rcases outcome x conn with ⟨e | a, conn'⟩
  · rfl
  · rfl

/-- What a transaction has done is committed, or it is as if it had not been begun. -/
theorem outcome_transaction (body : Action ε α) (conn : Connection) :
    outcome (transaction body) conn = match outcome body conn with
      | (.ok a, conn') => (.ok a, { committed := conn'.current })
      | (.error e, conn') => (.error e, { committed := conn'.committed }) := by
  rw [transaction, outcome_bind, outcome_tryCatch]
  rcases outcome body conn with ⟨e | a, conn'⟩
  · rfl
  · rfl

theorem outcome_execute (w : Write) (conn : Connection) :
    outcome (execute w) conn = match w.run conn.current with
      | .ok store => (.ok (), { conn with working := some store })
      | .error v => (.error v, conn) := by
  have hrun : outcome (execute w) conn = outcome (match w.run conn.current with
      | .ok store => modify fun conn => { conn with working := some store }
      | .error v => throw v) conn := rfl
  rw [hrun]
  cases w.run conn.current with
  | error v => rfl
  | ok store => rfl

/-- Statements are executed on the working copy, one after the other until one is refused. Nothing
of it is committed. -/
theorem outcome_forM_execute (ws : List Write) (conn : Connection) :
    ∃ conn' : Connection, conn'.committed = conn.committed ∧
      match ws.foldlM Write.run conn.current with
      | .ok store => outcome (ws.forM execute) conn = (.ok (), conn') ∧ conn'.current = store
      | .error v => outcome (ws.forM execute) conn = (.error v, conn') := by
  induction ws generalizing conn with
  | nil => exact ⟨conn, rfl, rfl, rfl⟩
  | cons w ws ih =>
    have hcons : outcome ((w :: ws).forM execute) conn =
        outcome (execute w >>= fun _ => ws.forM execute) conn := rfl
    rw [hcons, outcome_bind, outcome_execute, List.foldlM_cons]
    cases hrun : w.run conn.current with
    | error v => exact ⟨conn, rfl, rfl⟩
    | ok store => exact ih { conn with working := some store }

/-! ## 6. Actions that carry out an operation on a store -/

/-- The result of an operation on a store, and the connection after it: the new store, or the old
one after a failure. -/
def settled (store : Store) : Except ε (Store × α) → Except ε α × Connection
  | .ok r => (.ok r.2, .idle r.1)
  | .error e => (.error e, .idle store)

/-- An action carries out an operation: on an idle connection to a store it comes to what the
operation gives, all of it committed, and otherwise it fails as the operation does and leaves the
connection as it was. -/
def Performs (x : Action ε α) (f : Store → Except ε (Store × α)) : Prop :=
  ∀ store, outcome x (.idle store) = settled store (f store)

namespace Performs

theorem congr {x : Action ε α} {f g : Store → Except ε (Store × α)} (hx : Performs x f)
    (h : ∀ store, f store = g store) : Performs x g :=
  fun store => (hx store).trans (congrArg _ (h store))

theorem pure (a : α) : Performs (Pure.pure a : Action ε α) fun store => .ok (store, a) :=
  fun _ => rfl

/-- An action may depend on what is read before it; reading changes nothing. -/
theorem load_bind {y : Snapshot → Action ε β} {g : Snapshot → Store → Except ε (Store × β)}
    (hy : ∀ s, Performs (y s) (g s)) : Performs (load >>= y) fun store => g store.load store :=
  fun store => hy store.load store

/-- It may depend on what is worked out before it without the connection. -/
theorem lift_bind (x : Except ε α) {y : α → Action ε β} {g : α → Store → Except ε (Store × β)}
    (hy : ∀ a, Performs (y a) (g a)) :
    Performs (liftM x >>= y) fun store => x >>= fun a => g a store := by
  intro store
  cases x with
  | error e => rfl
  | ok a => exact hy a store

/-- Statements that belong together are all executed, or none of them is. -/
theorem write (ws : List Write) : Performs (write ws) fun store =>
    (ws.foldlM Write.run store).map fun next => (next, next) := by
  intro store
  obtain ⟨conn, hcommitted, hrun⟩ := outcome_forM_execute ws (.idle store)
  have hcurrent : (Connection.idle store).current = store := rfl
  rw [Action.write, outcome_transaction, outcome_bind]
  beta_reduce
  rw [hcurrent] at hrun
  cases hfold : ws.foldlM Write.run store with
  | error v =>
    simp only [hfold] at hrun
    rw [hrun]
    simp only [hcommitted]
    rfl
  | ok next =>
    simp only [hfold] at hrun
    rw [hrun.1]
    show (Except.ok conn.current, ({ committed := conn.current } : Connection)) = _
    rw [hrun.2]
    rfl

/-- The result of an action may be changed. -/
theorem map {x : Action ε α} {f : Store → Except ε (Store × α)} (hx : Performs x f) (h : α → β) :
    Performs (x >>= fun a => Pure.pure (h a)) fun store =>
      (f store).map fun r => (r.1, h r.2) := by
  intro store
  beta_reduce
  rw [outcome_bind, hx store]
  cases f store with
  | error e => rfl
  | ok r => rfl

/-- So may its failures. -/
theorem adapt {x : Action ε α} {f : Store → Except ε (Store × α)} (hx : Performs x f)
    (h : ε → ε') : Performs (ExceptT.adapt h x) fun store => (f store).mapError h := by
  intro store
  have hrun : outcome (ExceptT.adapt h x) (.idle store) =
      ((outcome x (.idle store)).1.mapError h, (outcome x (.idle store)).2) := rfl
  beta_reduce
  rw [hrun, hx store]
  cases f store with
  | error e => rfl
  | ok r => rfl

end Performs

/-- Saving statement by statement carries out a save. -/
theorem performs_save (s : Snapshot) :
    Performs (save s) fun store => (store.save s).map fun store' => (store', ()) := by
  refine ((Performs.write (s.replacement.map .edit)).map fun _ => ()).congr fun store => ?_
  rw [foldlM_save]
  cases store.save s with
  | error v => rfl
  | ok store' => rfl

/-- So does saving together with an entry of the log. -/
theorem performs_saveWith (s : Snapshot) (e : LogEntry) :
    Performs (saveWith s e) fun store => store.saveWith s e := by
  have hwrite := (Performs.write (s.replacement.map .edit ++ [.log e.toRow])).map fun after =>
    { e with seq := some after.lastNumber }
  refine hwrite.congr fun store => ?_
  rw [List.foldlM_append, foldlM_save, Store.saveWith]
  cases store.save s with
  | error v => rfl
  | ok store' =>
    have hlog : Write.run store' (.log e.toRow) = .ok (store'.append e).1 := by
      rw [Write.run, e.toEntry_toRow]
      rfl
    show (([.log e.toRow].foldlM Write.run store').map _).map _ = _
    rw [foldlM_cons_of_ok hlog]
    rfl

end Action

end StyleLedger
