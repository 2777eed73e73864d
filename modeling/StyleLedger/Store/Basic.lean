import StyleLedger.Store.Row

/-!
The store: rows that satisfy the schema, and a log that only grows.

Saving offers the rows of a snapshot to the store table by table and row by row. A row is refused if
it holds a value that no cell can hold, if a column that must be filled is empty, if its identifier
is taken, or if it points at a row that is not there; the tables that are pointed at come first. The
first refusal ends the saving, and the store is what it was before.
-/

namespace StyleLedger

/-- Why the store refuses a row. -/
inductive Violation
  /-- A value that a cell cannot hold, and the place of the cell in the row. -/
  | unstorable (position : Nat) (reason : Unstorable)
  /-- A column that must be filled is empty. -/
  | empty (table column : String)
  /-- The identifier is taken. -/
  | taken (table : String)
  /-- A row that is pointed at is not there. -/
  | dangling
deriving Repr, DecidableEq, Inhabited

/-- The wording of a refusal. -/
def Violation.message : Violation → String
  | unstorable position (.parts kind) =>
    "Error binding parameter " ++ toString position ++ ": type '" ++ kind ++
      "' is not supported"
  | unstorable _ .tooLarge => "Python int too large to convert to SQLite INTEGER"
  | empty table column => "NOT NULL constraint failed: " ++ table ++ "." ++ column
  | taken table => "UNIQUE constraint failed: " ++ table ++ ".id"
  | dangling => "FOREIGN KEY constraint failed"

/-! ## Checking rows -/

/-- The identifiers that rows may point at. -/
structure Targets where
  selectors : List Json
  layers : List Json
deriving Repr, DecidableEq, Inhabited

/-- The identifiers of a table. -/
def Targets.of (t : Targets) : Target → List Json
  | .selectors => t.selectors
  | .layers => t.layers

/-- The first cell of some columns that cannot be held; `position` is that of the first column. -/
def checkStorable (r : Row) (position : Nat) : List Column → Except Violation Unit
  | [] => .ok ()
  | c :: cs =>
    match (r.get c.name).unstorable? with
    | some reason => .error (.unstorable position reason)
    | none => checkStorable r (position + 1) cs

/-- The first of some columns that must be filled and is not. -/
def checkFilled (table : String) (r : Row) (columns : List Column) : Except Violation Unit :=
  match columns.find? fun c => c.required && (r.get c.name).isNull with
  | some c => .error (.empty table c.name)
  | none => .ok ()

/-- Whether a cell is empty or points at a row that is there. -/
def pointsInto (targets : Targets) (r : Row) (c : Column) : Bool :=
  match c.target with
  | none => true
  | some t => (r.get c.name).isNull || (targets.of t).contains (r.get c.name)

/-- Checks one row against the identifiers that its table has already, and those that may be pointed
at. Rows without an identifier are not in the way of one another. -/
def checkRow (schema : Schema) (targets : Targets) (taken : List Json) (r : Row) :
    Except Violation Unit := do
  checkStorable r 1 schema.columns
  let r := schema.store r
  checkFilled schema.table r schema.columns
  if !r.id.isNull && taken.contains r.id then .error (.taken schema.table)
  else if schema.columns.all (pointsInto targets r) then .ok ()
  else .error .dangling

/-- Checks the rows of a table in order. -/
def checkRows (schema : Schema) (targets : Targets) : List Json → List Row → Except Violation Unit
  | _, [] => .ok ()
  | taken, r :: rs => do
    checkRow schema targets taken r
    checkRows schema targets (taken ++ [(schema.store r).id]) rs

/-- The identifiers that the rows of a snapshot may point at. -/
def Snapshot.targets (s : Snapshot) : Targets :=
  { selectors := s.stored.selectors.map (·.id), layers := s.stored.layers.map (·.id) }

/-- Checks all rows of a snapshot. -/
def Snapshot.check (s : Snapshot) : Except Violation Unit :=
  s.tables.forM fun (schema, rows) => checkRows schema s.targets [] rows

/-! ## The store -/

/-- A store: its rows and its log, and the last number that an entry of the log was given. -/
structure Store where
  content : Snapshot := {}
  lastNumber : Int := 0
deriving Repr, DecidableEq, Inhabited

namespace Store

/-- Everything in the store. -/
def load (store : Store) : Snapshot := store.content

/-- The log. -/
def log (store : Store) : List LogEntry := store.content.migrations

/-- Replaces all rows; the log stays. -/
def save (store : Store) (s : Snapshot) : Except Violation Store := do
  s.check
  return { store with content := { s.stored with migrations := store.log } }

/-- The number of the next entry. Numbers are not used again, also where entries have been removed
from the log since. -/
def nextNumber (store : Store) : Int :=
  (store.log.filterMap (·.seq)).foldl max store.lastNumber + 1

/-- Appends an entry to the log under the next number. -/
def append (store : Store) (e : LogEntry) : Store × LogEntry :=
  let e := { e with seq := some store.nextNumber }
  ({ content := { store.content with migrations := store.log ++ [e] }
     lastNumber := store.nextNumber }, e)

/-- Replaces all rows and appends an entry, or does neither. -/
def saveWith (store : Store) (s : Snapshot) (e : LogEntry) :
    Except Violation (Store × LogEntry) := do
  let store ← store.save s
  return store.append e

end Store

/-! ## Rows offered to the log -/

/-- The columns of a row that is offered to the log; its number is not among them. -/
def entryColumns : List Column :=
  Schema.migrations.columns.filter (·.name ≠ "seq")

/-- The entry of a row that is offered to the log. -/
def Row.toEntry (r : Row) : Except Violation LogEntry := do
  checkStorable r 1 entryColumns
  let r := Schema.migrations.store r
  checkFilled Schema.migrations.table r entryColumns
  return {
    migrationId := (r.get "migration_id").shown
    filename := (r.get "filename").shown
    direction := (r.get "direction").shown
    checksum := (r.get "checksum").shown
    appliedAt := (r.get "applied_at").shown
    status := (r.get "status").shown }

end StyleLedger
