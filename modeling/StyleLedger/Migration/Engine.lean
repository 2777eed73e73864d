import StyleLedger.Audit
import StyleLedger.Cascade.Timed
import StyleLedger.History
import StyleLedger.Migration.Drift
import StyleLedger.Source.File
import StyleLedger.Store.Codec

/-!
Applying migrations to a store.

Every operation takes the store as it is and gives the store as it becomes, or a failure; a failure
gives no store, so nothing half-done can be kept. Applying a file and rebuilding the whole store go
through the same step, `Engine.applyTo`.
-/

namespace StyleLedger

/-- What migrations are applied with: the project, whether semicolons are insisted on, and the clock
that shows the time to be recorded. -/
structure Engine where
  project : Project := {}
  strict : Bool := false
  clock : Except ClockFault String := .ok ""
deriving Repr, Inhabited

/-- The applied migrations, the top first, the pending files, and the drift. -/
structure MigrationStatus where
  applied : List String
  pending : List Path
  drift : List Drift
deriving Repr, DecidableEq, Inhabited

namespace Engine

/-- The migration that catalogs belong to. -/
def catalogMigration : String := "bootstrap"

/-- The statements of a migration file. -/
def statementsOf (engine : Engine) (disk : Disk) (path : Path) :
    Except Failure (List Statement) := do
  let source ← (disk.readText path).mapError
    (.ofRead fun cause => .migration (.unreadable path.name cause))
  (Source.parse source engine.strict).mapError .parse

/-- The rows after the statements of one file. -/
def applyTo (engine : Engine) (disk : Disk) (s : Snapshot) (path : Path) (migrationId : String) :
    Except Failure Snapshot := do
  let statements ← engine.statementsOf disk path
  let ctx : Context := { migrationId, originFile := some (engine.project.relative path) }
  let state ← s.toCascade.mapError .shape
  let state ← Cascade.buildAt engine.clock ctx state statements
  (Snapshot.checkCascade state).mapError .shape
  return Snapshot.ofCascade state s.migrations

/-- The rows after the catalogs. -/
def seed (engine : Engine) (disk : Disk) (s : Snapshot) : Except Failure Snapshot := do
  let catalogs ← (engine.project.catalogs disk).mapError .ofFile
  catalogs.foldlM (fun s path => engine.applyTo disk s path catalogMigration) s

/-- Applies a file and logs it. The first entry of a log brings the catalogs in. -/
def applyFile (engine : Engine) (disk : Disk) (store : Store) (path : Path)
    (direction : Direction) : Except Failure (Store × LogEntry) := do
  let id := Migration.idOf path.name
  let s := store.load
  let s ← if s.migrations.isEmpty then engine.seed disk s else pure s
  let s ← engine.applyTo disk s path id
  let checksum ← (Migration.checksum disk path).mapError .ofFile
  let appliedAt ← engine.clock.mapError .clock
  let entry : LogEntry :=
    { migrationId := id, filename := path.name, direction := direction.name, checksum, appliedAt }
  (store.saveWith s entry).mapError .violation

/-- The files that are not applied yet, in order. -/
def pending (engine : Engine) (disk : Disk) (store : Store) : Except FileError (List Path) := do
  let files ← Migration.filesIn disk engine.project.upDirectory
  let pending := Migration.pendingFiles files (Migration.appliedStack store.log)
  return pending.map engine.project.upDirectory.child

/-- Applies the next pending file, if there is one. -/
def up (engine : Engine) (disk : Disk) (store : Store) :
    Except Failure (Option (Store × LogEntry)) := do
  match ← (engine.pending disk store).mapError .ofFile with
  | [] => return none
  | path :: _ => some <$> engine.applyFile disk store path .up

/-- Reverts the migration on top of the stack, if there is one. -/
def down (engine : Engine) (disk : Disk) (store : Store) :
    Except Failure (Option (Store × LogEntry)) := do
  match (Migration.appliedStack store.log).getLast? with
  | none => return none
  | some top =>
    match ← (Migration.downFile? engine.project disk top).mapError .ofFile with
    | none => throw (.migration (.missingDown top))
    | some path => some <$> engine.applyFile disk store path .down

/-- What is applied, what is pending, and what has drifted. -/
def status (engine : Engine) (disk : Disk) (store : Store) : Except FileError MigrationStatus := do
  return {
    applied := (Migration.appliedStack store.log).reverse
    pending := ← engine.pending disk store
    drift := ← Migration.findDrift engine.project disk store.log }

/-- The file of a log entry. -/
def fileOf (p : Project) (e : LogEntry) : Path :=
  (if e.direction = Direction.down.name then p.downDirectory else p.upDirectory).child e.filename

/-- The rows after the file of one log entry; a file that is gone is passed over. -/
def replay (engine : Engine) (disk : Disk) (s : Snapshot) (e : LogEntry) :
    Except Failure Snapshot := do
  let path := fileOf engine.project e
  if ← (disk.pathExists path).mapError .ofFile then engine.applyTo disk s path e.migrationId
  else return s

/-- Makes all rows anew from the catalogs and the files of the log, which stays as it is. -/
def rebuild (engine : Engine) (disk : Disk) (store : Store) :
    Except Failure (Store × Snapshot) := do
  let s ← engine.seed disk { migrations := store.log }
  let s ← store.log.foldlM (engine.replay disk) s
  let store ← (store.save s).mapError .violation
  return (store, s)

/-! ## Reports -/

/-- The audit of a store together with its drift. -/
def audit (engine : Engine) (disk : Disk) (store : Store) : Except Failure (List Finding) := do
  let findings ← store.load.audit.mapError .shape
  let drift ← (Migration.findDrift engine.project disk store.log).mapError .ofFile
  return findings ++ drift.map Migration.driftFinding

/-- Follows the file of an applied migration; one that is gone or cannot be understood is passed
over. -/
def follow (engine : Engine) (disk : Disk) (log : List LogEntry) (h : History) (id : String) :
    Except Failure History := do
  match log.reverse.find? fun e => e.direction = Direction.up.name && e.migrationId = id with
  | none => return h
  | some e =>
    let path := engine.project.upDirectory.child e.filename
    if !(← (disk.pathExists path).mapError .ofFile) then return h
    match Source.parseFile disk path engine.strict with
    | .error (.parse _) => return h
    | .error f => throw f
    | .ok statements =>
      match h.feed e.filename statements with
      | (h, none) => return h
      | (_, some refusal) => throw (.composition refusal)

/-- The writes of all applied migrations that never reach the style sheet. -/
def hiddenWrites (engine : Engine) (disk : Disk) (store : Store) :
    Except Failure (List Finding) := do
  let h ← (Migration.appliedStack store.log).foldlM (engine.follow disk store.log) {}
  return h.findings

end Engine

end StyleLedger
