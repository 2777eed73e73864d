import StyleLedger.Finding
import StyleLedger.Migration.Files

/-!
Drift: applied migrations whose file is gone or has changed.
-/

namespace StyleLedger

/-- An applied migration whose file is gone, or has another checksum now. -/
structure Drift where
  file : String
  appliedAt : String
  expected : String
  current : Option String := none
deriving Repr, DecidableEq, Inhabited

namespace Migration

/-- The last entry that applied each migration of the stack. -/
def latestUps (log : List LogEntry) : List LogEntry :=
  let applied := appliedStack log
  (Table.ofList ((log.filter fun e =>
    e.direction = Direction.up.name && applied.contains e.migrationId).map fun e =>
      (e.migrationId, e))).values

/-- The drift of one entry. -/
def driftOf (p : Project) (disk : Disk) (e : LogEntry) : Except FileError (Option Drift) := do
  let path := p.upDirectory.child e.filename
  let drift : Drift := { file := e.filename, appliedAt := e.appliedAt, expected := e.checksum }
  if ← disk.pathExists path then
    let current ← checksum disk path
    return if current = e.checksum then none else some { drift with current := some current }
  else return some drift

/-- All drift of a log. -/
def findDrift (p : Project) (disk : Disk) (log : List LogEntry) :
    Except FileError (List Drift) := do
  return (← (latestUps log).mapM (driftOf p disk)).filterMap id

/-- Drift as a finding. -/
def driftFinding (d : Drift) : Finding :=
  let what := match d.current with
    | none => "is missing on disk (applied " ++ d.appliedAt ++ ")"
    | some current => "checksum changed: expected " ++ d.expected ++ ", found " ++ current
  { rule := "migration_checksum", severity := .warning
    message := "Migration file '" ++ d.file ++ "' " ++ what
    table := some "migrations"
    fix := some "Restore the original file or rebuild from a fresh history" }

end Migration

end StyleLedger
