import StyleLedger.Migration.Name
import StyleLedger.Store.Row

/-!
What a log of migrations says: which migrations are applied, and which files are still pending.

The applied migrations are a stack. An entry that applies a migration pushes it, an entry that
reverts one pops whatever is on top.
-/

namespace StyleLedger

/-- Whether a migration file applies changes or reverts them. -/
inductive Direction
  | up
  | down
deriving Repr, DecidableEq, Inhabited

/-- The name of a direction. -/
def Direction.name : Direction → String
  | up => "up"
  | down => "down"

/-- The direction with a name. -/
def Direction.ofName? (name : String) : Option Direction :=
  [up, down].find? (·.name = name)

namespace Migration

/-- The stack after one more migration went in a direction; the top is last. What goes in neither
direction does nothing. -/
def move {α : Type} (stack : List α) (id : α) (direction : String) : List α :=
  match Direction.ofName? direction with
  | some .up => stack ++ [id]
  | some .down => stack.dropLast
  | none => stack

/-- The stack after one more entry. -/
def replay (stack : List String) (e : LogEntry) : List String :=
  move stack e.migrationId e.direction

/-- The applied migrations, the top last. -/
def appliedStack (log : List LogEntry) : List String :=
  log.foldl replay []

/-- The files whose migration is not applied. -/
def pendingFiles (files applied : List String) : List String :=
  files.filter fun name => !applied.contains (idOf name)

end Migration

end StyleLedger
