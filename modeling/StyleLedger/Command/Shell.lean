import StyleLedger.Compile
import StyleLedger.Migration.Engine
import StyleLedger.Moment.Basic
import StyleLedger.Store.Document

/-!
What a command does while it runs: it writes to two streams, reads and changes the disk, and may
stop.

A command that stops keeps what it has written and changed so far. The streams are no terminals, so
that codes for terminals are left out of what is written to them; their lines end with a line feed
alone.
-/

namespace StyleLedger

/-- What a command finds around it. -/
structure Surroundings where
  environment : Environment := []
  clock : Except ClockFault Moment
deriving Repr, Inhabited

/-- The disk and the two streams. -/
structure Session where
  disk : Disk := {}
  out : String := ""
  err : String := ""
deriving Repr, DecidableEq, Inhabited

/-- Why a command stops before its end: with an exit code, or by a failure it does not handle. -/
inductive Stop
  | exit (code : Nat)
  | raised (f : Failure)
deriving Repr, Inhabited

/-- A command that runs in a session. -/
abbrev Shell (α : Type) := ExceptT Stop (StateM Session) α

namespace Shell

/-! ## Streams -/

/-- The length of a code for terminals at the front of a text: the escape character and a bracket,
some digits and signs up to the question mark, some signs up to the slash, and one sign or letter
from the at sign up to the tilde. -/
def codeLength : List Char → Nat
  | '\x1b' :: '[' :: cs =>
    let parameters := cs.takeWhile fun c => '0' ≤ c && c ≤ '?'
    let rest := cs.drop parameters.length
    let marks := rest.takeWhile fun c => ' ' ≤ c && c ≤ '/'
    match rest.drop marks.length with
    | c :: _ => if '@' ≤ c && c ≤ '~' then parameters.length + marks.length + 3 else 0
    | [] => 0
  | _ => 0

/-- A text without codes for terminals. -/
def plain (s : String) : String :=
  String.ofList (Text.replaceAll codeLength (fun _ => []) s.toList)

/-- The length of a line end of two characters at the front of a text. -/
def longEnd : List Char → Nat
  | '\r' :: '\n' :: _ => 2
  | _ => 0

/-- A text whose lines end with a line feed alone. A carriage return anywhere else stays. -/
def shortEnds (s : String) : String :=
  String.ofList (Text.replaceAll longEnd (fun _ => ['\n']) s.toList)

/-- Writes a text. -/
def put (s : String) : Shell Unit :=
  modify fun session => { session with out := session.out ++ plain s }

/-- Writes a line. -/
def line (s : String) : Shell Unit := put (s ++ "\n")

/-- Writes some lines. -/
def lines (ls : List String) : Shell Unit := ls.forM line

/-- Writes a text to the error stream. -/
def complain (s : String) : Shell Unit :=
  modify fun session => { session with err := session.err ++ plain s }

/-- A session at its end: what is in its streams is settled. -/
def settle (session : Session) : Session :=
  { session with out := shortEnds session.out, err := shortEnds session.err }

/-- Stops with an exit code. -/
def exit {α : Type} (code : Nat) : Shell α := throw (.exit code)

/-- The line of a failure in the error stream. A departure from the grammar is told by its place,
which ends the stream. -/
def failureLine (label : String) : Failure → String
  | .parse (.unexpected place) =>
    label ++ " syntax at line " ++ toString place.line ++ ", column " ++ toString place.column
  | f => label ++ " " ++ f.message ++ "\n"

/-- The value of an operation. An expected failure is reported, under a label of its own or the one
given, and ends the command; any other failure is raised. -/
def attempt {α : Type} (label : Option String) (x : Except Failure α) : Shell α :=
  match x with
  | .ok v => pure v
  | .error f =>
    match f.label? with
    | none => throw (.raised f)
    | some own => do
      complain (failureLine (label.getD own) f)
      exit 1

/-- The moment that the clock shows. -/
def readClock (around : Surroundings) : Shell Moment :=
  attempt none (around.clock.mapError .clock)

/-! ## The disk -/

/-- The disk as it is. -/
def disk : Shell Disk := do return (← get).disk

/-- Puts a changed disk into the session. -/
def setDisk (d : Disk) : Shell Unit :=
  modify fun session => { session with disk := d }

/-- An operation that may fail on the disk. -/
def onDisk {α : Type} (x : Except FileError α) : Shell α :=
  attempt none (x.mapError .ofFile)

/-- Changes the disk; what was changed before a failure stays. -/
def change (f : DiskChange Unit) : Shell Unit := do
  let (result, after) := f.run (← disk)
  setDisk after
  onDisk result

/-- Writes a text to a file. -/
def writeFile (path : Path) (content : String) : Shell Unit :=
  change (.write path (Text.Utf8.encode content))

/-! ## Projects -/

/-- The settings of a project, with a spacing mode from the command line put over them. -/
def loadConfig (around : Surroundings) (p : Project) (spacing : Option String) :
    Shell ProjectConfig := do
  let config ← attempt none (p.loadConfig (← disk) around.environment)
  return (spacing.map config.withSpacing).getD config

/-- Writes a store to the database. -/
def saveStore (p : Project) (store : Store) : Shell Unit :=
  change (.write p.databaseFile store.toFile)

/-- The store in the database, which is made if it is not there. -/
def openStore (p : Project) : Shell Store := do
  change p.makeLayout
  match (← disk).look p.databaseFile with
  | .ok (.file content) =>
    match Store.ofFile? content with
    | some store => return store
    | none => throw (.raised (.database .notDatabase))
  | .error .missing =>
    saveStore p {}
    return {}
  | _ => throw (.raised (.database .notOpened))

/-- The cascade in the database. -/
def openCascade (p : Project) : Shell Cascade := do
  let store ← openStore p
  attempt none (store.load.toCascade.mapError .shape)

end Shell

end StyleLedger
