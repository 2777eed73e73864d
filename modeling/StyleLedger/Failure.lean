import StyleLedger.Config.Project
import StyleLedger.Descriptor.Basic
import StyleLedger.Disk
import StyleLedger.Json.Shape
import StyleLedger.Moment.Basic
import StyleLedger.Source.Error
import StyleLedger.Store.Basic

/-!
Everything that can end an operation on a project.

Four kinds of failures are expected and have a label of their own: a source text, a condition, a
migration or a configuration file can be wrong. The others say that the store, the disk or the clock
is not in the shape it should be in.
-/

namespace StyleLedger

/-- Why the text of a file cannot be had. -/
inductive ReadFault
  | file (e : FileError)
  | notText (f : Text.Utf8.Fault)
deriving Repr, DecidableEq, Inhabited

/-- The wording of a fault. -/
def ReadFault.message : ReadFault → String
  | file e => e.message
  | notText f => f.message

/-- The text of a file, with plain line feeds. -/
def Disk.readText (disk : Disk) (path : Path) : Except ReadFault String := do
  let content ← (disk.read path).mapError .file
  (Text.ofFile content).mapError .notText

/-- What is wrong with a migration. -/
inductive MigrationFault
  /-- Its file cannot be read. -/
  | unreadable (file : String) (cause : ReadFault)
  /-- No file reverts it. -/
  | missingDown (id : String)
  /-- A new one has no name. -/
  | missingName
  /-- A new one would take the files of another. -/
  | timestampTaken (stamp : String)
deriving Repr, DecidableEq, Inhabited

/-- The wording of a fault. -/
def MigrationFault.message : MigrationFault → String
  | unreadable file cause => "Cannot read migration " ++ file ++ ": " ++ cause.message
  | missingDown id => "Missing DOWN migration for " ++ id
  | missingName => "Missing migration name"
  | timestampTaken stamp => "Migration already exists with timestamp " ++ stamp

/-- Why a database cannot be used. -/
inductive DatabaseFault
  /-- What is at its place is no file. -/
  | notOpened
  /-- Its file holds something else. -/
  | notDatabase
deriving Repr, DecidableEq, Inhabited

/-- The wording of a fault. -/
def DatabaseFault.message : DatabaseFault → String
  | notOpened => "unable to open database file"
  | notDatabase => "file is not a database"

/-- Why an operation fails. -/
inductive Failure
  | parse (e : Source.ParseError)
  | composition (e : CompositionError)
  | migration (f : MigrationFault)
  | config (f : ConfigFault)
  | database (f : DatabaseFault)
  | violation (v : Violation)
  | shape (e : ShapeError)
  | read (f : ReadFault)
  | clock (f : ClockFault)
deriving Repr, Inhabited

namespace Failure

/-- The wording of a failure. -/
def message : Failure → String
  | parse e => e.message
  | composition e => e.message
  | migration f => f.message
  | config f => f.message
  | database f => f.message
  | violation v => v.message
  | shape e => e.message
  | read f => f.message
  | clock f => f.message

/-- An error of the disk as a failure. -/
def ofFile (e : FileError) : Failure := read (.file e)

/-- The failure of a file that cannot be read. A path that is none fails as such; for any other
cause the user of the file says what its failure is. -/
def ofRead (failure : ReadFault → Failure) : ReadFault → Failure
  | .file ⟨.embeddedNull, path⟩ => ofFile ⟨.embeddedNull, path⟩
  | cause => failure cause

/-- The failure of a configuration file. A number with too many digits is no fault of its form. -/
def ofConfig : ConfigFault → Failure
  | .unreadable e => if e.fault.hasPlace then config (.unreadable e) else shape (.unreadable e)
  | f => config f

/-- The label of an expected failure. -/
def label? : Failure → Option String
  | parse _ => some "Parse error:"
  | composition _ => some "Composition error:"
  | migration _ => some "Migration error:"
  | config _ => some "Config error:"
  | _ => none

end Failure

end StyleLedger
