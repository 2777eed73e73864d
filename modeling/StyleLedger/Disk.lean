import StyleLedger.Path
import StyleLedger.Table
import StyleLedger.Text.Quoted
import StyleLedger.Text.Utf8

/-!
Disks: files and directories at places, as far as one program sees them.

The working directory and the directories above it are always there. Looking for a path follows its
steps one by one; the way ends early where a step is missing, leads through a file or has too long a
name.

* `Disk.look` — what a path leads to.
* `Disk.test` — whether a path leads to something of a kind.
* `DiskChange` — changes that may fail halfway; what was changed before the failure stays.
-/

namespace StyleLedger

open Text (Bytes)

/-- What can be at a place. -/
inductive DiskEntry
  | file (content : Bytes)
  | directory
deriving Repr, DecidableEq, Inhabited

/-- Whether an entry is a directory. -/
def DiskEntry.isDirectory : DiskEntry → Bool
  | directory => true
  | file _ => false

/-- Whether an entry is a file. -/
def DiskEntry.isFile : DiskEntry → Bool
  | file _ => true
  | directory => false

/-- Why an operation on a path fails. -/
inductive FileFault
  | missing
  | busy
  | alreadyThere
  | notDirectory
  | isDirectory
  | invalid
  | nameTooLong
  | notEmpty
  /-- The text of the path holds the character zero, which no path can. -/
  | embeddedNull
deriving Repr, DecidableEq, Inhabited

/-- The number and the wording of a fault; a text that is no path has no number. -/
def FileFault.wording : FileFault → Option Nat × String
  | missing => (some 2, "No such file or directory")
  | busy => (some 16, "Device or resource busy")
  | alreadyThere => (some 17, "File exists")
  | notDirectory => (some 20, "Not a directory")
  | isDirectory => (some 21, "Is a directory")
  | invalid => (some 22, "Invalid argument")
  | nameTooLong => (some 36, "File name too long")
  | notEmpty => (some 39, "Directory not empty")
  | embeddedNull => (none, "embedded null byte")

/-- A fault with the path that was asked for. -/
structure FileError where
  fault : FileFault
  path : Path
deriving Repr, DecidableEq, Inhabited

/-- The wording of an error. -/
def FileError.message (e : FileError) : String :=
  match e.fault.wording with
  | (some number, words) =>
    "[Errno " ++ toString number ++ "] " ++ words ++ ": " ++ Text.quoted e.path.text
  | (none, words) => words

/-- A disk. -/
structure Disk where
  entries : Table Place DiskEntry := {}
deriving Repr, DecidableEq, Inhabited

namespace Disk

/-! ## Looking -/

/-- The number of bytes that the name of one step may have. -/
def nameLimit : Nat := 255

/-- The number of bytes that the text of a path may not reach. -/
def pathLimit : Nat := 4096

/-- What is at a place. -/
def entry? (disk : Disk) (place : Place) : Option DiskEntry :=
  if place.all (· = Path.up) || place = Path.rootPlace then some .directory
  else disk.entries.get? place

/-- Follows steps from a place; every place but the last must be a directory. -/
def walk (disk : Disk) : Place → List String → Except FileFault Place
  | place, [] => .ok place
  | place, s :: rest =>
    match disk.entry? place with
    | some .directory =>
      if nameLimit < s.utf8ByteSize then .error .nameTooLong
      else walk disk (Path.step place s) rest
    | some (.file _) => .error .notDirectory
    | none => .error .missing

/-- Follows the steps of a text. -/
def follow (disk : Disk) (text : String) (start : PathStart) (steps : List String) :
    Except FileFault Place :=
  if text.toList.contains '\x00' then .error .embeddedNull
  else if pathLimit ≤ text.utf8ByteSize then .error .nameTooLong
  else disk.walk (Path.origin start) steps

/-- The place that a path leads to, whether something is there or not. -/
def locate (disk : Disk) (path : Path) : Except FileFault Place :=
  disk.follow path.text path.start path.steps

/-- What is at a place that was found. -/
def entryAt (disk : Disk) (place : Place) : Except FileFault DiskEntry :=
  match disk.entry? place with
  | some entry => .ok entry
  | none => .error .missing

/-- What a path leads to. -/
def look (disk : Disk) (path : Path) : Except FileFault DiskEntry := do
  disk.entryAt (← disk.locate path)

/-- What a text leads to, taken as it stands: the empty text leads nowhere, and what stands before a
slash must be a directory. -/
def lookText (disk : Disk) (s : String) : Except FileFault DiskEntry := do
  if s.isEmpty then throw .missing
  disk.entryAt (← disk.follow s (Path.startOf s.toList) (Path.stepsOf s.toList))

/-- Whether a path leads to an entry of a kind. One that leads nowhere does not; that a name is too
long is a failure all the same. -/
def test (disk : Disk) (kind : DiskEntry → Bool) (path : Path) : Except FileError Bool :=
  match disk.look path with
  | .ok entry => .ok (kind entry)
  | .error .nameTooLong => .error ⟨.nameTooLong, path⟩
  | .error _ => .ok false

/-- Whether a path leads anywhere. -/
def pathExists (disk : Disk) (path : Path) : Except FileError Bool :=
  disk.test (fun _ => true) path

/-- Whether a path leads to a directory. -/
def isDirectory (disk : Disk) (path : Path) : Except FileError Bool :=
  disk.test DiskEntry.isDirectory path

/-- Whether a path leads to a file. -/
def isFile (disk : Disk) (path : Path) : Except FileError Bool :=
  disk.test DiskEntry.isFile path

/-- The content of a file. -/
def read (disk : Disk) (path : Path) : Except FileError Bytes :=
  match disk.look path with
  | .ok (.file content) => .ok content
  | .ok .directory => .error ⟨.isDirectory, path⟩
  | .error fault => .error ⟨fault, path⟩

/-- The name of an entry that is directly inside a directory. -/
def nameInside? (directory place : Place) : Option String :=
  match place.getLast? with
  | some name => if directory ++ [name] = place && Path.isStep name then some name else none
  | none => none

/-- The names directly inside a directory. -/
def names (disk : Disk) (directory : Path) : List String :=
  disk.entries.keys.filterMap (nameInside? directory.place)

/-- The places of all files. -/
def files (disk : Disk) : List Place :=
  disk.entries.entries.filterMap fun (place, e) => if e.isFile then some place else none

/-! ## Changing -/

/-- Writes a file, in place of one that is there. -/
def write (disk : Disk) (path : Path) (content : Bytes) : Except FileError Disk :=
  match disk.locate path with
  | .error fault => .error ⟨fault, path⟩
  | .ok place =>
    match disk.entry? place with
    | some .directory => .error ⟨.isDirectory, path⟩
    | _ => .ok { entries := disk.entries.put place (.file content) }

/-- Makes a directory where nothing is. -/
def makeDirectory (disk : Disk) (path : Path) : Except FileError Disk :=
  match disk.locate path with
  | .error fault => .error ⟨fault, path⟩
  | .ok place =>
    match disk.entry? place with
    | some _ => .error ⟨.alreadyThere, path⟩
    | none => .ok { entries := disk.entries.put place .directory }

/-- Deletes a file. -/
def delete (disk : Disk) (path : Path) : Except FileError Disk :=
  match disk.look path with
  | .ok (.file _) => .ok { entries := disk.entries.erase path.place }
  | .ok .directory => .error ⟨.isDirectory, path⟩
  | .error fault => .error ⟨fault, path⟩

/-- Why no directory can be removed under the last step of a path. -/
def lastStepFault? (path : Path) : Option FileFault :=
  match path.steps.getLast? with
  | some s => if s = Path.up then some .notEmpty else none
  | none => some (if path.start = .workingDirectory then .invalid else .busy)

/-- Removes an empty directory. -/
def removeDirectory (disk : Disk) (path : Path) : Except FileError Disk :=
  match disk.look path, lastStepFault? path with
  | .error fault, _ => .error ⟨fault, path⟩
  | .ok _, some fault => .error ⟨fault, path⟩
  | .ok (.file _), none => .error ⟨.notDirectory, path⟩
  | .ok .directory, none =>
    if (disk.names path).isEmpty then .ok { entries := disk.entries.erase path.place }
    else .error ⟨.notEmpty, path⟩

end Disk

/-! ## Changes in several steps -/

/-- A change of a disk that may fail halfway; what was changed before the failure stays. -/
abbrev DiskChange (α : Type) := ExceptT FileError (StateM Disk) α

namespace DiskChange

/-- A change that is made at once or not at all. -/
def single (change : Disk → Except FileError Disk) : DiskChange Unit := do
  match change (← get) with
  | .ok disk => set disk
  | .error e => throw e

/-- Writes a file. -/
def write (path : Path) (content : Bytes) : DiskChange Unit :=
  single (·.write path content)

/-- Makes a directory; one that is there is left alone. -/
def ensure (path : Path) : DiskChange Unit := do
  match (← get).makeDirectory path with
  | .ok disk => set disk
  | .error e =>
    if e.fault = .missing || e.fault = .embeddedNull then throw e
    match (← get).isDirectory path with
    | .ok true => return
    | .ok false => throw e
    | .error e => throw e

/-- Whether a directory cannot be made because the one it is to be in is missing. -/
def lacksParent (disk : Disk) (path : Path) : Bool :=
  match disk.makeDirectory path with
  | .error e => e.fault = .missing
  | .ok _ => false

/-- Makes the directory that the first `n` steps of a path lead to. If the one above is missing,
that is made first. -/
def ensureSteps (path : Path) : Nat → DiskChange Unit
  | 0 => ensure (path.take 0)
  | n + 1 => do
    if lacksParent (← get) (path.take (n + 1)) then ensureSteps path n
    ensure (path.take (n + 1))

/-- Makes a directory and all that lead to it; those that are there are left alone. -/
def ensureAll (path : Path) : DiskChange Unit :=
  ensureSteps path path.steps.length

/-- Makes a new directory and all that lead to it. -/
def makeDirectory (path : Path) : DiskChange Unit := do
  if lacksParent (← get) path then ensureAll path.parent
  single (·.makeDirectory path)

/-- Writes a file and makes the directories that lead to it. -/
def writeDeep (path : Path) (content : Bytes) : DiskChange Unit := do
  ensureAll path.parent
  write path content

end DiskChange

end StyleLedger
