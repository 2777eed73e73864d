import Std.Time.DateTime
import StyleLedger.Command.Run

/-!
The program: it takes note of the part of the disk that a command can look at, runs the command, and
writes back what the command has changed.
-/

namespace StyleLedger.Main

/-- Takes note of a directory and of those that lead to it. -/
def noteDirectory (disk : Disk) (path : Path) : Disk :=
  ((DiskChange.ensureAll path).run disk).2

/-- Takes note of a file and of the directories that lead to it. -/
def noteFile (disk : Disk) (path : Path) (content : Text.Bytes) : Disk :=
  ((DiskChange.writeDeep path content).run disk).2

/-- Takes note of what is at a path, and of everything inside a directory if asked. -/
partial def survey (deep : Bool) (disk : Disk) (path : Path) : IO Disk := do
  let real := (← IO.currentDir) / path.text
  if ← real.isDir then
    let mut disk := noteDirectory disk path
    if deep then
      for e in ← real.readDir do
        disk ← survey deep disk (path.child e.fileName)
    return disk
  else if ← real.pathExists then
    return noteFile disk path (← IO.FS.readBinFile real).toList
  else return disk

/-- Takes note of a path and of the directories that lead to it. -/
def surveyWay (disk : Disk) (path : Path) : IO Disk :=
  (List.range (path.steps.length + 1)).foldlM (fun disk n =>
    survey false disk (path.take n)) disk

/-- Takes note of all that an invocation can look at. -/
def surveyFor (around : Surroundings) (root : String) (args : List String) : IO Disk := do
  let p : Project := { root := Path.ofText root }
  let mut disk ← survey true {} p.home
  for path in p.root :: p.configFile :: p.root.child "dist" :: args.map Path.ofText do
    disk ← surveyWay disk path
  match p.loadConfig disk around.environment with
  | .ok config => surveyWay disk (p.root.join (Path.ofText config.outFile))
  | .error _ => return disk

/-- Writes back the entries that are not as they were. -/
def writeBack (before after : Disk) : IO Unit :=
  for (place, e) in after.entries.entries do
    if before.entries.get? place != some e then
      let path := (Path.ofPlace place).text
      match e with
      | .directory => IO.FS.createDirAll path
      | .file content => IO.FS.writeBinFile path ⟨content.toArray⟩

/-- The variables that commands look at. -/
def readEnvironment : IO Environment :=
  [CompilerConfig.layersVariable, CompilerConfig.prefixVariable,
    CompilerConfig.spacingVariable].filterMapM fun name => do
      return (← IO.getEnv name).map (name, ·)

/-- The time now, in the zone of the meridian. -/
def readClock : IO Moment := do
  let t := Std.Time.PlainDateTime.ofWallTime
    (.ofSeconds (← Std.Time.Timestamp.now).toSecondsSinceUnixEpoch)
  let date : Date :=
    { year := (t.year : Int).toNat, month := t.month.val.toNat, day := t.day.val.toNat }
  return { date, hour := t.hour.val.toNat, minute := t.minute.val.toNat
           second := t.second.val.toNat }

/-- Runs the program and gives its exit code. -/
def run (args : List String) : IO UInt32 := do
  let around : Surroundings := { environment := ← readEnvironment, clock := .ok (← readClock) }
  let root := ((Invocation.ofArguments? args).map (·.root)).getD "."
  let before ← surveyFor around root args
  let result := runProgram around before args
  writeBack before result.session.disk
  IO.print result.session.out
  IO.eprint result.session.err
  if let some f := result.raised then IO.eprintln f.message
  return result.code.toUInt32

end StyleLedger.Main

/-- The program. -/
def main (args : List String) : IO UInt32 := StyleLedger.Main.run args
