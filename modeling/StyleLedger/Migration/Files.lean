import StyleLedger.Digest.Sha1
import StyleLedger.Migration.Log
import StyleLedger.Moment.Basic
import StyleLedger.Project

/-!
Migration files on a disk: which there are, what their contents come to, and how new ones are made.
-/

namespace StyleLedger

namespace Migration

/-- The names of the migration files in a directory, sorted; none if there is no directory. -/
def filesIn (disk : Disk) (directory : Path) : Except FileError (List String) := do
  if ← disk.isDirectory directory then
    let files ← (disk.names directory).filterM fun name => disk.isFile (directory.child name)
    return (files.filter hasEnding).mergeSort fun a b => a ≤ b
  else return []

/-- The digest of a file's content. -/
def checksum (disk : Disk) (path : Path) : Except FileError String :=
  (disk.read path).map Digest.sha1Hex

/-- The file that reverts a migration. -/
def downFile? (p : Project) (disk : Disk) (id : String) : Except FileError (Option Path) := do
  let name := (← filesIn disk p.downDirectory).find? fun name => idOf name = id
  return name.map p.downDirectory.child

/-! ## New files -/

/-- What a new file that applies changes holds. -/
def upScaffold (slug stamp : String) : String :=
  "-- UP migration: " ++ slug ++ " @ " ++ stamp ++ " (UTC)\n" ++
  "-- Add forward style changes below\n" ++
  "-- Example:\n" ++
  "-- ALTER STYLE SELECTOR btn SET color = #fff;\n"

/-- What a new file that reverts changes holds. -/
def downScaffold (slug stamp : String) : String :=
  "-- DOWN migration: " ++ slug ++ " @ " ++ stamp ++ " (UTC)\n" ++
  "-- Revert the changes from the UP migration\n" ++
  "-- Example:\n" ++
  "-- DELETE FROM style_props WHERE selector = btn AND prop = 'color';\n"

/-- The name of a new file. -/
def newFileName (slug : String) (now : Moment) : String :=
  now.stamp ++ "__" ++ slug ++ ".sql"

/-- Whether a new file would take the place of another. -/
def isTaken (disk : Disk) (upPath downPath : Path) : Except FileError Bool := do
  if ← disk.pathExists upPath then return true
  disk.pathExists downPath

/-- Writes the files of a new migration. -/
def writePair (upPath downPath : Path) (slug stamp : String) : DiskChange Unit := do
  .write upPath (Text.Utf8.encode (upScaffold slug stamp))
  .write downPath (Text.Utf8.encode (downScaffold slug stamp))

/-- Makes a pair of new files. A failure may leave the directories of the project behind. -/
def create (p : Project) (title : String) (now : Moment) :
    ExceptT Failure (StateM Disk) (Path × Path) := do
  let slug := slug title
  if slug.isEmpty then throw (.migration .missingName)
  p.makeLayout.adapt .ofFile
  let upPath := p.upDirectory.child (newFileName slug now)
  let downPath := p.downDirectory.child (newFileName slug now)
  match isTaken (← get) upPath downPath with
  | .error e => throw (.ofFile e)
  | .ok true => throw (.migration (.timestampTaken now.stamp))
  | .ok false =>
    (writePair upPath downPath slug now.stamp).adapt .ofFile
    return (upPath, downPath)

end Migration

end StyleLedger
