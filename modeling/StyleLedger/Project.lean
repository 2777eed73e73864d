import StyleLedger.Failure

/-!
The files of a project.

Below its root a project has a configuration file and a directory of its own, which holds the
database, the migrations in two directories, and up to two catalogs of statements that every store
starts with.
-/

namespace StyleLedger

/-- A project, by its root. -/
structure Project where
  root : Path := {}
deriving Repr, DecidableEq, Inhabited

namespace Project

/-- The directory of a project. -/
def home (p : Project) : Path := p.root.child "icbincss"

/-- The directory of the database. -/
def databaseDirectory (p : Project) : Path := p.home.child "db"

/-- The file of the database. -/
def databaseFile (p : Project) : Path := p.databaseDirectory.child "icbincss.sqlite3"

/-- The directory of the migrations that apply changes. -/
def upDirectory (p : Project) : Path := (p.home.child "migrations").child "up"

/-- The directory of the migrations that revert changes. -/
def downDirectory (p : Project) : Path := (p.home.child "migrations").child "down"

/-- The configuration file. -/
def configFile (p : Project) : Path := p.root.child ProjectConfig.fileName

/-- The catalogs that are there, tokens before selectors. -/
def catalogs (p : Project) (disk : Disk) : Except FileError (List Path) :=
  (["tokens.sql", "selectors.sql"].map p.home.child).filterM disk.pathExists

/-- Whether a project is there. -/
def isThere (p : Project) (disk : Disk) : Except FileError Bool := disk.isDirectory p.home

/-- A path as rows name it: from the root of the project if it leads below it, as it is
otherwise. -/
def relative (p : Project) (path : Path) : String :=
  let root := p.root.place
  let place := path.place
  let rest := place.drop root.length
  let isBelow := root.isPrefixOf place && rest.head? ≠ some Path.up && rest.take 1 ≠ Path.rootPlace
  if isBelow then ({ steps := rest } : Path).text else path.text

/-- Makes the directories of a project. -/
def makeLayout (p : Project) : DiskChange Unit :=
  [p.databaseDirectory, p.upDirectory, p.downDirectory].forM DiskChange.ensureAll

/-- The settings of a project. -/
def loadConfig (p : Project) (disk : Disk) (env : Environment) :
    Except Failure ProjectConfig := do
  let text ← if ← (disk.pathExists p.configFile).mapError .ofFile then
      some <$> (disk.readText p.configFile).mapError .read
    else pure none
  (ProjectConfig.load text env).mapError .ofConfig

end Project

end StyleLedger
