import StyleLedger.Failure
import StyleLedger.Source.Parse

/-!
The statements of a file.
-/

namespace StyleLedger.Source

/-- The error of a file that cannot be read; it names the file without its directory. -/
def ParseError.ofRead (path : Path) : ReadFault → ParseError
  | .file e => .unreadable path.name e.message
  | .notText f => .notText path.name f.reason.message f.start

/-- The statements of a file. -/
def parseFile (disk : Disk) (path : Path) (strict : Bool) : Except Failure (List Statement) := do
  let source ← (disk.readText path).mapError (.ofRead fun cause => .parse (.ofRead path cause))
  (parse source strict).mapError .parse

end StyleLedger.Source
