import StyleLedger.Text.Category
import StyleLedger.Text.LetterCase
import StyleLedger.Text.Search

/-!
The names of migration files.

A file that is named by a stamp of at least eight digits, two underscores and a text without dots
has these as its identifier; any other file has its name without the ending.
-/

namespace StyleLedger.Migration

open Text

/-- The ending of migration files. -/
def ending : List Char := ".sql".toList

/-- Whether a name has the ending, letter case aside. -/
def hasEnding (name : String) : Bool :=
  ending.isSuffixOf (name.toList.map asciiLower)

/-- A name without the ending, if it has it. -/
def withoutEnding (cs : List Char) : List Char :=
  if ending.isSuffixOf cs then cs.take (cs.length - ending.length) else cs

/-- The identifier in a name that begins with a stamp. A line feed after the ending is passed
over. -/
def stampedId? (cs : List Char) : Option (List Char) :=
  let digits := cs.takeWhile isDecimal
  match cs.dropWhile isDecimal with
  | '_' :: '_' :: rest =>
    let title := rest.takeWhile (· != '.')
    let tail := rest.dropWhile (· != '.')
    if 8 ≤ digits.length && !title.isEmpty && (tail == ending || tail == ending ++ ['\n']) then
      some (digits ++ '_' :: '_' :: title)
    else none
  | _ => none

/-- The identifier of the migration in a file. -/
def idOf (name : String) : String :=
  String.ofList ((stampedId? name.toList).getD (withoutEnding name.toList))

/-- Characters that a slug keeps. -/
def isSlugChar (c : Char) : Bool :=
  isAsciiLetter c || isAsciiDigit c || c == '_' || c == '-'

/-- The run of other characters at the front of a text. -/
def foreignExtent (cs : List Char) : Nat :=
  (cs.takeWhile (!isSlugChar ·)).length

/-- A title as a part of a file name: without blanks around it and the ending, and with every run
of other characters replaced by an underscore. -/
def slug (title : String) : String :=
  String.ofList (replaceAll foreignExtent (fun _ => ['_']) (withoutEnding (trim title.toList)))

end StyleLedger.Migration
