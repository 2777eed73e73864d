import StyleLedger.Source.Position
import StyleLedger.Selector.Pseudo
import StyleLedger.Text.Quoted

/-!
Why a source text is refused.

A text that does not follow the grammar is refused where it stops making sense. A text that does may
still hold a selector function with the wrong arguments, or lack a semicolon where they are insisted
on.
-/

namespace StyleLedger.Source

/-- What is wrong with a selector definition. -/
inductive DefinitionFault
  /-- A function takes exactly one text. -/
  | oneText (function : String)
  /-- A pseudo-class with a problem. -/
  | pseudo (value : String) (problem : Pseudo.Problem)
  /-- An attribute takes one to four texts. -/
  | attributeTexts
  /-- No attribute operator is written like this. -/
  | attributeOperator (operator : String)
  /-- No attribute flag is written like this. -/
  | attributeFlag (flag : String)
  /-- A function takes no texts. -/
  | onlySelectors (function : String)
  /-- A function takes at least one selector. -/
  | someSelector (function : String)
  /-- A function takes two selectors. -/
  | twoSelectors (function : String)
  /-- No join is written like this. -/
  | joinKind (word : String)
deriving Repr, DecidableEq, Inhabited

/-- The wording of a fault. -/
def DefinitionFault.message : DefinitionFault → String
  | oneText function => function ++ "() takes exactly one quoted argument"
  | pseudo value problem => "Invalid pseudo-selector '" ++ value ++ "': " ++ problem.message
  | attributeTexts => "ATTR() takes one to four quoted arguments"
  | attributeOperator operator => "Unknown attribute operator '" ++ operator ++ "'"
  | attributeFlag flag => "Unknown attribute flag '" ++ flag ++ "'"
  | onlySelectors function => function ++ "() takes selectors, not strings"
  | someSelector function => function ++ "() requires at least one selector"
  | twoSelectors function => function ++ "() takes exactly two selectors"
  | joinKind word => Text.quoted word ++ " is not a valid JoinType"

/-- Why a source text is refused. -/
inductive ParseError
  /-- The text does not follow the grammar from this place on. -/
  | unexpected (place : Position)
  /-- A selector definition is wrong. -/
  | definition (fault : DefinitionFault) (place : Option Position)
  /-- Statements without a semicolon, although semicolons are insisted on. -/
  | semicolons (statements found : Int)
  /-- A file is not text. -/
  | notText (file reason : String) (offset : Nat)
  /-- A file cannot be read. -/
  | unreadable (file cause : String)
deriving Repr, DecidableEq, Inhabited

namespace ParseError

/-- The wording of an error; a departure from the grammar has none of its own. -/
def message : ParseError → String
  | unexpected _ => "syntax"
  | definition fault _ => fault.message
  | semicolons statements found =>
    "Strict semicolons: " ++ toString statements ++ " statement(s) but only " ++
      toString found ++ " terminating semicolon(s)"
  | notText file reason offset =>
    file ++ ": not valid UTF-8 (" ++ reason ++ " at byte " ++ toString offset ++ ")"
  | unreadable file cause => "Cannot read " ++ file ++ ": " ++ cause

/-- The place of an error, if it has one. -/
def place? : ParseError → Option Position
  | unexpected place => some place
  | definition _ place => place
  | _ => none

end ParseError

end StyleLedger.Source
