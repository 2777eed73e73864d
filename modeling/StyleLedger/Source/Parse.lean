import StyleLedger.Source.Reading

/-!
From a source text to its statements.

The whole text must follow the grammar before any selector definition is looked at; the definitions
are then checked in order, and semicolons are counted last.
-/

namespace StyleLedger.Source

/-- Refuses fewer semicolons than statements. -/
def checkSemicolons (semicolons statements : Int) : Except ParseError Unit :=
  if semicolons < statements then .error (.semicolons statements semicolons) else .ok ()

/-- The statements of a list of tokens. -/
def statementsOf (tokens : List Token) : Except ParseError (List Statement) :=
  match Reading.program tokens with
  | some drafts => drafts.mapM Draft.toStatement
  | none => .error (.unexpected ((tokens.head?.map (·.position)).getD {}))

/-- The statements of a source text. With `strict`, every statement needs its semicolon. -/
def parse (source : String) (strict : Bool) : Except ParseError (List Statement) := do
  let tokens ← (tokenize source).mapError .unexpected
  let statements ← statementsOf tokens
  if strict then checkSemicolons (semicolons tokens) statements.length
  return statements

end StyleLedger.Source
