/-!
Places in a source text: a line and a column, both counted from one, columns in characters.
-/

namespace StyleLedger.Source

/-- A place in a source text. -/
structure Position where
  line : Nat := 1
  column : Nat := 1
deriving Repr, DecidableEq, Inhabited

namespace Position

/-- The place after one more character: only a line feed starts a new line. -/
def next (p : Position) (c : Char) : Position :=
  if c = '\n' then { line := p.line + 1, column := 1 } else { p with column := p.column + 1 }

/-- The place after some more characters. -/
def advance (p : Position) (cs : List Char) : Position :=
  cs.foldl next p

@[simp] theorem advance_nil (p : Position) : p.advance [] = p := rfl

theorem advance_append (p : Position) (cs ds : List Char) :
    p.advance (cs ++ ds) = (p.advance cs).advance ds := by
  simp [advance]

end Position

end StyleLedger.Source
