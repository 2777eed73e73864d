import StyleLedger.Text.Search

/-!
Paths: steps from the working directory or from the root.

A path is written with slashes between its steps. Empty steps and single dots say nothing and are
dropped when a path is read; double dots are kept, because they show when the path is written.

* `Path.ofText`, `Path.text` — a path and its text.
* `Path.place` — the place that a path leads to.
* `Path.stepsOf` — the steps of a text with its single dots.
-/

namespace StyleLedger

/-- Where a path starts. Exactly two slashes start at the root too, and are kept in its text. -/
inductive PathStart
  | workingDirectory
  | root
  | doubleRoot
deriving Repr, DecidableEq, Inhabited

/-- What stands before the steps of a path. -/
def PathStart.text : PathStart → String
  | workingDirectory => ""
  | root => "/"
  | doubleRoot => "//"

/-- A path. -/
structure Path where
  start : PathStart := .workingDirectory
  steps : List String := []
deriving Repr, DecidableEq, Inhabited

/-- A place on a disk: the steps that lead to it from the working directory, or from the root when
the first step is a slash. -/
abbrev Place := List String

namespace Path

/-- The step to the directory above. -/
def up : String := ".."

/-- The step that stays where it is. -/
def stay : String := "."

/-- The place of the root. -/
def rootPlace : Place := ["/"]

/-- Where a text starts. -/
def startOf (cs : List Char) : PathStart :=
  match (cs.takeWhile (· = '/')).length with
  | 0 => .workingDirectory
  | 2 => .doubleRoot
  | _ => .root

/-- The steps of a text, single dots included; a slash at the end says to stay. -/
def stepsOf (cs : List Char) : List String :=
  let steps := (Text.splitAt '/' cs).filter (!·.isEmpty)
  (if cs.getLast? = some '/' then steps ++ [stay.toList] else steps).map String.ofList

/-- The path that a text stands for. -/
def ofText (s : String) : Path :=
  { start := startOf s.toList, steps := (stepsOf s.toList).filter (· ≠ stay) }

/-- A path in words. -/
def text (p : Path) : String :=
  if p.start = .workingDirectory && p.steps.isEmpty then stay
  else p.start.text ++ "/".intercalate p.steps

/-- A path followed by another; one that starts at the root stands alone. -/
def join (p q : Path) : Path :=
  if q.start = .workingDirectory then { p with steps := p.steps ++ q.steps } else q

/-- The path to an entry of a directory. -/
def child (p : Path) (name : String) : Path :=
  p.join (ofText name)

/-- Whether a text is a single step. -/
def isStep (name : String) : Bool :=
  ofText name = { steps := [name] }

/-- The last step. -/
def name (p : Path) : String :=
  p.steps.getLast?.getD ""

/-- The path of the first steps of a path. -/
def take (p : Path) (n : Nat) : Path :=
  { p with steps := p.steps.take n }

/-- The path to the directory of an entry. -/
def parent (p : Path) : Path :=
  { p with steps := p.steps.dropLast }

/-- The place above a place. Above the working directory the way leads outside; above the root there
is nothing else. -/
def above (place : Place) : Place :=
  if place.all (· = up) then place ++ [up]
  else if place = rootPlace then place
  else place.dropLast

/-- The place reached from another by one step. -/
def step (place : Place) (s : String) : Place :=
  if s = up then above place
  else if s = stay then place
  else place ++ [s]

/-- The place where the steps of a path start. -/
def origin (start : PathStart) : Place :=
  if start = .workingDirectory then [] else rootPlace

/-- The place that a path leads to. -/
def place (p : Path) : Place :=
  p.steps.foldl step (origin p.start)

/-- The path to a place. -/
def ofPlace : Place → Path
  | "/" :: steps => { start := .root, steps }
  | steps => { steps }

end Path

end StyleLedger
