import StyleLedger.Json.Value

/-!
Conditions under which a style applies.

A condition is built from *atoms* by conjunction and disjunction, exactly as it was written; nothing
is simplified here. `Condition.describe` writes a condition in the source language, and
`Condition.alternatives` expands it into a disjunction of conjunctions.

What an atom holds is a text when a statement has written it, or null where a bound or an axis is
absent; any other value reads as itself in words.
-/

namespace StyleLedger

/-- One indivisible test. -/
inductive Atom
  /-- Bounds on the width of the viewport. -/
  | width (min max : Json)
  /-- A media feature with the value it must have. -/
  | feature (name value : Json)
  /-- Bounds on the size of a named container, along an axis. -/
  | container (name min max axis : Json)
  /-- A style query on a named container. -/
  | containerStyle (name condition : Json)
  /-- A feature query. -/
  | supports (condition : Json)
deriving Repr, DecidableEq, Inhabited

/-- A test made of atoms. -/
inductive Condition
  /-- A single test. -/
  | atom (a : Atom)
  /-- Every part must hold. -/
  | all (parts : List Condition)
  /-- Some part must hold. -/
  | any (parts : List Condition)
deriving Repr, Inhabited

/-! ## Atoms in words -/

namespace Atom

/-- Whether the atom is about a container. -/
def isContainer : Atom → Bool
  | container .. | containerStyle .. => true
  | _ => false

/-- The two bounds of a container test, each as a test of its own. -/
def containerBounds (name min max axis : Json) : List String :=
  let along := if axis.isTrue then " inline" else ""
  let bound (sign : String) (b : Json) : List String :=
    if b.isNull then []
    else ["container " ++ name.shown ++ along ++ " " ++ sign ++ " " ++ b.shown]
  bound ">=" min ++ bound "<=" max

/-- A test on the width of the viewport. -/
def describeWidth (min max : Json) : String :=
  if min.isNull then "width <= " ++ max.shown
  else if max.isNull then "width >= " ++ min.shown
  else "width BETWEEN " ++ min.shown ++ " AND " ++ max.shown

/-- An atom in the source language. -/
def describe : Atom → String
  | width min max => describeWidth min max
  | feature name value => name.shown ++ " = " ++ value.shown
  | container name min max axis =>
    match containerBounds name min max axis with
    | [] => "container " ++ name.shown
    | bounds => " AND ".intercalate bounds
  | containerStyle name condition => "container " ++ name.shown ++ " style" ++ condition.shown
  | supports condition => "supports" ++ condition.shown

end Atom

namespace Condition

/-! ## Conditions in words -/

mutual

/-- A condition in the source language; compound parts stand in brackets. -/
def describe : Condition → String
  | atom a => a.describe
  | all parts => " AND ".intercalate (describeParts parts)
  | any parts => " OR ".intercalate (describeParts parts)

/-- The parts of a compound condition, each as it stands inside the compound. -/
def describeParts : List Condition → List String
  | [] => []
  | p :: ps =>
    (match p with
      | atom a => a.describe
      | all _ | any _ => "(" ++ describe p ++ ")") :: describeParts ps

end

/-! ## Alternatives -/

mutual

/-- The alternatives of a condition, each a list of atoms that must hold together. Those of a
disjunction come part by part; those of a conjunction combine one alternative of each part, the
last part changing fastest. -/
def alternatives : Condition → List (List Atom)
  | atom a => [[a]]
  | all parts => conjunctions parts
  | any parts => disjunctions parts

/-- One alternative of every part, in all ways. -/
def conjunctions : List Condition → List (List Atom)
  | [] => [[]]
  | p :: ps => (alternatives p).flatMap fun c => (conjunctions ps).map (c ++ ·)

/-- The alternatives of each part in turn. -/
def disjunctions : List Condition → List (List Atom)
  | [] => []
  | p :: ps => alternatives p ++ disjunctions ps

end

end Condition

end StyleLedger
