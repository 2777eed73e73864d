import StyleLedger.Json.Encode
import StyleLedger.Json.Shape

/-!
Declarations and keyframes: as a statement writes them, and as they are stored.

A stored declaration holds texts when a statement has written it. The stored texts that hold lists
of them may come from elsewhere, so that any value may stand in the place of a text.

* `StoredDeclaration.listToText`, `StoredDeclaration.listOfText` — a list as a stored text.
* `StoredKeyframe.listToText`, `StoredKeyframe.listOfText` — likewise for keyframes.
-/

namespace StyleLedger

/-- A property and its value, as written. -/
structure Declaration where
  name : String
  value : String
deriving Repr, DecidableEq, Inhabited

/-- The declarations at one point of an animation. -/
structure Keyframe where
  offset : String
  declarations : List Declaration
deriving Repr, DecidableEq, Inhabited

/-- A property and its value, as stored. -/
structure StoredDeclaration where
  name : Json
  value : Json
deriving Repr, DecidableEq, Inhabited

/-- The declarations at one point of an animation, as stored. -/
structure StoredKeyframe where
  offset : Json
  declarations : List StoredDeclaration
deriving Repr, DecidableEq, Inhabited

/-- The first value declared for a property. -/
def Declaration.valueOf? (name : String) (ds : List Declaration) : Option String :=
  (ds.find? (·.name = name)).map (·.value)

/-- A declaration as it is stored. -/
def Declaration.stored (d : Declaration) : StoredDeclaration :=
  { name := .text d.name, value := .text d.value }

namespace StoredDeclaration

/-- A declaration as a structured value. -/
def toJson (d : StoredDeclaration) : Json :=
  .object [("name", d.name), ("value", d.value)]

/-- The declaration that a value stands for. -/
def ofJson : Json → Except ShapeError StoredDeclaration
  | .object fields => do
    let name ← Json.required "name" fields
    let value ← Json.required "value" fields
    return { name, value }
  | _ => .error .wrongType

/-- A list of declarations as a stored text. -/
def listToText (ds : List StoredDeclaration) : String :=
  (Json.array (ds.map toJson)).write

/-- The declarations that a value stands for. -/
def listOfJson (v : Json) : Except ShapeError (List StoredDeclaration) := do
  (← v.asItems .wrongType).mapM ofJson

/-- The declarations in a stored text; an absent or empty one holds none. -/
def listOfText (v : Json) : Except ShapeError (List StoredDeclaration) := do
  listOfJson (← Json.ofCell (v.orElse (.text "[]")))

end StoredDeclaration

namespace StoredKeyframe

/-- A keyframe as a structured value. -/
def toJson (f : StoredKeyframe) : Json :=
  .object [("offset", f.offset), ("props", .array (f.declarations.map StoredDeclaration.toJson))]

/-- The keyframe that a value stands for. -/
def ofJson : Json → Except ShapeError StoredKeyframe
  | .object fields => do
    let offset ← Json.required "offset" fields
    let declarations ←
      StoredDeclaration.listOfJson ((Json.field? "props" fields).getD (.array []))
    return { offset, declarations }
  | _ => .error .wrongType

/-- A list of keyframes as a stored text. -/
def listToText (fs : List StoredKeyframe) : String :=
  (Json.array (fs.map toJson)).write

/-- The keyframes in a stored text; an absent or empty one holds none. -/
def listOfText (v : Json) : Except ShapeError (List StoredKeyframe) := do
  (← (← Json.ofCell (v.orElse (.text "[]"))).asItems .wrongType).mapM ofJson

end StoredKeyframe

end StyleLedger
