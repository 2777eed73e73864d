import StyleLedger.Json.Decode

/-!
What can go wrong when a stored value is taken for a definition, a list of declarations, a name or
the like: it is no structured value, or the value has the wrong shape.
-/

namespace StyleLedger

/-- Why a stored value cannot be understood. -/
inductive ShapeError
  /-- The text is not a structured value. -/
  | unreadable (e : Json.ReadError)
  /-- A value is asked for something that values of its type do not have. -/
  | lacking
  /-- A value of another type is needed. -/
  | wrongType
  /-- A field is missing. -/
  | missing (field : String)
  /-- No selector is of this kind. -/
  | selectorKind (kind : Json)
  /-- No member of an enumeration has this name. -/
  | unknownName (name : Json) (enumeration : String)
deriving Repr, Inhabited

namespace ShapeError

/-- The wording of an error. -/
def message : ShapeError → String
  | unreadable e => e.message
  | lacking => "value lacks what is asked of it"
  | wrongType => "value of the wrong type"
  | missing field => Text.quoted field
  | selectorKind kind => "Unknown selector kind: " ++ kind.quoted
  | unknownName name enumeration => name.quoted ++ " is not a valid " ++ enumeration

/-- Nothing, if a condition holds, and an error otherwise. -/
def require (condition : Bool) (e : ShapeError) : Except ShapeError Unit :=
  if condition then .ok () else .error e

end ShapeError

namespace Json

mutual

/-- The number of levels of a value. -/
def depth : Json → Nat
  | array items => depthItems items + 1
  | object fields => depthFields fields + 1
  | _ => 1

/-- The number of levels below an array. -/
def depthItems : List Json → Nat
  | [] => 0
  | v :: vs => max (depth v) (depthItems vs)

/-- The number of levels below an object. -/
def depthFields : List (String × Json) → Nat
  | [] => 0
  | (_, v) :: fs => max (depth v) (depthFields fs)

end

/-- A field that must be there. -/
def required (name : String) (fields : List (String × Json)) : Except ShapeError Json :=
  match field? name fields with
  | some v => .ok v
  | none => .error (.missing name)

/-- A field that may be missing, and is null then. -/
def optional (name : String) (fields : List (String × Json)) : Json :=
  (field? name fields).getD .null

/-- The items of a list. The empty text and the empty object have no items either; the parts of any
other text or object are not what a list holds, which is the error given. -/
def asItems (otherwise : ShapeError) : Json → Except ShapeError (List Json)
  | array items => .ok items
  | text s => if s.isEmpty then .ok [] else .error otherwise
  | object fields => if fields.isEmpty then .ok [] else .error otherwise
  | _ => .error .wrongType

/-- The value of a stored text. -/
def ofText (s : String) : Except ShapeError Json :=
  (read s).mapError .unreadable

/-- The value of a cell that holds a stored text. -/
def ofCell : Json → Except ShapeError Json
  | text s => ofText s
  | _ => .error .wrongType

end Json

end StyleLedger
