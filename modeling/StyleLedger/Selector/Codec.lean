import StyleLedger.Selector.Basic
import StyleLedger.Json.Encode
import StyleLedger.Json.Shape

/-!
Selector definitions as stored texts.

* `Selector.toText` — writes a definition.
* `Selector.ofText` — reads one back; what is wrong with a text is said by a `ShapeError`.
-/

namespace StyleLedger.Selector

/-- A field that is left out when there is nothing to say. -/
def optionalField (name : String) (value : Json) : List (String × Json) :=
  if value.isNull then [] else [(name, value)]

/-- A definition with a single value. -/
def simple (kind : String) (value : Json) : Json :=
  .object [("kind", .text kind), ("value", value)]

mutual

/-- A definition as a structured value. -/
def toJson : Selector → Json
  | element v => simple "Element" v
  | cls v => simple "Class" v
  | id v => simple "Id" v
  | pseudo v => simple "Pseudo" v
  | pseudoElement v => simple "PseudoElement" v
  | attr name value operator flag =>
    .object ([("kind", .text "Attr"), ("name", name)] ++ optionalField "value" value ++
      optionalField "operator" operator ++ optionalField "flag" flag)
  | reference name => .object [("kind", .text "Ref"), ("name", name)]
  | and parts => .object [("kind", .text "And"), ("selectors", .array (toJsons parts))]
  | or parts => .object [("kind", .text "Or"), ("selectors", .array (toJsons parts))]
  | child p c => .object [("kind", .text "Child"), ("parent", toJson p), ("child", toJson c)]
  | descendant a d =>
    .object [("kind", .text "Descendant"), ("ancestor", toJson a), ("descendant", toJson d)]
  | join kind l r =>
    .object [("kind", .text "Join"), ("joinType", .text kind.name), ("left", toJson l),
      ("right", toJson r)]

/-- Some definitions as structured values. -/
def toJsons : List Selector → List Json
  | [] => []
  | s :: ss => toJson s :: toJsons ss

end

/-- The definition with a single value of a given kind. -/
def ofSimple? (kind : String) : Option (Json → Selector) :=
  if kind = "Element" then some element
  else if kind = "Class" then some cls
  else if kind = "Id" then some id
  else if kind = "Pseudo" then some pseudo
  else if kind = "PseudoElement" then some pseudoElement
  else none

/-- The kind of join that a value names. -/
def joinKindOf (v : Json) : Except ShapeError JoinKind :=
  let unknown := ShapeError.unknownName v "JoinType"
  match v with
  | .text s =>
    match JoinKind.ofName? s with
    | some k => .ok k
    | none => .error unknown
  | _ => .error unknown

/-- The definition that a value of at most a given number of levels stands for. -/
def ofJsonWithin : Nat → Json → Except ShapeError Selector
  | depth + 1, .object fields =>
    let parts : Except ShapeError (List Selector) := do
      let items ← (← Json.required "selectors" fields).asItems .lacking
      items.mapM (ofJsonWithin depth)
    let side (name : String) : Except ShapeError Selector := do
      ofJsonWithin depth (← Json.required name fields)
    let kind := Json.optional "kind" fields
    match kind with
    | .text name =>
      match ofSimple? name with
      | some make => make <$> Json.required "value" fields
      | none =>
        if name = "Attr" then do
          let name ← Json.required "name" fields
          let value := Json.optional "value" fields
          let operator := Json.optional "operator" fields
          let flag := Json.optional "flag" fields
          return attr name value operator flag
        else if name = "Ref" then reference <$> Json.required "name" fields
        else if name = "And" then and <$> parts
        else if name = "Or" then or <$> parts
        else if name = "Child" then do
          let p ← side "parent"
          let c ← side "child"
          return child p c
        else if name = "Descendant" then do
          let a ← side "ancestor"
          let d ← side "descendant"
          return descendant a d
        else if name = "Join" then do
          let kind ← joinKindOf (← Json.required "joinType" fields)
          let l ← side "left"
          let r ← side "right"
          return join kind l r
        else .error (.selectorKind kind)
    | .array _ | .object _ => .error .wrongType
    | kind => .error (.selectorKind kind)
  | _, _ => .error .lacking

/-- The definition that a value stands for. -/
def ofJson (v : Json) : Except ShapeError Selector :=
  ofJsonWithin v.depth v

/-- A definition as a stored text. -/
def toText (s : Selector) : String :=
  s.toJson.write

/-- The definition in a stored text. -/
def ofText (s : String) : Except ShapeError Selector := do
  ofJson (← Json.ofText s)

end StyleLedger.Selector
