import StyleLedger.Descriptor.Basic
import StyleLedger.Text.Search

/-!
How a descriptor is stored: seven columns of a row, any of which may be empty.

The features of a media descriptor are kept as one text, joined by `and`, and are found again by
splitting that text at the word `and` between blanks, in any letter case.
-/

namespace StyleLedger

/-- The columns of a stored style that hold its descriptor. -/
structure DescriptorColumns where
  kind : Json := .null
  min : Json := .null
  max : Json := .null
  axis : Json := .null
  containerName : Json := .null
  condition : Json := .null
  supports : Json := .null
deriving Repr, DecidableEq, Inhabited

namespace Descriptor

/-- The length of a separator at the front of a text: blanks, the word `and`, blanks. -/
def separatorLength (cs : List Char) : Nat :=
  let before := (cs.takeWhile Text.isBlank).length
  let word := (cs.drop before).take 3
  let after := ((cs.drop (before + 3)).takeWhile Text.isBlank).length
  if before = 0 || word.map Text.asciiLower != ['a', 'n', 'd'] || after = 0 then 0
  else before + 3 + after

/-- The features kept in a text. -/
def featuresOfText (text : String) : List String :=
  (Text.parts separatorLength text.toList).map String.ofList

/-- The columns of a bucket's wrapper. -/
def columns : Option Descriptor → DescriptorColumns
  | none => {}
  | some d =>
    let base : DescriptorColumns := { kind := d.kind.cell, supports := d.supports }
    match d.kind with
    | .media =>
      { base with
        min := d.min, max := d.max
        condition := Json.textOrNull (Text.nonEmpty? (" and ".intercalate d.features)) }
    | .container =>
      { base with containerName := d.name, min := d.min, max := d.max, axis := d.axis }
    | .containerStyle | .supports =>
      { base with containerName := d.name, condition := d.condition }
    | .other _ => base

/-- The wrapper kept in some columns. A kind that is not known is taken for a feature query. -/
def ofColumns (c : DescriptorColumns) : Option Descriptor :=
  if c.kind.isTrue then some <|
    match DescriptorKind.ofCell c.kind with
    | .media =>
      { kind := .media, min := c.min, max := c.max
        features := if c.condition.isTrue then featuresOfText c.condition.shown else []
        supports := c.supports }
    | .container =>
      { kind := .container, name := c.containerName, min := c.min, max := c.max, axis := c.axis
        supports := c.supports }
    | .containerStyle =>
      { kind := .containerStyle, name := c.containerName, condition := c.condition
        supports := c.supports }
    | .supports | .other _ => { kind := .supports, condition := c.condition }
  else none

/-- Whether a wrapper can be read from some columns: the features of a media descriptor, if there
are any, must be a text. -/
def areReadable (c : DescriptorColumns) : Bool :=
  c.kind != .text "media" || !c.condition.isTrue || c.condition.isText

/-- Whether a wrapper kept in some columns can address a bucket: each of its parts is a single
value. -/
def areScalar (c : DescriptorColumns) : Bool :=
  match ofColumns c with
  | none => true
  | some d =>
    d.min.isScalar && d.max.isScalar && d.axis.isScalar && d.name.isScalar &&
      d.condition.isScalar && d.supports.isScalar

end Descriptor

end StyleLedger
