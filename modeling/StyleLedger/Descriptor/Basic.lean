import StyleLedger.Condition
import StyleLedger.Text.Blank
import StyleLedger.Text.LetterCase

/-!
Descriptors: the wrappers of a rule, in normal form.

A condition addresses one bucket of properties per alternative, and every alternative merges into a
single descriptor (or into none, when it asks for nothing). Only media conditions can be spread over
alternatives; a condition on containers that has more than one alternative is refused, and so is a
mixture of two containers, or of a container and the viewport.

* `Descriptor.ofCondition` — the descriptors a condition addresses.
* `Descriptor.wrappers` — what a style sheet writes around a rule, outermost first.
* `Descriptor.isWritable` — whether it can be written; only a stored style query may fail to be.
-/

namespace StyleLedger

/-- What a descriptor wraps its rule in. -/
inductive DescriptorKind
  | media
  | container
  | containerStyle
  | supports
  /-- A stored kind that this library does not produce. -/
  | other (cell : Json)
deriving Repr, DecidableEq, Inhabited

/-- The cell in which a kind is stored. -/
def DescriptorKind.cell : DescriptorKind → Json
  | media => .text "media"
  | container => .text "container"
  | containerStyle => .text "container-style"
  | supports => .text "supports"
  | other cell => cell

/-- The kind stored in a cell. -/
def DescriptorKind.ofCell (cell : Json) : DescriptorKind :=
  if cell = .text "media" then media
  else if cell = .text "container" then container
  else if cell = .text "container-style" then containerStyle
  else if cell = .text "supports" then supports
  else other cell

/-- The wrapper of a bucket. `condition` is the text of a style query or a feature query;
`supports` is a further feature query around a wrapper of another kind. What is absent is null. -/
structure Descriptor where
  kind : DescriptorKind
  min : Json := .null
  max : Json := .null
  axis : Json := .null
  name : Json := .null
  condition : Json := .null
  features : List String := []
  supports : Json := .null
deriving Repr, DecidableEq, Inhabited

/-- What a wrapper is found under. -/
def Descriptor.key (d : Descriptor) : Descriptor :=
  { d with
    kind := .ofCell d.kind.cell.key
    min := d.min.key, max := d.max.key, axis := d.axis.key, name := d.name.key
    condition := d.condition.key, supports := d.supports.key }

instance : Keyed (Option Descriptor) := ⟨Option.map Descriptor.key⟩

/-- Why a condition cannot be brought into normal form. -/
inductive CompositionError
  /-- Alternatives on containers. -/
  | containerAlternatives
  /-- Two containers in one alternative. -/
  | severalContainers
  /-- A container together with the viewport. -/
  | mediaWithContainer
  /-- Something other than a text where only a text makes sense. -/
  | notText
deriving Repr, DecidableEq, Inhabited

/-- The wording of a refusal. -/
def CompositionError.message : CompositionError → String
  | containerAlternatives => "OR composition not supported for container WHERE"
  | severalContainers => "Cannot combine multiple containers"
  | mediaWithContainer => "Cannot combine media and container conditions"
  | notText => "a text is needed"

namespace Descriptor

/-! ## Merging one alternative -/

/-- A text without the blanks at its ends. -/
def trimmed : Json → Except CompositionError String
  | .text s => .ok (Text.trimmed s)
  | _ => .error .notText

/-- A bound without the blanks at its ends; null unless it says something, that is, when it is
absent, blank or infinite. -/
def bound (value : Json) : Except CompositionError Json :=
  if value.isNull then .ok .null
  else do
    let v ← trimmed value
    return if v.isEmpty || Text.upper v == "INF" then .null else .text v

/-- A media feature in brackets. -/
def featureText (name value : Json) : Except CompositionError String :=
  match name with
  | .text name => do
    let value ← trimmed value
    return "(" ++ name.map (fun c => if c = '_' then '-' else c) ++ ": " ++ value ++ ")"
  | _ => .error .notText

/-- The container an alternative is about. -/
inductive ContainerPart
  | query (name min max axis : Json)
  | style (name condition : Json)
deriving Repr, DecidableEq, Inhabited

/-- What has been gathered from the atoms of an alternative so far. -/
structure Parts where
  min : Json := .null
  max : Json := .null
  features : List String := []
  supports : List String := []
  container : Option ContainerPart := none
deriving Repr, DecidableEq, Inhabited

namespace Parts

/-- The first of two values, unless it is null. -/
def orPrevious (v previous : Json) : Json :=
  if v.isNull then previous else v

/-- A container test joins what is known of the same container; a later bound replaces an earlier
one. -/
def mergeContainer (current : Option ContainerPart) (name min max axis : Json) :
    Except CompositionError ContainerPart :=
  match current with
  | none => .ok (.query name min max axis)
  | some (.style ..) => .error .severalContainers
  | some (.query name' min' max' axis') =>
    if name'.alike name then
      .ok (.query name' (orPrevious min min') (orPrevious max max') (axis.orElse axis'))
    else .error .severalContainers

/-- Takes one more atom in. -/
def add (p : Parts) : Atom → Except CompositionError Parts
  | .width min max => do
    let lo ← if min.isNull then pure p.min else bound min
    let hi ← if max.isNull then pure p.max else bound max
    return { p with min := lo, max := hi }
  | .feature name value => do
    let text ← featureText name value
    return { p with features := p.features ++ [text] }
  | .supports condition => do
    let text ← trimmed condition
    return { p with supports := p.supports ++ [text] }
  | .container name min max axis => do
    let c ← mergeContainer p.container name min max axis
    return { p with container := some c }
  | .containerStyle name condition =>
    match p.container with
    | some _ => .error .severalContainers
    | none => .ok { p with container := some (.style name condition) }

/-- Takes every atom of an alternative in, from left to right. -/
def ofAtoms (atoms : List Atom) : Except CompositionError Parts :=
  atoms.foldlM add {}

/-- The feature query of an alternative. -/
def supportsText (p : Parts) : Json :=
  Json.textOrNull (Text.nonEmpty? (" and ".intercalate p.supports))

/-- Whether the alternative asks anything of the viewport. -/
def asksMedia (p : Parts) : Bool :=
  !p.min.isNull || !p.max.isNull || !p.features.isEmpty

/-- The wrapper of an alternative. -/
def descriptor (p : Parts) : Except CompositionError (Option Descriptor) :=
  match p.container with
  | some c =>
    if p.asksMedia then .error .mediaWithContainer
    else
      match c with
      | .style name condition => .ok <| some
          { kind := .containerStyle, name, condition, supports := p.supportsText }
      | .query name min max axis => do
        let lo ← bound min
        let hi ← bound max
        return some
          { kind := .container, name, min := lo, max := hi, axis, supports := p.supportsText }
  | none =>
    if p.asksMedia then .ok <| some
      { kind := .media, min := p.min, max := p.max, features := p.features,
        supports := p.supportsText }
    else if p.supportsText.isNull then .ok none
    else .ok <| some { kind := .supports, condition := p.supportsText }

end Parts

/-- The wrapper that a list of atoms asks for. -/
def ofAtoms (atoms : List Atom) : Except CompositionError (Option Descriptor) := do
  let parts ← Parts.ofAtoms atoms
  parts.descriptor

/-- The wrappers a condition addresses, one per alternative; no condition addresses the bucket
without a wrapper. -/
def ofCondition : Option Condition → Except CompositionError (List (Option Descriptor))
  | none => .ok [none]
  | some c =>
    let alternatives := c.alternatives
    if 1 < alternatives.length && alternatives.any (·.any Atom.isContainer) then
      .error .containerAlternatives
    else alternatives.mapM ofAtoms

/-! ## Wrappers -/

/-- A bound as a test on a size. -/
def sizeTests (d : Descriptor) (size : String) : List String :=
  let test (word : String) (b : Json) : List String :=
    if b.isTrue then ["(" ++ word ++ "-" ++ size ++ ": " ++ b.shown ++ ")"] else []
  test "min" d.min ++ test "max" d.max

/-- A style query without its own outer brackets. -/
def unbracketed (text : String) : String :=
  match text.toList with
  | '(' :: inner => if inner.getLast? = some ')' then String.ofList inner.dropLast else text
  | _ => text

/-- The wrapper that the kind of a descriptor stands for. -/
def ownWrapper (d : Descriptor) : Option String :=
  match d.kind with
  | .media =>
    match d.sizeTests "width" ++ d.features with
    | [] => none
    | tests => some ("@media " ++ " and ".intercalate tests)
  | .container =>
    let size := if d.axis = .text "inline" then "inline-size" else "width"
    let tests := d.sizeTests size
    let condition := if tests.isEmpty then "" else " " ++ " and ".intercalate tests
    some ("@container " ++ d.name.shown ++ condition)
  | .containerStyle =>
    some ("@container " ++ d.name.shown ++ " style(" ++
      unbracketed (d.condition.orElse (.text "")).shown ++ ")")
  | .supports => some ("@supports " ++ d.condition.shown)
  | .other _ => none

/-- Whether the wrappers of a descriptor can be written: the condition of a style query must be a
text if there is one, because its brackets are looked at. -/
def isWritable (d : Descriptor) : Bool :=
  d.kind != .containerStyle || !d.condition.isTrue || d.condition.isText

/-- The wrappers of a descriptor, outermost first. -/
def wrappers (d : Descriptor) : List String :=
  (if d.supports.isTrue then ["@supports " ++ d.supports.shown] else []) ++ d.ownWrapper.toList

/-- The wrappers of a bucket. -/
def wrappersOf (d : Option Descriptor) : List String :=
  d.elim [] wrappers

/-- The lines that open the wrappers of a bucket. -/
def headers (d : Option Descriptor) : List String :=
  (wrappersOf d).map (· ++ " \x7b")

/-- The wrappers of a bucket in one line. -/
def summary (d : Option Descriptor) : String :=
  match wrappersOf d with
  | [] => "(no condition)"
  | ws => " ".intercalate ws

end Descriptor

end StyleLedger
