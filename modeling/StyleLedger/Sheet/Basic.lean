import StyleLedger.Descriptor.Basic

/-!
Style sheets, as data: every section of the output, with all names and values resolved.

What a sheet takes over from a cascade as it is, is a text when a statement has written it, or null
where it is absent.
-/

namespace StyleLedger

/-- A declaration ready to be written. -/
structure SheetDeclaration where
  name : String
  value : Json
  originFile : Json := .null
deriving Repr, DecidableEq, Inhabited

/-- A block in braces, possibly with blocks inside. -/
inductive SheetBlock
  | block (header : Json) (declarations : List SheetDeclaration) (children : List SheetBlock)
deriving Repr, Inhabited

/-- An imported style sheet. -/
structure SheetImport where
  path : Json
  media : Json
deriving Repr, DecidableEq, Inhabited

/-- The rule of one bucket. -/
structure SheetRule where
  selector : Json
  declarations : List SheetDeclaration
  selectorName : Json := .text ""
  layer : Json := .null
  scopeRoot : Json := .null
  scopeLimit : Json := .null
  descriptor : Option Descriptor := none
deriving Repr, DecidableEq, Inhabited

/-- A style sheet. -/
structure Sheet where
  imports : List SheetImport := []
  root : List SheetDeclaration := []
  preamble : List SheetBlock := []
  rules : List SheetRule := []
  layerOrder : List Json := []
  keyframes : List SheetBlock := []
  raw : List Json := []
deriving Repr, Inhabited

/-- The rules of a layer, or those outside any layer, which is null. -/
def Sheet.rulesIn (sheet : Sheet) (layer : Json) : List SheetRule :=
  sheet.rules.filter (·.layer.alike layer)

/-- The layer, scope and wrappers of a rule in one line. -/
def SheetRule.summary (r : SheetRule) : String :=
  let layer := if r.layer.isTrue then ["@layer " ++ r.layer.shown] else []
  let limit := if r.scopeLimit.isTrue then " to (" ++ r.scopeLimit.shown ++ ")" else ""
  let scope :=
    if r.scopeRoot.isTrue then ["@scope (" ++ r.scopeRoot.shown ++ ")" ++ limit] else []
  " ".intercalate (layer ++ scope ++ [Descriptor.summary r.descriptor])

/-- Whether the wrappers of a rule can be written. -/
def SheetRule.isWritable (r : SheetRule) : Bool :=
  r.descriptor.all (·.isWritable)

end StyleLedger
