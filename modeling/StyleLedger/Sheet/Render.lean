import StyleLedger.Sheet.Basic
import StyleLedger.Json.Shape

/-!
Writing a style sheet as text.

The sections come in a fixed order: imports, tokens, the preamble, rules outside any layer, layers,
animations, and raw blocks. Rules of one scope stand together under one header. Every block at the
outer level is followed by an empty line, and so is every rule and wrapper outside a scope.

* `Sheet.render` — the text, where every cell stands for its text.
* `Sheet.checkRender` — the first cell of a sheet that cannot be written. A sheet that is planned
  from statements has none.
-/

namespace StyleLedger.Sheet

/-- One step of indentation. -/
def indentStep : String := "  "

/-- A line that opens a block. -/
def opening (indent header : String) : String := indent ++ header ++ " \x7b"

/-- A line that closes a block. -/
def closing (indent : String) : String := indent ++ "\x7d"

/-- A line with a declaration. -/
def declarationLine (indent : String) (d : SheetDeclaration) : String :=
  indent ++ d.name ++ ": " ++ d.value.shown ++ ";"

mutual

/-- The lines of a block. -/
def blockLines (indent : String) : SheetBlock → List String
  | .block header declarations children =>
    opening indent header.shown ::
      (declarations.map (declarationLine (indent ++ indentStep)) ++
        childLines (indent ++ indentStep) children ++ [closing indent])

/-- The lines of the blocks inside a block. -/
def childLines (indent : String) : List SheetBlock → List String
  | [] => []
  | b :: bs => blockLines indent b ++ childLines indent bs

end

/-- Lines inside wrappers, outermost first; `gap` follows the end of each wrapper. -/
def wrapLines (gap : List String) (body : String → List String) (indent : String) :
    List String → List String
  | [] => body indent
  | w :: ws =>
    opening indent w :: (wrapLines gap body (indent ++ indentStep) ws ++ closing indent :: gap)

/-- The lines of a rule. -/
def ruleLines (gap : List String) (indent : String) (r : SheetRule) : List String :=
  wrapLines gap (fun indent =>
    opening indent r.selector.shown ::
      (r.declarations.map (declarationLine (indent ++ indentStep)) ++ closing indent :: gap))
    indent (Descriptor.wrappersOf r.descriptor)

/-- The rules of one scope each, in the order of the first rule of a scope. -/
def scopeGroups (rules : List SheetRule) : List ((Json × Json) × List SheetRule) :=
  Table.groups (fun r => (r.scopeRoot, r.scopeLimit)) rules

/-- The header of a scope. -/
def scopeHeader (root limit : Json) : String :=
  "@scope (" ++ (root.orElse (.text "")).shown ++ ")" ++
    (if limit.isTrue then " to (" ++ limit.shown ++ ")" else "")

/-- The lines of the rules of one scope. -/
def scopeLines (scope : Json × Json) (rules : List SheetRule) : List String :=
  match scope with
  | (.null, .null) => rules.flatMap (ruleLines [""] "")
  | (root, limit) =>
    opening "" (scopeHeader root limit) ::
      (rules.flatMap (ruleLines [] indentStep) ++ [closing "", ""])

/-- The lines of some rules. -/
def rulesLines (rules : List SheetRule) : List String :=
  (scopeGroups rules).flatMap fun (scope, rules) => scopeLines scope rules

/-- The lines of a layer; an empty layer has none. -/
def layerLines (sheet : Sheet) (layer : Json) : List String :=
  match sheet.rulesIn layer with
  | [] => []
  | rules => opening "" ("@layer " ++ layer.shown) :: (rulesLines rules ++ [closing "", ""])

/-- The line of an import. -/
def importLine (i : SheetImport) : String :=
  "@import url('" ++ i.path.shown ++ "')" ++
    (if i.media.isTrue then " " ++ i.media.shown else "") ++ ";"

/-- The lines of the imports. -/
def importLines (imports : List SheetImport) : List String :=
  if imports.isEmpty then [] else imports.map importLine ++ [""]

/-- The lines of the tokens. -/
def rootLines (root : List SheetDeclaration) : List String :=
  if root.isEmpty then []
  else opening "" ":root" :: (root.map (declarationLine indentStep) ++ [closing "", ""])

/-- The lines of a style sheet. -/
def lines (sheet : Sheet) : List String :=
  importLines sheet.imports ++
  rootLines sheet.root ++
  sheet.preamble.flatMap (fun b => blockLines "" b ++ [""]) ++
  rulesLines (sheet.rulesIn .null) ++
  sheet.layerOrder.flatMap sheet.layerLines ++
  sheet.keyframes.flatMap (fun b => blockLines "" b ++ [""]) ++
  sheet.raw.flatMap (fun css => [css.shown, ""])

/-- A style sheet as text. -/
def render (sheet : Sheet) : String :=
  "\n".intercalate sheet.lines

/-! ## What cannot be written -/

/-- The scopes of some rules must be single values, and their wrappers writable. -/
def checkRules (rules : List SheetRule) : Except ShapeError Unit := do
  ShapeError.require (rules.all fun r => r.scopeRoot.isScalar && r.scopeLimit.isScalar) .wrongType
  ShapeError.require ((scopeGroups rules).all fun (_, group) => group.all (·.isWritable)) .lacking

/-- Every cell that cannot be written, in the order of the sections. -/
def checkRender (sheet : Sheet) : Except ShapeError Unit := do
  checkRules (sheet.rulesIn .null)
  sheet.layerOrder.forM fun layer => checkRules (sheet.rulesIn layer)
  ShapeError.require (sheet.raw.all (·.isText)) .wrongType

/-- A style sheet all of whose cells can be written, as text. -/
def write (sheet : Sheet) : Except ShapeError String := do
  sheet.checkRender
  return sheet.render

end StyleLedger.Sheet
