import StyleLedger.Sheet.Basic
import StyleLedger.Cascade.State
import StyleLedger.Config.Compiler
import StyleLedger.Json.Shape
import StyleLedger.Value

/-!
The style sheet of a cascade.

Selector names become selector texts, by the definitions as they finally stand, and values lose
their token references and spacing macros.

* `Sheet.ofCascade` — the style sheet, where every cell stands for its text.
* `Sheet.checkCascade` — the first cell of a cascade that would have to be a text and is not. A
  cascade that statements have written has none.
* `Sheet.plan` — the style sheet if the check passes.
-/

namespace StyleLedger.Sheet

/-- A list without repetitions, each item at the place of its first mention. -/
def distinct (xs : List Json) : List Json :=
  xs.foldl (fun seen x => if seen.any x.alike then seen else seen ++ [x]) []

/-- The order of the layers: the default ones, the declared ones, and then the others in the order
of their first bucket. -/
def layerOrderOf (s : Cascade) (config : CompilerConfig) : List Json :=
  distinct (config.defaultLayers.map .text ++ s.layers.declared ++
    (s.buckets.buckets.keys.map (·.layer)).filter (!·.isNull))

/-- A value without its token references. -/
def substituted (config : CompilerConfig) (value : Json) : String :=
  Value.substituteTokens config.tokenPrefix value.shown

/-- Declarations ready to be written. -/
def declarationsOf (config : CompilerConfig) (ds : List StoredDeclaration) :
    List SheetDeclaration :=
  ds.map fun d =>
    { name := Value.cssName d.name.shown, value := .text (substituted config d.value) }

/-- A block without blocks inside. -/
def leaf (header : Json) (ds : List SheetDeclaration) : SheetBlock :=
  .block header ds []

/-- The block of a registered property; what was not said is left out. -/
def propertyBlock (config : CompilerConfig) (name : Json) (p : PropertyEntry) : SheetBlock :=
  let line (key : String) (value : Json) (resolve : Json → Json) : List SheetDeclaration :=
    if value.isTrue then [{ name := key, value := resolve value }] else []
  let substitute (value : Json) : Json := .text (substituted config value)
  leaf (.text ("@property " ++ name.shown))
    (line "syntax" p.valueSyntax substitute ++ line "inherits" p.inherits (fun v => v) ++
      line "initial-value" p.initialValue substitute)

/-- The declarations of a font face besides its family. -/
def faceDeclarations (f : FontFace) : List StoredDeclaration :=
  f.declarations.filter (·.name ≠ .text "font_family")

/-- The block of a font face. -/
def fontFaceBlock (config : CompilerConfig) (f : FontFace) : SheetBlock :=
  leaf (.text "@font-face")
    ({ name := "font-family", value := .text ("\"" ++ f.family.shown ++ "\"") } ::
      declarationsOf config (faceDeclarations f))

/-- The block name and the feature name in a declared feature: what stands before and after its
first underscore. -/
def featureParts? (name : String) : Option (String × String) :=
  let cs := name.toList
  match cs.dropWhile (· != '_') with
  | _ :: c :: rest =>
    some (String.ofList (cs.takeWhile (· != '_')), String.ofList (c :: rest))
  | _ => none

/-- Feature values, grouped into blocks in the order of their first mention. -/
def featureBlocks (config : CompilerConfig) (ds : List StoredDeclaration) : List SheetBlock :=
  let grouped : Table String (List SheetDeclaration) := ds.foldl (fun t d =>
    match featureParts? d.name.shown with
    | none => t
    | some (block, feature) =>
      t.put block ((t.get? block).getD [] ++
        [{ name := feature, value := .text (substituted config d.value) }])) {}
  grouped.entries.map fun (block, ds) => leaf (.text ("@" ++ block)) ds

/-- The header of a page rule. -/
def pageHeader (key : Json) : String :=
  if key.isTrue then "@page " ++ key.shown else "@page"

/-- The at-rules that stand before the style rules. -/
def preambleOf (s : Cascade) (config : CompilerConfig) : List SheetBlock :=
  let blocks (t : Table Json RuleBlock) (header : Json → Json) : List SheetBlock :=
    t.entries.map fun (key, b) => leaf (header key) (declarationsOf config b.declarations)
  s.properties.entries.map (fun (name, p) => propertyBlock config name p) ++
  s.fontFaces.values.map (fontFaceBlock config) ++
  blocks s.pages (fun key => .text (pageHeader key)) ++
  blocks s.counterStyles (fun key => .text ("@counter-style " ++ key.shown)) ++
  s.fontFeatureValues.entries.map (fun (family, b) =>
    .block (.text ("@font-feature-values \"" ++ family.shown ++ "\"")) []
      (featureBlocks config b.declarations)) ++
  blocks s.fontPaletteValues (fun key => .text ("@font-palette-values " ++ key.shown)) ++
  if s.startingStyles.isEmpty then []
  else [.block (.text "@starting-style") [] (blocks s.startingStyles s.selectorCell)]

/-- What a scope stands for; an absent or empty one is null. -/
def scopeCell (s : Cascade) (name : Json) : Json :=
  if name.isTrue then s.selectorCell name else .null

/-- The rule of a bucket. -/
def ruleOf (s : Cascade) (config : CompilerConfig) (k : BucketKey) (b : Bucket) : SheetRule :=
  { selector := s.selectorCell k.selector
    declarations := b.properties.entries.map fun (name, p) =>
      { name := Value.cssName name.shown
        value := .text (Value.expandSpacing (config.spacingFor p.spacingMode)
          (substituted config p.value))
        originFile := p.originFile }
    selectorName := k.selector
    layer := k.layer
    scopeRoot := scopeCell s k.scopeRoot
    scopeLimit := scopeCell s k.scopeLimit
    descriptor := k.descriptor }

/-- The buckets that hold something, in order. -/
def fullBuckets (s : Cascade) : List (BucketKey × Bucket) :=
  s.buckets.buckets.entries.filter (!·.2.properties.isEmpty)

/-- The rules of all buckets that hold something, in bucket order. -/
def rulesOf (s : Cascade) (config : CompilerConfig) : List SheetRule :=
  (fullBuckets s).map fun (k, b) => ruleOf s config k b

/-- The block of an animation. -/
def animationBlock (config : CompilerConfig) (name : Json) (a : Animation) : SheetBlock :=
  .block (.text ("@keyframes " ++ name.shown)) []
    (a.frames.map fun f => leaf f.offset (declarationsOf config f.declarations))

/-- The style sheet of a cascade. -/
def ofCascade (s : Cascade) (config : CompilerConfig) : Sheet :=
  { imports := (s.imports.filter (·.kind = .css)).map fun i => { path := i.path, media := i.media }
    root := s.liveTokens.map fun (name, t) =>
      { name := Value.tokenVariable config.tokenPrefix name.shown
        value := .text (substituted config t.value) }
    preamble := preambleOf s config
    rules := rulesOf s config
    layerOrder := layerOrderOf s config
    keyframes := s.keyframes.entries.map fun (name, a) => animationBlock config name a
    raw := (s.raw.map (·.css)).filter (·.isTrue) }

/-! ## What has to be a text -/

/-- A value is searched for token references. -/
def checkValue (value : Json) : Except ShapeError Unit :=
  ShapeError.require value.isText .wrongType

/-- The hyphens of a name are exchanged. -/
def checkName (name : Json) : Except ShapeError Unit :=
  ShapeError.require name.isText .lacking

/-- The name and the value of each declaration. -/
def checkDeclarations (ds : List StoredDeclaration) : Except ShapeError Unit :=
  ds.forM fun d => do
    checkName d.name
    checkValue d.value

/-- The name of each feature, and the value of those that are written. -/
def checkFeatures (ds : List StoredDeclaration) : Except ShapeError Unit :=
  ds.forM fun d => do
    checkName d.name
    if (featureParts? d.name.shown).isSome then checkValue d.value

/-- A named selector stands for something. -/
def checkSelector (s : Cascade) (name : Json) : Except ShapeError Unit :=
  ShapeError.require (s.isResolvable name) .wrongType

/-- What is said of a registered property. -/
def checkProperty (p : PropertyEntry) : Except ShapeError Unit := do
  if p.valueSyntax.isTrue then checkValue p.valueSyntax
  if p.initialValue.isTrue then checkValue p.initialValue

/-- A property of a bucket. Its spacing mode counts only if the value may hold a macro. -/
def checkStyle (config : CompilerConfig) (name : Json) (p : StyleProperty) :
    Except ShapeError Unit := do
  checkName name
  checkValue p.value
  let mode := config.spacingFor p.spacingMode
  if (substituted config p.value).toList.contains '(' && mode.isTrue then
    ShapeError.require mode.isText .lacking

/-- The properties of a bucket, its selector and its scope. -/
def checkBucket (s : Cascade) (config : CompilerConfig) (k : BucketKey) (b : Bucket) :
    Except ShapeError Unit := do
  b.properties.entries.forM fun (name, p) => checkStyle config name p
  checkSelector s k.selector
  if k.scopeRoot.isTrue then checkSelector s k.scopeRoot
  if k.scopeLimit.isTrue then checkSelector s k.scopeLimit

/-- Every cell that has to be a text, in the order in which a style sheet is planned. -/
def checkCascade (s : Cascade) (config : CompilerConfig) : Except ShapeError Unit := do
  let blocks (t : Table Json RuleBlock) : Except ShapeError Unit :=
    t.values.forM fun b => checkDeclarations b.declarations
  s.liveTokens.forM fun (name, t) => do
    checkValue name
    checkValue t.value
  s.properties.values.forM checkProperty
  s.fontFaces.values.forM fun f => checkDeclarations (faceDeclarations f)
  blocks s.pages
  blocks s.counterStyles
  s.fontFeatureValues.values.forM fun b => checkFeatures b.declarations
  blocks s.fontPaletteValues
  s.startingStyles.entries.forM fun (name, b) => do
    checkSelector s name
    checkDeclarations b.declarations
  (fullBuckets s).forM fun (k, b) => checkBucket s config k b
  s.keyframes.values.forM fun a => a.frames.forM fun f => checkDeclarations f.declarations

/-- The style sheet of a cascade all of whose cells allow it. -/
def plan (s : Cascade) (config : CompilerConfig) : Except ShapeError Sheet := do
  checkCascade s config
  return ofCascade s config

end StyleLedger.Sheet
