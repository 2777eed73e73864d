import StyleLedger.Cascade.State
import StyleLedger.Identity
import StyleLedger.Value

/-!
Applying statements to a cascade, from left to right.

A statement can only be refused for its condition, and then it has done nothing: the condition is
looked at before anything is written. `Cascade.run` reports the first refusal together with the
state that the statements before it left.
-/

namespace StyleLedger.Cascade

/-! ## Styles -/

/-- Declarations in normal form. -/
def clean (ds : List Declaration) : List Declaration :=
  ds.map fun d => { name := Value.canonicalName d.name, value := Value.normalize d.value }

/-- Declarations in normal form, as they are stored. -/
def cleanStored (ds : List Declaration) : List StoredDeclaration :=
  (clean ds).map (·.stored)

/-- The property that a declaration writes now. -/
def newProperty (index : BucketIndex) (ctx : Context) (d : Declaration) : StyleProperty :=
  let sequence : Json := .number index.nextSequence
  let migration : Json := .text ctx.migrationId
  { value := .text (Value.normalize d.value)
    rowId := .text (Identity.entityId .style (Identity.styleKey migration sequence))
    sequence
    spacingMode := .textOrNull ctx.spacingMode
    originFile := .textOrNull ctx.originFile
    migrationId := migration }

/-- Writes one declaration to a bucket. -/
def writeOne (ctx : Context) (mode : WriteMode) (k : BucketKey) (index : BucketIndex)
    (d : Declaration) : BucketIndex :=
  let name : Json := .text (Value.canonicalName d.name)
  let p := newProperty index ctx d
  match mode with
  | .add => (index.add k name p).1
  | .set => index.set k name p

/-- Writes some declarations to a bucket; without any, the bucket only counts as written. -/
def writeAll (ctx : Context) (mode : WriteMode) (ds : List Declaration) (index : BucketIndex)
    (k : BucketKey) : BucketIndex :=
  if ds.isEmpty then (index.touch k).1 else ds.foldl (writeOne ctx mode k) index

/-- The keys of the buckets that a target addresses under a layer. -/
def keysOf (layer : Option String) (target : StyleTarget) (ds : List (Option Descriptor)) :
    List BucketKey :=
  ds.map fun descriptor =>
    { selector := .text target.selector, layer := .textOrNull layer
      scopeRoot := .textOrNull target.scopeRoot, scopeLimit := .textOrNull target.scopeLimit
      descriptor }

/-- The selectors that a target names. -/
def selectorsOf (target : StyleTarget) : List String :=
  (target.selector :: (target.scopeRoot.toList ++ target.scopeLimit.toList)).filter (!·.isEmpty)

/-- Writes a style: the selectors it names become known, and its declarations go to every bucket it
addresses. -/
def writeStyle (s : Cascade) (ctx : Context) (target : StyleTarget) (mode : WriteMode)
    (ds : List Declaration) : Except CompositionError (Context × Cascade) := do
  let descriptors ← Descriptor.ofCondition target.condition
  let (after, s) := (selectorsOf target).foldl mention (ctx, s)
  let keys := keysOf ctx.activeLayer target descriptors
  return (after, { s with buckets := keys.foldl (writeAll ctx mode ds) s.buckets })

/-! ## At-rules -/

/-- Writes a font face under its family and its source. -/
def putFontFace (s : Cascade) (ctx : Context) (family : String) (ds : List Declaration) :
    Cascade :=
  let src : Json := .textOrNull (Declaration.valueOf? "src" (clean ds))
  { s with
    fontFaces := s.fontFaces.put (Identity.fontFaceKey (.text family) src)
      { family := .text family, src, declarations := cleanStored ds
        provenance := ctx.provenance } }

/-- Registers a custom property. -/
def putProperty (s : Cascade) (ctx : Context) (name : String) (ds : List Declaration) : Cascade :=
  let valueOf (part : String) : Json := .textOrNull (Declaration.valueOf? part (clean ds))
  { s with
    properties := s.properties.put (.text name)
      { valueSyntax := valueOf "syntax"
        inherits := valueOf "inherits"
        initialValue := valueOf "initial_value"
        provenance := ctx.provenance } }

/-- An at-rule written now, in normal form. -/
def ruleBlock (ctx : Context) (ds : List Declaration) : RuleBlock :=
  { declarations := cleanStored ds, provenance := ctx.provenance }

/-- Feature values written now. The names of features are kept as they are. -/
def featureBlock (ctx : Context) (ds : List Declaration) : RuleBlock :=
  { declarations := ds.map fun d =>
      { name := .text d.name, value := .text (Value.normalize d.value) }
    provenance := ctx.provenance }

/-- A keyframe written now, in normal form. -/
def frame (f : Keyframe) : StoredKeyframe :=
  { offset := .text f.offset, declarations := cleanStored f.declarations }

/-- The key of a page. -/
def pageName (pseudo : Option String) : Json :=
  .text (pseudo.getD "")

/-! ## Statements -/

/-- Applies one statement. -/
def step (ctx : Context) (s : Cascade) : Statement → Except CompositionError (Context × Cascade)
  | .createToken name value =>
    .ok (ctx.tick, s.putToken ctx (.text name) (.text (Value.normalize value)))
  | .dropToken name | .deleteToken name =>
    .ok (ctx.tickIf (s.hasToken (.text name)), s.deleteToken ctx (.text name))
  | .createSelector name definition => .ok (ctx.tick, s.putSelector ctx (.text name) definition)
  | .dropSelector name =>
    .ok (ctx.tickIf (s.hasSelector (.text name)), s.deleteSelector ctx (.text name))
  | .createStyle target ds => s.writeStyle ctx target .set ds
  | .alterStyle target mode ds => s.writeStyle ctx target mode ds
  | .deleteStyle selector property =>
    let name? : Option Json := property.map fun p => .text (Value.canonicalName p)
    let layer : Json := .textOrNull ctx.activeLayer
    .ok (ctx, { s with buckets := (s.buckets.delete (.text selector) layer name?).1 })
  | .dropStyle selector =>
    let layer : Json := .textOrNull ctx.activeLayer
    .ok (ctx, { s with buckets := (s.buckets.drop (.text selector) layer).1 })
  | .createLayers names =>
    .ok (ctx, { s with layers := s.layers.declare (names.map .text) ctx.provenance })
  | .setLayer name =>
    .ok ({ ctx with activeLayer := some name },
      { s with layers := s.layers.encounter (.text name) ctx.provenance })
  | .setSpacing mode => .ok ({ ctx with spacingMode := some mode }, s)
  | .raw css =>
    let entry : RawEntry :=
      { css := .text css, sequence := .int s.raw.length, provenance := ctx.provenance }
    .ok (ctx, { s with raw := s.raw ++ [entry] })
  | .imports kind path media =>
    let entry : ImportEntry :=
      { kind, path := .text path, media := .textOrNull media, sequence := .int s.imports.length
        provenance := ctx.provenance }
    .ok (ctx, { s with imports := s.imports ++ [entry] })
  | .createFontFace family ds => .ok (ctx, s.putFontFace ctx family ds)
  | .dropFontFace family =>
    .ok (ctx, { s with fontFaces := s.fontFaces.filter fun _ f => f.family ≠ .text family })
  | .createKeyframes name frames =>
    let animation : Animation := { frames := frames.map frame, provenance := ctx.provenance }
    .ok (ctx, { s with keyframes := s.keyframes.put (.text name) animation })
  | .dropKeyframes name => .ok (ctx, { s with keyframes := s.keyframes.erase (.text name) })
  | .createProperty name ds => .ok (ctx, s.putProperty ctx name ds)
  | .dropProperty name => .ok (ctx, { s with properties := s.properties.erase (.text name) })
  | .createPage ds pseudo =>
    .ok (ctx, { s with pages := s.pages.put (pageName pseudo) (ruleBlock ctx ds) })
  | .dropPage pseudo => .ok (ctx, { s with pages := s.pages.erase (pageName pseudo) })
  | .createCounterStyle name ds =>
    .ok (ctx, { s with counterStyles := s.counterStyles.put (.text name) (ruleBlock ctx ds) })
  | .dropCounterStyle name =>
    .ok (ctx, { s with counterStyles := s.counterStyles.erase (.text name) })
  | .createFontFeatureValues family ds =>
    .ok (ctx, { s with
      fontFeatureValues := s.fontFeatureValues.put (.text family) (featureBlock ctx ds) })
  | .dropFontFeatureValues family =>
    .ok (ctx, { s with fontFeatureValues := s.fontFeatureValues.erase (.text family) })
  | .createFontPaletteValues name ds =>
    .ok (ctx, { s with
      fontPaletteValues := s.fontPaletteValues.put (.text name) (ruleBlock ctx ds) })
  | .dropFontPaletteValues name =>
    .ok (ctx, { s with fontPaletteValues := s.fontPaletteValues.erase (.text name) })
  | .createStartingStyle selector ds =>
    let (after, s) := mention (ctx, s) selector
    .ok (after, { s with
      startingStyles := s.startingStyles.put (.text selector) (ruleBlock ctx ds) })
  | .dropStartingStyle selector =>
    .ok (ctx, { s with startingStyles := s.startingStyles.erase (.text selector) })
  | .selectStyles .. | .describeSelector _ | .begin | .commit | .rollback => .ok (ctx, s)

/-- What applying some statements has led to: the context and the state reached, and the refusal
that ended it, if there was one. -/
structure Outcome where
  context : Context
  state : Cascade
  refusal : Option CompositionError := none
deriving Repr, Inhabited

/-- Applies statements until one is refused. -/
def run (ctx : Context) (s : Cascade) : List Statement → Outcome
  | [] => { context := ctx, state := s }
  | stmt :: rest =>
    match step ctx s stmt with
    | .ok (ctx, s) => run ctx s rest
    | .error e => { context := ctx, state := s, refusal := some e }

/-- The state after all of some statements. -/
def build (ctx : Context) (s : Cascade) (statements : List Statement) :
    Except CompositionError Cascade :=
  let outcome := run ctx s statements
  match outcome.refusal with
  | none => .ok outcome.state
  | some e => .error e

end StyleLedger.Cascade
