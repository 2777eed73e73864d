import StyleLedger.Cascade.State
import StyleLedger.Descriptor.Columns
import StyleLedger.Identity
import StyleLedger.Selector.Codec
import StyleLedger.Store.Row

/-!
Cascades as rows and back.

* `Snapshot.ofCascade` — the rows of a cascade.
* `Snapshot.checkCascade` — whether every name that an identifier is computed from is a text.
* `Snapshot.toCascade` — the cascade of some rows. Rows of styles whose selector is not there are
  passed over; a layer or a scope that is not there counts as none.
-/

namespace StyleLedger.Snapshot

open Identity

/-! ## Rows of a cascade -/

/-- The identifier of an entity with a name, as a cell. -/
def idCell (kind : EntityKind) (name : Json) : Json := .text (entityId kind name.shown)

/-- The identifier of a selector. -/
def selectorId (name : Json) : Json := idCell .selector name

/-- The identifier of a layer. -/
def layerId (name : Json) : Json := idCell .layer name

/-- The identifier of what a key names, null where the key is absent or empty. -/
def reference (identify : Json → Json) (key : Json) : Json :=
  if key.isTrue then identify key else .null

/-- The cells that say where a row comes from. -/
def originCells (p : Provenance) : List (String × Json) :=
  [("origin_file", p.originFile), ("migration_id", p.migrationId)]

/-- The row of a token. -/
def tokenRow (name : Json) (t : TokenEntry) : Row :=
  ⟨[("id", idCell .token name), ("name", name), ("value", t.value)] ++ originCells t.provenance ++
    [("deleted", t.deleted), ("created_at", t.createdAt), ("updated_at", t.updatedAt)]⟩

/-- The row of a selector. -/
def selectorRow (name : Json) (e : SelectorEntry) : Row :=
  ⟨[("id", selectorId name), ("name", name),
    ("def_json", .textOrNull (e.definition.map Selector.toText))] ++ originCells e.provenance ++
    [("deleted", e.deleted), ("created_at", e.createdAt), ("updated_at", e.updatedAt)]⟩

/-- The row of a layer. -/
def layerRow (r : LayerRegistry) (name : Json) (p : Provenance) : Row :=
  let index : Json := match r.orderIndex? name with
    | some n => .int n
    | none => .null
  ⟨[("id", layerId name), ("name", name), ("order_index", index)] ++ originCells p⟩

/-- The cells of a descriptor. -/
def descriptorCells (c : DescriptorColumns) : List (String × Json) :=
  [("resp_kind", c.kind), ("resp_min", c.min), ("resp_max", c.max), ("resp_axis", c.axis),
   ("container_name", c.containerName), ("condition", c.condition), ("supports", c.supports)]

/-- The row of a property of a bucket. -/
def styleRow (k : BucketKey) (touched name : Json) (p : StyleProperty) : Row :=
  ⟨[("id", p.rowId), ("selector_id", selectorId k.selector), ("prop", name), ("value", p.value),
    ("layer_id", reference layerId k.layer), ("scope_root_id", reference selectorId k.scopeRoot),
    ("scope_limit_id", reference selectorId k.scopeLimit)] ++
    descriptorCells (Descriptor.columns k.descriptor) ++
    [("spacing_mode", p.spacingMode), ("sequence", p.sequence), ("touched", touched),
     ("origin_file", p.originFile), ("migration_id", p.migrationId)]⟩

/-- The rows of a bucket. -/
def styleRows (k : BucketKey) (b : Bucket) : List Row :=
  b.properties.entries.map fun (name, p) => styleRow k b.touched name p

/-- The row of a registered property. -/
def propertyRow (name : Json) (p : PropertyEntry) : Row :=
  ⟨[("id", idCell .property name), ("name", name), ("syntax", p.valueSyntax),
    ("inherits", p.inherits), ("initial_value", p.initialValue)] ++ originCells p.provenance⟩

/-- A list of declarations as a cell. -/
def declarationsCell (ds : List StoredDeclaration) : Json :=
  .text (StoredDeclaration.listToText ds)

/-- The row of a font face. -/
def fontFaceRow (key : String) (f : FontFace) : Row :=
  ⟨[("id", .text (entityId .fontFace key)), ("family", f.family), ("src", f.src),
    ("props_json", declarationsCell f.declarations)] ++ originCells f.provenance⟩

/-- The row of an animation. -/
def animationRow (name : Json) (a : Animation) : Row :=
  ⟨[("id", idCell .keyframes name), ("name", name),
    ("frames_json", .text (StoredKeyframe.listToText a.frames))] ++ originCells a.provenance⟩

/-- The migration in the key of a raw block or an import. -/
def keyMigration (p : Provenance) : Json :=
  p.migrationId.orElse (.text adhocMigration)

/-- The row of a raw block. -/
def rawRow (r : RawEntry) : Row :=
  ⟨[("id", .text (entityId .raw (rawKey (keyMigration r.provenance) r.sequence))), ("css", r.css),
    ("sequence", r.sequence)] ++ originCells r.provenance⟩

/-- The row of an import. -/
def importRow (i : ImportEntry) : Row :=
  ⟨[("id", .text (entityId .imports (importKey (keyMigration i.provenance) i.sequence))),
    ("import_type", .text i.kind.name), ("path", i.path), ("media", i.media),
    ("sequence", i.sequence)] ++ originCells i.provenance⟩

/-- The row of an at-rule. -/
def blockRow (id key : Json) (keyColumn bodyColumn : String) (b : RuleBlock) : Row :=
  ⟨[("id", id), (keyColumn, key), (bodyColumn, declarationsCell b.declarations)] ++
    originCells b.provenance⟩

/-- The rows of a cascade, with a log beside them. -/
def ofCascade (s : Cascade) (log : List LogEntry) : Snapshot :=
  { tokens := s.tokens.entries.map fun (name, t) => tokenRow name t
    selectors := s.selectors.entries.map fun (name, e) => selectorRow name e
    layers := s.layers.entries.entries.map fun (name, p) => layerRow s.layers name p
    styles := s.buckets.buckets.entries.flatMap fun (k, b) => styleRows k b
    properties := s.properties.entries.map fun (name, p) => propertyRow name p
    fontFaces := s.fontFaces.entries.map fun (key, f) => fontFaceRow key f
    keyframes := s.keyframes.entries.map fun (name, a) => animationRow name a
    rawBlocks := s.raw.map rawRow
    imports := s.imports.map importRow
    pages := s.pages.entries.map fun (key, b) =>
      blockRow (idCell .page (pageKey key)) (key.orElse .null) "pseudo" "props_json" b
    counterStyles := s.counterStyles.entries.map fun (key, b) =>
      blockRow (idCell .counterStyle key) key "name" "props_json" b
    fontFeatureValues := s.fontFeatureValues.entries.map fun (key, b) =>
      blockRow (idCell .fontFeatureValues key) key "family" "features_json" b
    fontPaletteValues := s.fontPaletteValues.entries.map fun (key, b) =>
      blockRow (idCell .fontPaletteValues key) key "name" "props_json" b
    startingStyles := s.startingStyles.entries.map fun (key, b) =>
      blockRow (idCell .startingStyle key) (selectorId key) "selector_id" "props_json" b
    migrations := log }

/-! ## Names -/

/-- Whether a key is absent, empty or a text. -/
def isName (key : Json) : Bool :=
  !key.isTrue || key.isText

/-- The key of a bucket that holds something names its selector, layer and scope by texts. -/
def isNamedBucket (k : BucketKey) (b : Bucket) : Bool :=
  b.properties.isEmpty ||
    (k.selector.isText && isName k.layer && isName k.scopeRoot && isName k.scopeLimit)

/-- Every name that an identifier is computed from must be a text. Cascades that statements have
written have no other names. -/
def checkCascade (s : Cascade) : Except ShapeError Unit :=
  let named (keys : List Json) : Bool := keys.all Json.isText
  ShapeError.require
    ((s.buckets.buckets.entries.all fun (k, b) => isNamedBucket k b) &&
      named s.tokens.keys && named s.selectors.keys && named s.layers.entries.keys &&
      named s.properties.keys && named s.keyframes.keys && s.pages.keys.all isName &&
      named s.counterStyles.keys && named s.fontFeatureValues.keys &&
      named s.fontPaletteValues.keys && named s.startingStyles.keys)
    .wrongType

/-! ## The cascade of some rows -/

/-- A cell that is the key of a table: it has no parts. -/
def keyCell (v : Json) : Except ShapeError Json := do
  ShapeError.require v.isScalar .wrongType
  return v

/-- Where a row comes from. -/
def provenance (r : Row) : Provenance :=
  { originFile := r.get "origin_file", migrationId := r.get "migration_id" }

/-- Writes a row to a table. Of several spellings of its name the last one counts. -/
def putRow {κ α : Type} [DecidableEq κ] [Keyed κ] (t : Table κ α) (e : κ × α) : Table κ α :=
  (t.put e.1 e.2).respell e.1

/-- A table written row by row. -/
def fill {κ α : Type} [DecidableEq κ] [Keyed κ] (rows : List Row)
    (entry : Row → Except ShapeError (κ × α)) : Except ShapeError (Table κ α) := do
  return (← rows.mapM entry).foldl putRow {}

/-- A token. -/
def tokenEntry (r : Row) : Except ShapeError (Json × TokenEntry) := do
  return (← keyCell (r.get "name"),
    { value := r.get "value", provenance := provenance r, createdAt := r.get "created_at"
      updatedAt := r.get "updated_at", deleted := r.get "deleted" })

/-- The definition in a cell; an absent or empty one holds none. -/
def definitionOf? (v : Json) : Except ShapeError (Option Selector) :=
  if v.isTrue then do return some (← Selector.ofJson (← Json.ofCell v)) else .ok none

/-- A selector. -/
def selectorEntry (r : Row) : Except ShapeError (Json × SelectorEntry) := do
  let _ ← keyCell r.id
  let definition ← definitionOf? (r.get "def_json")
  return (← keyCell (r.get "name"),
    { definition, provenance := provenance r, createdAt := r.get "created_at"
      updatedAt := r.get "updated_at", deleted := r.get "deleted" })

/-- The names of rows by identifier; of several rows with one identifier the last counts. -/
def namesById (rows : List Row) : Table Json Json :=
  Table.ofList (rows.map fun r => (r.id, r.get "name"))

/-- The name of the row that a reference points at. -/
def nameAt? (names : Table Json Json) (id : Json) : Except ShapeError (Option Json) := do
  return names.get? (← keyCell id)

/-- The rows in the order of a column. -/
def sortedBy (column : String) (rows : List Row) : Except ShapeError (List Row) := do
  ShapeError.require (Json.haveOrder (rows.map (·.get column))) .wrongType
  return rows.mergeSort fun a b => (a.get column).le (b.get column)

/-- The layers: all of them, and those with a place in the order sorted by it. -/
def layerRegistry (rows : List Row) : Except ShapeError LayerRegistry := do
  let entries ← fill rows fun r => do
    let _ ← keyCell r.id
    return (← keyCell (r.get "name"), provenance r)
  let placed ← sortedBy "order_index" (rows.filter fun r => !(r.get "order_index").isNull)
  return { entries, declared := placed.map (·.get "name") }

/-- The name a reference stands for; an absent or empty reference stands for none. -/
def nameOf (names : Table Json Json) (id : Json) : Except ShapeError Json :=
  if id.isTrue then do return (← nameAt? names id).getD .null else .ok .null

/-- The columns of a row's descriptor. -/
def descriptorColumns (r : Row) : DescriptorColumns :=
  { kind := r.get "resp_kind", min := r.get "resp_min", max := r.get "resp_max"
    axis := r.get "resp_axis", containerName := r.get "container_name"
    condition := r.get "condition", supports := r.get "supports" }

/-- The key of a style row whose selector has a name. -/
def keyOf (selectors layers : Table Json Json) (r : Row) (selector : Json) :
    Except ShapeError BucketKey := do
  let layer ← nameOf layers (r.get "layer_id")
  let scopeRoot ← nameOf selectors (r.get "scope_root_id")
  let scopeLimit ← nameOf selectors (r.get "scope_limit_id")
  let columns := descriptorColumns r
  ShapeError.require (Descriptor.areReadable columns && Descriptor.areScalar columns) .wrongType
  return { selector, layer, scopeRoot, scopeLimit, descriptor := Descriptor.ofColumns columns }

/-- A cell that is a time: it is a number. -/
def timeCell (v : Json) : Except ShapeError Json := do
  ShapeError.require v.numeral?.isSome .wrongType
  return v

/-- Adds a style row to the buckets; the first row of a bucket says when it was written last. -/
def addStyle (selectors layers : Table Json Json) (buckets : Table BucketKey Bucket) (r : Row) :
    Except ShapeError (Table BucketKey Bucket) := do
  match ← nameAt? selectors (r.get "selector_id") with
  | none | some .null => return buckets
  | some selector =>
    let k ← keyOf selectors layers r selector
    let name ← keyCell (r.get "prop")
    let property : StyleProperty :=
      { value := r.get "value", rowId := r.id, sequence := r.get "sequence"
        spacingMode := r.get "spacing_mode", originFile := r.get "origin_file"
        migrationId := r.get "migration_id" }
    let b ← match buckets.get? k with
      | some b => pure b
      | none => do pure { touched := ← timeCell (r.get "touched") }
    return buckets.put k { b with properties := putRow b.properties (name, property) }

/-- The buckets of some style rows. -/
def bucketIndex (selectors layers : Table Json Json) (rows : List Row) :
    Except ShapeError BucketIndex := do
  let buckets ← rows.foldlM (addStyle selectors layers) {}
  return buckets.entries.foldl (fun index (k, b) => index.restore k b) {}

/-- A registered property. -/
def propertyEntry (r : Row) : Except ShapeError (Json × PropertyEntry) := do
  return (← keyCell (r.get "name"),
    { valueSyntax := r.get "syntax", inherits := r.get "inherits"
      initialValue := r.get "initial_value", provenance := provenance r })

/-- A font face under its family and its source. -/
def fontFaceEntry (r : Row) : Except ShapeError (String × FontFace) := do
  let family := r.get "family"
  let src := r.get "src"
  let declarations ← StoredDeclaration.listOfText (r.get "props_json")
  return (fontFaceKey family src, { family, src, declarations, provenance := provenance r })

/-- An animation. -/
def animationEntry (r : Row) : Except ShapeError (Json × Animation) := do
  let frames ← StoredKeyframe.listOfText (r.get "frames_json")
  return (← keyCell (r.get "name"), { frames, provenance := provenance r })

/-- Raw blocks in the order of their numbers. -/
def rawEntries (rows : List Row) : Except ShapeError (List RawEntry) := do
  return (← sortedBy "sequence" rows).map fun r =>
    { css := r.get "css", sequence := r.get "sequence", provenance := provenance r }

/-- The kind of an import. -/
def importKind (v : Json) : Except ShapeError ImportKind :=
  match v with
  | .text name =>
    match ImportKind.ofName? name with
    | some kind => .ok kind
    | none => .error (.unknownName v "ImportKind")
  | _ => .error (.unknownName v "ImportKind")

/-- Imports in the order of their numbers. -/
def importEntries (rows : List Row) : Except ShapeError (List ImportEntry) := do
  (← sortedBy "sequence" rows).mapM fun r => do
    return { kind := ← importKind (r.get "import_type"), path := r.get "path"
             media := r.get "media", sequence := r.get "sequence", provenance := provenance r }

/-- An at-rule under the name in a cell. -/
def ruleBlock (name : Json) (bodyColumn : String) (r : Row) :
    Except ShapeError (Json × RuleBlock) := do
  let declarations ← StoredDeclaration.listOfText (r.get bodyColumn)
  return (← keyCell name, { declarations, provenance := provenance r })

/-- At-rules by the name in a column. -/
def ruleBlocks (keyColumn bodyColumn : String) (rows : List Row) :
    Except ShapeError (Table Json RuleBlock) :=
  fill rows fun r => ruleBlock (r.get keyColumn) bodyColumn r

/-- Pages by their pseudo-class; a page without one has the empty key. -/
def pageBlocks (rows : List Row) : Except ShapeError (Table Json RuleBlock) :=
  fill rows fun r => ruleBlock ((r.get "pseudo").orElse (.text "")) "props_json" r

/-- Adds a starting style under the name of its selector; one whose selector is not there is passed
over. -/
def addStarting (selectors : Table Json Json) (blocks : Table Json RuleBlock) (r : Row) :
    Except ShapeError (Table Json RuleBlock) := do
  match ← nameAt? selectors (r.get "selector_id") with
  | none | some .null => return blocks
  | some selector =>
    return putRow blocks (← ruleBlock selector "props_json" r)

/-- The cascade of some rows. -/
def toCascade (s : Snapshot) : Except ShapeError Cascade := do
  let tokens ← fill s.tokens tokenEntry
  let selectors ← fill s.selectors selectorEntry
  let selectorNames := namesById s.selectors
  let layers ← layerRegistry s.layers
  let buckets ← bucketIndex selectorNames (namesById s.layers) s.styles
  let properties ← fill s.properties propertyEntry
  let fontFaces ← fill s.fontFaces fontFaceEntry
  let keyframes ← fill s.keyframes animationEntry
  let raw ← rawEntries s.rawBlocks
  let imports ← importEntries s.imports
  let pages ← pageBlocks s.pages
  let counterStyles ← ruleBlocks "name" "props_json" s.counterStyles
  let fontFeatureValues ← ruleBlocks "family" "features_json" s.fontFeatureValues
  let fontPaletteValues ← ruleBlocks "name" "props_json" s.fontPaletteValues
  let startingStyles ← s.startingStyles.foldlM (addStarting selectorNames) {}
  return { tokens, selectors, layers, buckets, properties, fontFaces, keyframes, pages,
           counterStyles, fontFeatureValues, fontPaletteValues, startingStyles, raw, imports }

end StyleLedger.Snapshot
