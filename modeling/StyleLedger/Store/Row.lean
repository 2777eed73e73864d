import StyleLedger.Json.Shape
import StyleLedger.Store.Cell

/-!
The rows of the store, table by table, and the log of migrations.

A row is a list of cells under the names of its table's columns. A column that the store insists on
may still be empty in a row that is only offered to it; the store refuses such a row.
-/

namespace StyleLedger

/-- A row. -/
structure Row where
  cells : List (String × Json)
deriving Repr, DecidableEq, Inhabited

namespace Row

/-- The cell of a column. -/
def get (r : Row) (column : String) : Json :=
  Json.optional column r.cells

/-- The identifier of a row. -/
def id (r : Row) : Json := r.get "id"

end Row

/-- The row as a table holds it. -/
def Schema.store (schema : Schema) (r : Row) : Row :=
  ⟨schema.columns.map fun c => (c.name, c.affinity.store (r.get c.name))⟩

/-- An entry of the log: a migration file that was applied. -/
structure LogEntry where
  migrationId : String
  filename : String
  direction : String
  checksum : String
  appliedAt : String
  status : String := "ok"
  seq : Option Int := none
deriving Repr, DecidableEq, Inhabited

/-- All rows of a store and its log. -/
structure Snapshot where
  tokens : List Row := []
  selectors : List Row := []
  layers : List Row := []
  styles : List Row := []
  properties : List Row := []
  fontFaces : List Row := []
  keyframes : List Row := []
  rawBlocks : List Row := []
  imports : List Row := []
  pages : List Row := []
  counterStyles : List Row := []
  fontFeatureValues : List Row := []
  fontPaletteValues : List Row := []
  startingStyles : List Row := []
  migrations : List LogEntry := []
deriving Repr, DecidableEq, Inhabited

namespace Snapshot

/-- The tables in the order in which they are filled: those that are pointed at come first. -/
def tables (s : Snapshot) : List (Schema × List Row) := [
  (.tokens, s.tokens),
  (.selectors, s.selectors),
  (.layers, s.layers),
  (.styles, s.styles),
  (.properties, s.properties),
  (.fontFaces, s.fontFaces),
  (.keyframes, s.keyframes),
  (.rawBlocks, s.rawBlocks),
  (.imports, s.imports),
  (.pages, s.pages),
  (.counterStyles, s.counterStyles),
  (.fontFeatureValues, s.fontFeatureValues),
  (.fontPaletteValues, s.fontPaletteValues),
  (.startingStyles, s.startingStyles)]

/-- The snapshot with every row as its table holds it. -/
def stored (s : Snapshot) : Snapshot :=
  { tokens := s.tokens.map Schema.tokens.store
    selectors := s.selectors.map Schema.selectors.store
    layers := s.layers.map Schema.layers.store
    styles := s.styles.map Schema.styles.store
    properties := s.properties.map Schema.properties.store
    fontFaces := s.fontFaces.map Schema.fontFaces.store
    keyframes := s.keyframes.map Schema.keyframes.store
    rawBlocks := s.rawBlocks.map Schema.rawBlocks.store
    imports := s.imports.map Schema.imports.store
    pages := s.pages.map Schema.pages.store
    counterStyles := s.counterStyles.map Schema.counterStyles.store
    fontFeatureValues := s.fontFeatureValues.map Schema.fontFeatureValues.store
    fontPaletteValues := s.fontPaletteValues.map Schema.fontPaletteValues.store
    startingStyles := s.startingStyles.map Schema.startingStyles.store
    migrations := s.migrations }

end Snapshot

end StyleLedger
