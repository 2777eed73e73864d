import StyleLedger.Json.Value

/-!
The tables of the store and their columns.

The names are those of the stored schema. The order of the columns is the order in which a row is
written and looked at.
-/

namespace StyleLedger

/-- What a column makes of the values it is given. -/
inductive Affinity
  /-- Numbers become texts. -/
  | text
  /-- Texts that are numbers become numbers, whole ones integers. -/
  | whole
  /-- What counts as true becomes true, everything else false. -/
  | flag
deriving Repr, DecidableEq, Inhabited

/-- The tables that columns point into. -/
inductive Target
  | selectors
  | layers
deriving Repr, DecidableEq, Inhabited

/-- A column. -/
structure Column where
  name : String
  affinity : Affinity := .text
  /-- Whether the store insists that it is filled. -/
  required : Bool := false
  /-- What a new row has there; a column without such a value must be given. -/
  initial : Option Json := some .null
  /-- The table into which it points. -/
  target : Option Target := none
deriving Repr, DecidableEq, Inhabited

/-- A table. -/
structure Schema where
  table : String
  columns : List Column
deriving Repr, DecidableEq, Inhabited

namespace Column

/-- The identifier of a row. -/
def identifier : Column := { name := "id", initial := none }

/-- A column that must be given and filled. -/
def given (name : String) : Column := { name, required := true, initial := none }

/-- A column that must be given and filled, and points into a table. -/
def pointer (name : String) (target : Target) : Column :=
  { given name with target := some target }

/-- A column that may stay empty. -/
def optional (name : String) : Column := { name }

/-- A column that may stay empty, and points into a table. -/
def optionalPointer (name : String) (target : Target) : Column := { name, target := some target }

/-- A text that must be filled, and is so in a new row. -/
def filled (name value : String) : Column :=
  { name, required := true, initial := some (.text value) }

/-- A number that must be filled, and is zero in a new row. -/
def number (name : String) : Column :=
  { name, affinity := .whole, required := true, initial := some (.int 0) }

/-- A truth value that must be filled, and is false in a new row. -/
def flag (name : String) : Column :=
  { name, affinity := .flag, required := true, initial := some (.bool false) }

/-- Where a row comes from. -/
def origin : List Column := [optional "origin_file", optional "migration_id"]

/-- What is known of the life of a row. -/
def life : List Column := [flag "deleted", filled "created_at" "", filled "updated_at" ""]

end Column

namespace Schema

open Column

/-- The tokens. -/
def tokens : Schema :=
  ⟨"tokens", [identifier, given "name", given "value"] ++ origin ++ life⟩

/-- The selectors, their definitions as stored texts. -/
def selectors : Schema :=
  ⟨"selectors", [identifier, given "name", optional "def_json"] ++ origin ++ life⟩

/-- The layers and their places in the declared order. -/
def layers : Schema :=
  ⟨"layers", [identifier, given "name", { name := "order_index", affinity := .whole }] ++ origin⟩

/-- The properties of buckets; the key of the bucket is spread over the columns. -/
def styles : Schema :=
  ⟨"styles", [identifier, pointer "selector_id" .selectors, given "prop", given "value",
    optionalPointer "layer_id" .layers, optionalPointer "scope_root_id" .selectors,
    optionalPointer "scope_limit_id" .selectors, optional "resp_kind", optional "resp_min",
    optional "resp_max", optional "resp_axis", optional "container_name", optional "condition",
    optional "supports", optional "spacing_mode", number "sequence", number "touched"] ++ origin⟩

/-- The registered custom properties. -/
def properties : Schema :=
  ⟨"properties", [identifier, given "name", optional "syntax", optional "inherits",
    optional "initial_value"] ++ origin⟩

/-- The font faces, their declarations as stored texts. -/
def fontFaces : Schema :=
  ⟨"font_faces", [identifier, given "family", optional "src", filled "props_json" "[]"] ++ origin⟩

/-- The animations, their frames as stored texts. -/
def keyframes : Schema :=
  ⟨"keyframes", [identifier, given "name", filled "frames_json" "[]"] ++ origin⟩

/-- The blocks of text that are passed through. -/
def rawBlocks : Schema :=
  ⟨"raw_blocks", [identifier, given "css", number "sequence"] ++ origin⟩

/-- The imports. -/
def imports : Schema :=
  ⟨"imports", [identifier, given "import_type", given "path", optional "media",
    number "sequence"] ++ origin⟩

/-- The pages; the plain one has no pseudo-class. -/
def pages : Schema :=
  ⟨"pages", [identifier, optional "pseudo", filled "props_json" "[]"] ++ origin⟩

/-- The counter styles. -/
def counterStyles : Schema :=
  ⟨"counter_styles", [identifier, given "name", filled "props_json" "[]"] ++ origin⟩

/-- The font feature values. -/
def fontFeatureValues : Schema :=
  ⟨"font_feature_values", [identifier, given "family", filled "features_json" "[]"] ++ origin⟩

/-- The font palette values. -/
def fontPaletteValues : Schema :=
  ⟨"font_palette_values", [identifier, given "name", filled "props_json" "[]"] ++ origin⟩

/-- The starting styles. -/
def startingStyles : Schema :=
  ⟨"starting_styles",
    [identifier, pointer "selector_id" .selectors, filled "props_json" "[]"] ++ origin⟩

/-- The log of migrations. The number of an entry is the store's, whatever a row says. -/
def migrations : Schema :=
  ⟨"migrations", [given "migration_id", given "filename", given "direction", given "checksum",
    given "applied_at", number "duration_ms", filled "status" "ok",
    { name := "seq", affinity := .whole }]⟩

end Schema

end StyleLedger
