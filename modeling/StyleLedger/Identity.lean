import StyleLedger.Digest.Sha1
import StyleLedger.Json.Value

/-!
Identifiers that are computed from names.

Every kind of entity has a name space of its own, and an entity's identifier is the name-based one
(version 5) of its natural key in that space. Equal keys of one kind therefore have equal
identifiers, in whatever order the entities were created.
-/

namespace StyleLedger

open Text (Bytes)

/-- The kinds of entities. -/
inductive EntityKind
  | token | selector | layer | style | property | fontFace | keyframes | raw | imports | page
  | counterStyle | fontFeatureValues | fontPaletteValues | startingStyle
deriving Repr, DecidableEq, Inhabited

namespace EntityKind

/-- The name of a kind. -/
def name : EntityKind → String
  | token => "token"
  | selector => "selector"
  | layer => "layer"
  | style => "style"
  | property => "property"
  | fontFace => "font_face"
  | keyframes => "keyframes"
  | raw => "raw"
  | imports => "import"
  | page => "page"
  | counterStyle => "counter_style"
  | fontFeatureValues => "font_feature_values"
  | fontPaletteValues => "font_palette_values"
  | startingStyle => "starting_style"

/-- Every kind. -/
def all : List EntityKind :=
  [token, selector, layer, style, property, fontFace, keyframes, raw, imports, page, counterStyle,
   fontFeatureValues, fontPaletteValues, startingStyle]

/-- The kind with a name. -/
def ofName? (name : String) : Option EntityKind :=
  all.find? (·.name = name)

end EntityKind

namespace Identity

/-- The name space of domain names, from which every other is derived. -/
def domainNames : Bytes :=
  [0x6b, 0xa7, 0xb8, 0x10, 0x9d, 0xad, 0x11, 0xd1, 0x80, 0xb4, 0x00, 0xc0, 0x4f, 0xd4, 0x30, 0xc8]

/-- Puts the version and the variant into sixteen bytes. -/
def stamp (bytes : Bytes) : Bytes :=
  bytes.zipIdx.map fun (b, i) =>
    if i = 6 then (b &&& 0x0F) ||| 0x50
    else if i = 8 then (b &&& 0x3F) ||| 0x80
    else b

/-- The identifier of a name in a name space. -/
def ofName (space : Bytes) (name : String) : Bytes :=
  stamp ((Digest.sha1 (space ++ Text.Utf8.encode name)).take 16)

/-- An identifier in digits, in groups of eight, four, four, four and twelve. -/
def text (bytes : Bytes) : String :=
  let group (start count : Nat) := Digest.hex ((bytes.drop start).take count)
  "-".intercalate [group 0 4, group 4 2, group 6 2, group 8 2, group 10 6]

/-- The name space of a kind. -/
def space (kind : EntityKind) : Bytes :=
  ofName domainNames kind.name

/-- The identifier of an entity. -/
def entityId (kind : EntityKind) (key : String) : String :=
  text (ofName (space kind) key)

/-! ## Natural keys -/

/-- The key of a style property: where it was written and its number. -/
def styleKey (migration sequence : Json) : String :=
  migration.shown ++ ":" ++ sequence.shown

/-- The key of a raw block. -/
def rawKey (migration sequence : Json) : String :=
  migration.shown ++ ":raw:" ++ sequence.shown

/-- The key of an import. -/
def importKey (migration sequence : Json) : String :=
  migration.shown ++ ":import:" ++ sequence.shown

/-- The key of a font face: its family and its source, or the family twice. -/
def fontFaceKey (family src : Json) : String :=
  family.shown ++ ":" ++ (src.orElse family).shown

/-- The key of a page rule. -/
def pageKey (pseudo : Json) : Json :=
  pseudo.orElse (.text "default")

end Identity

end StyleLedger
