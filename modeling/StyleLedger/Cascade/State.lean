import StyleLedger.Bucket
import StyleLedger.Statement

/-!
The state of a cascade: everything that statements have written so far.

A state may also come from stored rows. Its cells are texts, or null where something is absent, when
statements have written it; stored rows may bring any other value, which is kept as it is.
-/

namespace StyleLedger

/-- Where an entry was last written: a file and a migration. -/
structure Provenance where
  originFile : Json := .null
  migrationId : Json := .null
deriving Repr, DecidableEq, Inhabited

/-- The migration that statements outside any migration belong to. -/
def adhocMigration : String := "adhoc"

/-- What holds while one file of statements is applied. The layer and the spacing mode start empty
and stay until they are set again. -/
structure Context where
  migrationId : String := adhocMigration
  originFile : Option String := none
  activeLayer : Option String := none
  spacingMode : Option String := none
  /-- What the clock shows when it is read next. -/
  now : String := ""
  /-- What it shows after that, reading by reading; in the end it stands still. -/
  later : List String := []
deriving Repr, DecidableEq, Inhabited

/-- The context after a reading of the clock. -/
def Context.tick (ctx : Context) : Context :=
  match ctx.later with
  | [] => ctx
  | now :: later => { ctx with now, later }

/-- The context after something that may have read the clock. -/
def Context.tickIf (ctx : Context) (read : Bool) : Context :=
  if read then ctx.tick else ctx

/-- Where entries written now come from. -/
def Context.provenance (ctx : Context) : Provenance :=
  { originFile := .textOrNull ctx.originFile, migrationId := .text ctx.migrationId }

/-- A token. A deleted token is kept, for its time of creation. -/
structure TokenEntry where
  value : Json
  provenance : Provenance
  createdAt : Json
  updatedAt : Json
  deleted : Json := .bool false
deriving Repr, DecidableEq, Inhabited

/-- A named selector. One that was only mentioned has no definition. -/
structure SelectorEntry where
  definition : Option Selector
  provenance : Provenance
  createdAt : Json
  updatedAt : Json
  deleted : Json := .bool false
deriving Repr, Inhabited

/-- The layers met so far, and the declared order. -/
structure LayerRegistry where
  entries : Table Json Provenance := {}
  declared : List Json := []
deriving Repr, DecidableEq, Inhabited

namespace LayerRegistry

/-- Takes note of a layer. -/
def encounter (r : LayerRegistry) (name : Json) (from_ : Provenance) : LayerRegistry :=
  if r.entries.contains name then r else { r with entries := r.entries.put name from_ }

/-- Takes note of a layer and gives it the next place in the order, unless it has one. -/
def declareOne (from_ : Provenance) (r : LayerRegistry) (name : Json) : LayerRegistry :=
  let r := r.encounter name from_
  if r.declared.any name.alike then r else { r with declared := r.declared ++ [name] }

/-- Declares some layers in order. -/
def declare (r : LayerRegistry) (names : List Json) (from_ : Provenance) : LayerRegistry :=
  names.foldl (declareOne from_) r

/-- The place of a layer in the declared order. -/
def orderIndex? (r : LayerRegistry) (name : Json) : Option Nat :=
  r.declared.findIdx? name.alike

end LayerRegistry

/-- An at-rule that is a list of declarations under a key: a page, a counter style, feature values,
palette values or a starting style. -/
structure RuleBlock where
  declarations : List StoredDeclaration
  provenance : Provenance
deriving Repr, DecidableEq, Inhabited

/-- A registered custom property. -/
structure PropertyEntry where
  valueSyntax : Json
  inherits : Json
  initialValue : Json
  provenance : Provenance
deriving Repr, DecidableEq, Inhabited

/-- A font face. -/
structure FontFace where
  family : Json
  src : Json
  declarations : List StoredDeclaration
  provenance : Provenance
deriving Repr, DecidableEq, Inhabited

/-- An animation. -/
structure Animation where
  frames : List StoredKeyframe
  provenance : Provenance
deriving Repr, DecidableEq, Inhabited

/-- A block of text that is passed through. -/
structure RawEntry where
  css : Json
  sequence : Json
  provenance : Provenance
deriving Repr, DecidableEq, Inhabited

/-- An import. -/
structure ImportEntry where
  kind : ImportKind
  path : Json
  media : Json
  sequence : Json
  provenance : Provenance
deriving Repr, DecidableEq, Inhabited

/-- The state of a cascade. -/
structure Cascade where
  tokens : Table Json TokenEntry := {}
  selectors : Table Json SelectorEntry := {}
  layers : LayerRegistry := {}
  buckets : BucketIndex := {}
  properties : Table Json PropertyEntry := {}
  /-- By family and source, as `Identity.fontFaceKey` joins them. -/
  fontFaces : Table String FontFace := {}
  keyframes : Table Json Animation := {}
  pages : Table Json RuleBlock := {}
  counterStyles : Table Json RuleBlock := {}
  fontFeatureValues : Table Json RuleBlock := {}
  fontPaletteValues : Table Json RuleBlock := {}
  startingStyles : Table Json RuleBlock := {}
  raw : List RawEntry := []
  imports : List ImportEntry := []
deriving Repr, Inhabited

namespace Cascade

/-! ## Tokens -/

/-- Writes a token. A live token keeps its place; a deleted one comes back at the end, with its old
time of creation. -/
def putToken (s : Cascade) (ctx : Context) (name value : Json) : Cascade :=
  let entry (createdAt : Json) : TokenEntry :=
    { value, provenance := ctx.provenance, createdAt, updatedAt := .text ctx.now }
  let tokens := match s.tokens.get? name with
    | none => s.tokens.put name (entry (.text ctx.now))
    | some old =>
      if old.deleted.isTrue then (s.tokens.erase name).put name (entry old.createdAt)
      else s.tokens.put name (entry old.createdAt)
  { s with tokens }

/-- Whether there is a token that is not deleted. -/
def hasToken (s : Cascade) (name : Json) : Bool :=
  (s.tokens.get? name).any (!·.deleted.isTrue)

/-- Deletes a token. -/
def deleteToken (s : Cascade) (ctx : Context) (name : Json) : Cascade :=
  match s.tokens.get? name with
  | some old =>
    if old.deleted.isTrue then s
    else
      { s with
        tokens := s.tokens.put name
          { old with deleted := .bool true, updatedAt := .text ctx.now } }
  | none => s

/-- The tokens that are not deleted. -/
def liveTokens (s : Cascade) : List (Json × TokenEntry) :=
  s.tokens.entries.filter (!·.2.deleted.isTrue)

/-! ## Selectors -/

/-- Defines a selector. -/
def putSelector (s : Cascade) (ctx : Context) (name : Json) (definition : Selector) : Cascade :=
  let createdAt := ((s.selectors.get? name).map (·.createdAt)).getD (.text ctx.now)
  { s with
    selectors := s.selectors.put name
      { definition := some definition, provenance := ctx.provenance, createdAt
        updatedAt := .text ctx.now } }

/-- Makes sure that a selector is known, so that rows can point at it. -/
def referenceSelector (s : Cascade) (ctx : Context) (name : Json) : Cascade :=
  if s.selectors.contains name then s
  else
    { s with
      selectors := s.selectors.put name
        { definition := none, provenance := ctx.provenance, createdAt := .text ctx.now
          updatedAt := .text ctx.now } }

/-- Mentions a selector: the clock is read for one that becomes known. -/
def mention : Context × Cascade → String → Context × Cascade
  | (ctx, s), name =>
    (ctx.tickIf (!s.selectors.contains (.text name)), s.referenceSelector ctx (.text name))

/-- Whether there is a selector that is not deleted. -/
def hasSelector (s : Cascade) (name : Json) : Bool :=
  (s.selectors.get? name).any (!·.deleted.isTrue)

/-- Deletes a selector. Its definition is still used where it is referred to. -/
def deleteSelector (s : Cascade) (ctx : Context) (name : Json) : Cascade :=
  match s.selectors.get? name with
  | some old =>
    if old.deleted.isTrue then s
    else
      { s with
        selectors := s.selectors.put name
          { old with deleted := .bool true, updatedAt := .text ctx.now } }
  | none => s

/-- The definitions of selectors, by name. -/
def definitions (s : Cascade) : Table Json Selector :=
  ⟨s.selectors.entries.filterMap fun e => e.2.definition.map (e.1, ·)⟩

/-- What a named selector stands for; a name without a definition is a class. -/
def selectorCell (s : Cascade) (name : Json) : Json :=
  (Selector.reference name).resolveCell s.definitions

/-- Whether a named selector stands for anything. -/
def isResolvable (s : Cascade) (name : Json) : Bool :=
  (Selector.reference name).isResolvable s.definitions

end Cascade

end StyleLedger
