import StyleLedger.Finding
import StyleLedger.Store.Row
import StyleLedger.Value

/-!
The audit of a snapshot: rows that point nowhere, token references without a live token, stored
texts that cannot be read, names that occur twice, and entries that nothing uses.

* `Audit.styleReferences`, `Audit.tokenReferences`, `Audit.storedTexts`, `Audit.duplicateNames` —
  errors.
* `Audit.orphanSelectors`, `Audit.orphanLayers`, `Audit.orphanTokens` — warnings.
* `Audit.isAuditable` — whether the cells that are compared and searched allow it.
* `Snapshot.audit` — all findings, in this order.
-/

namespace StyleLedger

namespace Audit

/-- A cell in a message. -/
def named (cell : Json) : String := "'" ++ cell.shown ++ "'"

/-! ## References -/

/-- The references of a style row, each with the word for what it refers to and the rows it should
point at. A row always refers to a selector; the other references may be absent. -/
def references (selectorIds layerIds : List Json) (r : Row) : List (String × Json × List Json) :=
  let optional (label column : String) (known : List Json) : List (String × Json × List Json) :=
    if (r.get column).isTrue then [(label, r.get column, known)] else []
  [("selector", r.get "selector_id", selectorIds)] ++
    optional "layer" "layer_id" layerIds ++
    optional "scope root" "scope_root_id" selectorIds ++
    optional "scope limit" "scope_limit_id" selectorIds

/-- Every style row must point at rows that are there. -/
def styleReferences (s : Snapshot) : List Finding :=
  let selectorIds := s.selectors.map (·.id.key)
  let layerIds := s.layers.map (·.id.key)
  let styles := s.styles.flatMap fun r =>
    ((references selectorIds layerIds r).filter fun (_, id, known) => !known.contains id.key).map
      fun (label, id, _) =>
        { rule := "check_style_references", severity := .error
          message := "Style " ++ named (r.get "prop") ++ " references unknown " ++ label ++
            " id " ++ named id ++ "."
          table := some "styles", rowId := r.id
          fix := some "Rebuild the store from migrations." }
  let dangling := s.startingStyles.filter fun r =>
    !selectorIds.contains (r.get "selector_id").key
  let starting := dangling.map fun r =>
    { rule := "check_style_references", severity := .error
      message := "Starting style references unknown selector id " ++
        named (r.get "selector_id") ++ "."
      table := some "starting_styles", rowId := r.id }
  styles ++ starting

/-- Whether a row is marked as deleted. -/
def isDeleted (r : Row) : Bool := (r.get "deleted").isTrue

/-- The names of some rows. -/
def names (rows : List Row) : List Json := rows.map (·.get "name")

/-- The names of the tokens that the value of a row refers to. -/
def tokensIn (r : Row) : List String :=
  Value.references (r.get "value").shown

/-- Every token reference in a style must name a live token. -/
def tokenReferences (s : Snapshot) : List Finding :=
  let live := names (s.tokens.filter (!isDeleted ·))
  let deleted := names (s.tokens.filter isDeleted)
  s.styles.flatMap fun r =>
    ((tokensIn r).filter fun name => !live.contains (.text name)).map fun name =>
      { rule := "check_token_references", severity := .error
        message := "Style " ++ named (r.get "prop") ++ " references " ++
          (if deleted.contains (.text name) then "deleted" else "unknown") ++ " token '" ++
          name ++ "'."
        table := some "styles", rowId := r.id
        fix := some ("CREATE TOKEN '" ++ name ++ "' VALUE ...;") }

/-! ## Contents -/

/-- The columns that hold stored texts, with the rows of their tables. -/
def textColumns (s : Snapshot) : List (String × String × List Row) :=
  [("selectors", "def_json", s.selectors),
   ("font_faces", "props_json", s.fontFaces),
   ("keyframes", "frames_json", s.keyframes),
   ("pages", "props_json", s.pages),
   ("counter_styles", "props_json", s.counterStyles),
   ("font_feature_values", "features_json", s.fontFeatureValues),
   ("font_palette_values", "props_json", s.fontPaletteValues),
   ("starting_styles", "props_json", s.startingStyles)]

/-- Every stored text must be a structured value. -/
def storedTexts (s : Snapshot) : List Finding :=
  (textColumns s).flatMap fun (table, column, rows) =>
    rows.filterMap fun r =>
      let cell := r.get column
      match Json.read cell.shown with
      | .error e =>
        if cell.isNull then none
        else some
          { rule := "check_json_blobs", severity := .error
            message := "Column '" ++ column ++ "' holds invalid JSON: " ++ e.message
            table := some table, rowId := r.id }
      | .ok _ => none

/-- The tables whose rows have a name, with the column and the rows. -/
def nameColumns (s : Snapshot) : List (String × String × List Row) :=
  [("tokens", "name", s.tokens),
   ("selectors", "name", s.selectors),
   ("layers", "name", s.layers),
   ("properties", "name", s.properties),
   ("keyframes", "name", s.keyframes),
   ("counter_styles", "name", s.counterStyles),
   ("font_feature_values", "family", s.fontFeatureValues),
   ("font_palette_values", "name", s.fontPaletteValues),
   ("starting_styles", "selector_id", s.startingStyles)]

/-- No name may occur twice in a table. -/
def duplicateNames (s : Snapshot) : List Finding :=
  (nameColumns s).flatMap fun (table, column, rows) =>
    (Table.counts (rows.map (·.get column))).filterMap fun (name, n) =>
      if 1 < n then some
        { rule := "check_duplicate_names", severity := .error
          message := named name ++ " appears " ++ toString n ++ " times in " ++ table ++ "."
          table := some table }
      else none

/-! ## Orphans -/

/-- Live selectors should be used by a style or a scope. -/
def orphanSelectors (s : Snapshot) : List Finding :=
  let pointed := s.styles.flatMap fun r =>
    [r.get "selector_id", r.get "scope_root_id", r.get "scope_limit_id"].filter (·.isTrue)
  let used := (pointed ++ s.startingStyles.map (·.get "selector_id")).map Json.key
  (s.selectors.filter fun r => !isDeleted r && !used.contains r.id.key).map fun r =>
    { rule := "check_orphan_selectors", severity := .warning
      message := "Selector " ++ named (r.get "name") ++ " is not used by any style."
      table := some "selectors", rowId := r.id }

/-- Layers should be declared or used by a style. -/
def orphanLayers (s : Snapshot) : List Finding :=
  let used := ((s.styles.map (·.get "layer_id")).filter (·.isTrue)).map Json.key
  (s.layers.filter fun r => (r.get "order_index").isNull && !used.contains r.id.key).map fun r =>
    { rule := "check_orphan_layers", severity := .warning
      message := "Layer " ++ named (r.get "name") ++ " has no styles and is not declared."
      table := some "layers", rowId := r.id }

/-- Live tokens should be referred to by a style or a token. -/
def orphanTokens (s : Snapshot) : List Finding :=
  let referenced := ((s.styles ++ s.tokens).flatMap tokensIn).map Json.text
  (s.tokens.filter fun r => !isDeleted r && !referenced.contains (r.get "name")).map fun r =>
    { rule := "check_orphan_tokens", severity := .warning
      message := "Token " ++ named (r.get "name") ++ " is not referenced via token()."
      table := some "tokens", rowId := r.id }

/-! ## What can be audited -/

/-- Identifiers, references and names are compared, so they must be single values; the values of
styles and tokens are searched and stored texts are read, so they must be texts. -/
def isAuditable (s : Snapshot) : Bool :=
  let ids := (s.selectors ++ s.layers).map (·.id)
  let pointers := s.styles.flatMap fun r => (references [] [] r).map fun (_, id, _) => id
  let keys := (nameColumns s).flatMap fun (_, column, rows) => rows.map (·.get column)
  let values := (s.styles ++ s.tokens).map (·.get "value")
  let bodies := (textColumns s).flatMap fun (_, column, rows) => rows.map (·.get column)
  (ids ++ pointers ++ keys).all Json.isScalar && values.all Json.isText &&
    bodies.all fun v => v.isNull || v.isText

end Audit

/-- The findings of all rules. -/
def Snapshot.audit (s : Snapshot) : Except ShapeError (List Finding) := do
  ShapeError.require (Audit.isAuditable s) .wrongType
  return Audit.styleReferences s ++ Audit.tokenReferences s ++ Audit.storedTexts s ++
    Audit.duplicateNames s ++ Audit.orphanSelectors s ++ Audit.orphanLayers s ++
    Audit.orphanTokens s

end StyleLedger
