import StyleLedger.Digest.Sha1
import StyleLedger.Json.Encode
import StyleLedger.Store.Basic
import StyleLedger.Text.Utf8

/-!
Snapshots as structured values: one list of rows per table, tables without rows left out, every
column of a row under its name.

Reading fills a column that is left out with what a new row has there. A column without such a
value must be given, though it may be empty, and a column that the table does not have is refused.

* `Snapshot.toJson`, `Snapshot.ofJson` — a snapshot as a structured value.
* `Store.toJson`, `Store.ofJson` — a store as a structured value: a snapshot and a number.
* `Store.toFile`, `Store.ofFile?` — a store as the content of a file, under a seal.
-/

namespace StyleLedger

/-- A row as a structured value. -/
def Row.toJson (r : Row) : Json := .object r.cells

/-- The row of a table that a structured value stands for. -/
def Schema.rowOf (schema : Schema) : Json → Except ShapeError Row
  | .object fields => do
    ShapeError.require (fields.all fun (name, _) => schema.columns.any (·.name = name)) .wrongType
    let cells ← schema.columns.mapM fun c =>
      match (Json.field? c.name fields).or c.initial with
      | some v => .ok (c.name, v)
      | none => .error .wrongType
    return ⟨cells⟩
  | _ => .error .wrongType

/-- The rows of a table in a structured value. -/
def Schema.rowsOf (schema : Schema) (fields : List (String × Json)) :
    Except ShapeError (List Row) := do
  match Json.field? schema.table fields with
  | some v => (← v.asItems .wrongType).mapM schema.rowOf
  | none => return []

/-! ## The log -/

/-- An entry of the log as a structured value. -/
def LogEntry.toJson (e : LogEntry) : Json :=
  .object [("migration_id", .text e.migrationId), ("filename", .text e.filename),
    ("direction", .text e.direction), ("checksum", .text e.checksum),
    ("applied_at", .text e.appliedAt), ("status", .text e.status),
    ("seq", e.seq.elim .null .int)]

/-- The entry of a row of the log. -/
def LogEntry.ofRow (r : Row) : LogEntry :=
  { migrationId := (r.get "migration_id").shown
    filename := (r.get "filename").shown
    direction := (r.get "direction").shown
    checksum := (r.get "checksum").shown
    appliedAt := (r.get "applied_at").shown
    status := (r.get "status").shown
    seq := (r.get "seq").integer? }

/-! ## Snapshots -/

/-- A snapshot as a structured value. -/
def Snapshot.toJson (s : Snapshot) : Json :=
  let tables := s.tables.map fun (schema, rows) => (schema.table, rows.map Row.toJson)
  let all := tables ++ [(Schema.migrations.table, s.migrations.map LogEntry.toJson)]
  .object ((all.filter (!·.2.isEmpty)).map fun (name, rows) => (name, .array rows))

/-- The snapshot that a structured value stands for. -/
def Snapshot.ofJson : Json → Except ShapeError Snapshot
  | .object fields => do
    return {
      tokens := ← Schema.tokens.rowsOf fields
      selectors := ← Schema.selectors.rowsOf fields
      layers := ← Schema.layers.rowsOf fields
      styles := ← Schema.styles.rowsOf fields
      properties := ← Schema.properties.rowsOf fields
      fontFaces := ← Schema.fontFaces.rowsOf fields
      keyframes := ← Schema.keyframes.rowsOf fields
      rawBlocks := ← Schema.rawBlocks.rowsOf fields
      imports := ← Schema.imports.rowsOf fields
      pages := ← Schema.pages.rowsOf fields
      counterStyles := ← Schema.counterStyles.rowsOf fields
      fontFeatureValues := ← Schema.fontFeatureValues.rowsOf fields
      fontPaletteValues := ← Schema.fontPaletteValues.rowsOf fields
      startingStyles := ← Schema.startingStyles.rowsOf fields
      migrations := (← Schema.migrations.rowsOf fields).map LogEntry.ofRow }
  | _ => .error .wrongType

/-! ## Stores -/

/-- A store as a structured value. -/
def Store.toJson (store : Store) : Json :=
  .object [("content", store.load.toJson), ("lastNumber", .int store.lastNumber)]

/-- The store that a structured value stands for. -/
def Store.ofJson : Json → Except ShapeError Store
  | .object fields =>
    match Json.field? "content" fields, Json.field? "lastNumber" fields with
    | some v, some (.int n) => return { content := ← Snapshot.ofJson v, lastNumber := n }
    | _, _ => .error .wrongType
  | _ => .error .wrongType

/-! ## Files -/

/-- What the file of a store begins with: a mark and the digest of what follows. -/
def Store.seal (body : Text.Bytes) : Text.Bytes :=
  Text.Utf8.encode ("style store " ++ Digest.sha1Hex body ++ "\n")

/-- A store as the content of a file. -/
def Store.toFile (store : Store) : Text.Bytes :=
  let body := Text.Utf8.encode store.toJson.write
  Store.seal body ++ body

/-- The store in a file. An empty file holds an empty store; one without its seal holds none. -/
def Store.ofFile? (content : Text.Bytes) : Option Store := do
  if content.isEmpty then return {}
  let body := content.drop (Store.seal []).length
  if Store.seal body ++ body ≠ content then none
  let text ← (Text.Utf8.decode body).toOption
  let v ← (Json.read text).toOption
  (Store.ofJson v).toOption

end StyleLedger
