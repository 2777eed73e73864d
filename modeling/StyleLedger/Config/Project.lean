import StyleLedger.Config.Compiler
import StyleLedger.Json.Decode
import StyleLedger.Json.Encode
import StyleLedger.Text.Utf8

/-!
The settings of a project, as its configuration file holds them and the environment changes them.
-/

namespace StyleLedger

/-- The settings of a project. -/
structure ProjectConfig where
  /-- Where the style sheet goes. -/
  outFile : String := "dist/icbincss.css"
  /-- Whether every statement needs its semicolon. -/
  strictSemicolons : Bool := false
  compiler : CompilerConfig := {}
deriving Repr, DecidableEq, Inhabited

/-- What is wrong with a configuration file. -/
inductive ConfigFault
  /-- It is not a structured value. -/
  | unreadable (e : Json.ReadError)
  /-- It is not an object. -/
  | notAnObject
  /-- Its default layers are not a list of texts. -/
  | layers
deriving Repr, DecidableEq, Inhabited

/-- The name of the configuration file. -/
def ProjectConfig.fileName : String := "icbincss.config.json"

/-- The wording of a fault. -/
def ConfigFault.message (f : ConfigFault) : String :=
  ProjectConfig.fileName ++ ": " ++ match f with
    | unreadable e => e.message
    | notAnObject => "expected a JSON object"
    | layers => "defaultLayers must be a list of strings"

namespace ProjectConfig

/-- The texts of a list, if it is a list of texts. -/
def textsOf? : Json → Option (List String)
  | .array items => items.mapM fun
    | .text s => some s
    | _ => none
  | _ => none

/-- A text setting: any value is taken in words. -/
def textSetting (fields : List (String × Json)) (name default : String) : String :=
  ((Json.field? name fields).map Json.shown).getD default

/-- The settings in the fields of a configuration file. -/
def ofFields (fields : List (String × Json)) (env : Environment) :
    Except ConfigFault ProjectConfig :=
  match textsOf? ((Json.field? "defaultLayers" fields).getD (.array [])) with
  | none => .error .layers
  | some layers =>
    let compiler : CompilerConfig :=
      { defaultLayers := layers, tokenPrefix := textSetting fields "tokenVarPrefix" "" }
    .ok
      { outFile := textSetting fields "outFile" "dist/icbincss.css"
        strictSemicolons := ((Json.field? "strictSemicolons" fields).map Json.isTrue).getD false
        compiler := compiler.withEnvironment env }

/-- The settings in the text of a configuration file; without a file all are as usual. -/
def load (text : Option String) (env : Environment) : Except ConfigFault ProjectConfig :=
  match text with
  | none => ofFields [] env
  | some text =>
    match Json.read text with
    | .error e => .error (.unreadable e)
    | .ok (.object fields) => ofFields fields env
    | .ok _ => .error .notAnObject

/-- Settings with a forced spacing mode. -/
def withSpacing (c : ProjectConfig) (mode : String) : ProjectConfig :=
  { c with compiler := { c.compiler with forcedSpacing := some mode } }

/-- The text of a configuration file with these settings. A forced spacing mode is not kept. -/
def toText (c : ProjectConfig) : String :=
  (Json.object [
    ("outFile", .text c.outFile),
    ("strictSemicolons", .bool c.strictSemicolons),
    ("defaultLayers", .array (c.compiler.defaultLayers.map .text)),
    ("tokenVarPrefix", .text c.compiler.tokenPrefix)]).writeLines ++ "\n"

end ProjectConfig

end StyleLedger
