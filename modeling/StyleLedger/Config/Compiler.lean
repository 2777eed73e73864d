import StyleLedger.Json.Value
import StyleLedger.Text.Search

/-!
The settings that shape a style sheet, and the environment variables that change them.
-/

namespace StyleLedger

/-- Environment variables by name. -/
abbrev Environment := List (String × String)

/-- The settings of the compiler. -/
structure CompilerConfig where
  /-- Layers that come before all declared ones. -/
  defaultLayers : List String := []
  /-- What every token's custom property begins with. -/
  tokenPrefix : String := ""
  /-- A spacing mode that overrides every recorded one. -/
  forcedSpacing : Option String := none
deriving Repr, DecidableEq, Inhabited

namespace CompilerConfig

/-- The variable that names the default layers, separated by commas. -/
def layersVariable : String := "ICBINCSS_DEFAULT_LAYERS"

/-- The variable that holds the token prefix. -/
def prefixVariable : String := "ICBINCSS_TOKEN_PREFIX"

/-- The variable that forces a spacing mode. -/
def spacingVariable : String := "ICBINCSS_BUTTER"

/-- The layers in a comma-separated list. -/
def splitLayers (raw : String) : List String :=
  (Text.commaParts raw.toList).map String.ofList

/-- The settings of an environment. -/
def ofEnvironment (env : Environment) : CompilerConfig :=
  { defaultLayers := splitLayers ((env.lookup layersVariable).getD "")
    tokenPrefix := (env.lookup prefixVariable).getD ""
    forcedSpacing := Text.present? (env.lookup spacingVariable) }

/-- Settings with those of an environment put over them. An empty list of layers and an empty
spacing mode change nothing; an empty prefix does. -/
def withEnvironment (config : CompilerConfig) (env : Environment) : CompilerConfig :=
  { defaultLayers :=
      ((Text.present? (env.lookup layersVariable)).map splitLayers).getD config.defaultLayers
    tokenPrefix := (env.lookup prefixVariable).getD config.tokenPrefix
    forcedSpacing := (Text.present? (env.lookup spacingVariable)).or config.forcedSpacing }

/-- The spacing mode in force for a recorded one. -/
def spacingFor (config : CompilerConfig) (recorded : Json) : Json :=
  (Json.textOrNull config.forcedSpacing).orElse recorded

end CompilerConfig

end StyleLedger
