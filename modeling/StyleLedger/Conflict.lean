import StyleLedger.Finding
import StyleLedger.Selector.Specificity
import StyleLedger.Sheet.Basic
import StyleLedger.Json.Shape

/-!
Conflicts in a style sheet: properties that one place sets twice, shorthands beside their longhands,
and properties that a selector sets in several places.

A *place* is a selector text with a layer, a scope and a wrapper. Two named selectors with the same
text share their places.

* `Sheet.conflicts` — all conflicts.
* `Sheet.checkConflicts` — the first cell of a sheet that stands in the way of naming them.
-/

namespace StyleLedger

namespace Conflict

/-- A shorthand with the longhands it resets. -/
def shorthands : List (String × List String) := [
  ("margin", ["margin-top", "margin-right", "margin-bottom", "margin-left"]),
  ("padding", ["padding-top", "padding-right", "padding-bottom", "padding-left"]),
  ("border", ["border-top", "border-right", "border-bottom", "border-left", "border-width",
    "border-style", "border-color"]),
  ("border-top", ["border-top-width", "border-top-style", "border-top-color"]),
  ("border-right", ["border-right-width", "border-right-style", "border-right-color"]),
  ("border-bottom", ["border-bottom-width", "border-bottom-style", "border-bottom-color"]),
  ("border-left", ["border-left-width", "border-left-style", "border-left-color"]),
  ("background", ["background-color", "background-image", "background-size",
    "background-position", "background-repeat", "background-attachment", "background-origin",
    "background-clip"]),
  ("font", ["font-size", "font-family", "font-weight", "font-style", "line-height",
    "font-stretch", "font-variant"]),
  ("animation", ["animation-name", "animation-duration", "animation-timing-function",
    "animation-delay", "animation-iteration-count", "animation-direction", "animation-fill-mode",
    "animation-play-state"]),
  ("transition", ["transition-property", "transition-duration", "transition-timing-function",
    "transition-delay"])]

/-- Where a rule applies. -/
structure Place where
  selector : Json
  layer : Json
  scopeRoot : Json
  scopeLimit : Json
  descriptor : Option Descriptor
deriving Repr, DecidableEq, Inhabited

/-- What a place is found under. -/
def Place.key (p : Place) : Place :=
  { selector := p.selector.key, layer := p.layer.key, scopeRoot := p.scopeRoot.key
    scopeLimit := p.scopeLimit.key, descriptor := Keyed.key p.descriptor }

instance : Keyed Place := ⟨Place.key⟩

/-- The place of a rule. -/
def placeOf (r : SheetRule) : Place :=
  { selector := r.selector, layer := r.layer, scopeRoot := r.scopeRoot
    scopeLimit := r.scopeLimit, descriptor := r.descriptor }

/-- The rules of each place. -/
def places (sheet : Sheet) : List (Place × List SheetRule) :=
  Table.groups placeOf sheet.rules

/-- A selector with its specificity. -/
def label (selector : Json) : String :=
  let x := Specificity.ofText selector.shown
  selector.shown ++ " (specificity " ++
    ",".intercalate [toString x.ids, toString x.classes, toString x.elements] ++ ")"

/-- A place in words: its selector, and the layer, scope and wrapper of its first rule. -/
def placeText (place : Place) (rules : List SheetRule) : String :=
  label place.selector ++ " in " ++ ((rules.head?.map (·.summary)).getD "")

/-- The names of the properties that some rules set, with repetitions. -/
def propertyNames (rules : List SheetRule) : List String :=
  rules.flatMap fun r => r.declarations.map (·.name)

/-- Properties set by more than one rule of one place. -/
def repeatedIn (place : Place) (rules : List SheetRule) : List Finding :=
  (Table.counts (propertyNames rules)).filterMap fun (name, n) =>
    if 1 < n then some
      { rule := "check_repeated_properties", severity := .warning
        message := "'" ++ name ++ "' is defined " ++ toString n ++ " times for " ++
          placeText place rules
        fix := some "Keep a single selector name per CSS selector" }
    else none

/-- Properties set by more than one rule of a place. -/
def repeatedProperties (sheet : Sheet) : List Finding :=
  (places sheet).flatMap fun (place, rules) => repeatedIn place rules

/-- Shorthands set together with one of their longhands in one place. -/
def clashesIn (place : Place) (rules : List SheetRule) : List Finding :=
  let present := propertyNames rules
  shorthands.filterMap fun (shorthand, longhands) =>
    let clashing := longhands.filter present.contains
    if present.contains shorthand && !clashing.isEmpty then some
      { rule := "check_shorthand_conflicts", severity := .warning
        message := "Shorthand/longhand conflict for " ++ placeText place rules ++ ": " ++
          shorthand ++ " with " ++ ", ".intercalate clashing
        fix := some ("Set either " ++ shorthand ++ " or its longhands") }
    else none

/-- Shorthands set together with one of their longhands in a place. -/
def shorthandClashes (sheet : Sheet) : List Finding :=
  (places sheet).flatMap fun (place, rules) => clashesIn place rules

/-- Takes note that a selector sets a property somewhere. -/
def noteContext (summary : String) (seen : Table String (List String)) (name : String) :
    Table String (List String) :=
  let known := (seen.get? name).getD []
  seen.put name (if known.contains summary then known else known ++ [summary])

/-- For every selector and property, the layers, scopes and wrappers it is set under. -/
def contexts (sheet : Sheet) : Table Json (Table String (List String)) :=
  sheet.rules.foldl (fun t r =>
    let seen := (t.get? r.selector).getD {}
    t.put r.selector ((propertyNames [r]).foldl (noteContext r.summary) seen)) {}

/-- Properties that one selector sets under more than one layer, scope or wrapper. -/
def overridesOf (selector : Json) (seen : Table String (List String)) : List Finding :=
  seen.entries.filterMap fun (name, summaries) =>
    if 1 < summaries.length then some
      { rule := "check_cross_context_overrides", severity := .info
        message := "Cross-context overrides for " ++ label selector ++ " -> " ++ name ++ ": " ++
          "; ".intercalate summaries }
    else none

/-- Properties that a selector sets under more than one layer, scope or wrapper. -/
def crossContextOverrides (sheet : Sheet) : List Finding :=
  (contexts sheet).entries.flatMap fun (selector, seen) => overridesOf selector seen

/-! ## What cannot be named -/

/-- A selector with findings is a text. -/
def checkLabel (selector : Json) (findings : List Finding) : Except ShapeError Unit :=
  ShapeError.require (findings.isEmpty || selector.isText) .wrongType

/-- A place with findings has a text for its selector and a wrapper that can be written. -/
def checkPlace (place : Place) (rules : List SheetRule) (findings : List Finding) :
    Except ShapeError Unit := do
  checkLabel place.selector findings
  ShapeError.require (findings.isEmpty || rules.head?.all (·.isWritable)) .lacking

end Conflict

/-- Every cell that stands in the way of naming the conflicts, in the order of the rules: places are
told apart by single values, and places with findings are described. -/
def Sheet.checkConflicts (sheet : Sheet) : Except ShapeError Unit := do
  let places := Conflict.places sheet
  ShapeError.require (places.all fun (p, _) =>
    p.selector.isScalar && p.scopeRoot.isScalar && p.scopeLimit.isScalar) .wrongType
  places.forM fun (p, rules) => Conflict.checkPlace p rules (Conflict.repeatedIn p rules)
  places.forM fun (p, rules) => Conflict.checkPlace p rules (Conflict.clashesIn p rules)
  ShapeError.require (sheet.rules.all (·.isWritable)) .lacking
  (Conflict.contexts sheet).entries.forM fun (selector, seen) =>
    Conflict.checkLabel selector (Conflict.overridesOf selector seen)

/-- All conflicts in a style sheet. -/
def Sheet.conflicts (sheet : Sheet) : List Finding :=
  Conflict.repeatedProperties sheet ++ Conflict.shorthandClashes sheet ++
    Conflict.crossContextOverrides sheet

end StyleLedger
