import StyleLedger.Condition
import StyleLedger.Declaration
import StyleLedger.Selector.Basic

/-!
The statements of the source language.
-/

namespace StyleLedger

/-- Whether properties give way to what is there or replace it. -/
inductive WriteMode
  | add
  | set
deriving Repr, DecidableEq, Inhabited

/-- What an import brings in. -/
inductive ImportKind
  | css
  | sql
deriving Repr, DecidableEq, Inhabited

/-- The name under which a kind of import is stored. -/
def ImportKind.name : ImportKind → String
  | css => "css"
  | sql => "sql"

/-- The kind of import stored under a name. -/
def ImportKind.ofName? (name : String) : Option ImportKind :=
  [css, sql].find? (·.name = name)

/-- The style a statement is about: a selector, a condition and a scope. -/
structure StyleTarget where
  selector : String
  condition : Option Condition := none
  scopeRoot : Option String := none
  scopeLimit : Option String := none
deriving Repr, Inhabited

/-- A statement. -/
inductive Statement
  | createToken (name value : String)
  | dropToken (name : String)
  | deleteToken (name : String)
  | createSelector (name : String) (definition : Selector)
  | dropSelector (name : String)
  | createStyle (target : StyleTarget) (declarations : List Declaration)
  | alterStyle (target : StyleTarget) (mode : WriteMode) (declarations : List Declaration)
  /-- Deletes one property, or every property when none is named. -/
  | deleteStyle (selector : String) (property : Option String)
  | dropStyle (selector : String)
  | createLayers (names : List String)
  | setLayer (name : String)
  | setSpacing (mode : String)
  | raw (css : String)
  | imports (kind : ImportKind) (path : String) (media : Option String)
  | createFontFace (family : String) (declarations : List Declaration)
  | dropFontFace (family : String)
  | createKeyframes (name : String) (frames : List Keyframe)
  | dropKeyframes (name : String)
  | createProperty (name : String) (declarations : List Declaration)
  | dropProperty (name : String)
  | createPage (declarations : List Declaration) (pseudo : Option String)
  | dropPage (pseudo : Option String)
  | createCounterStyle (name : String) (declarations : List Declaration)
  | dropCounterStyle (name : String)
  | createFontFeatureValues (family : String) (declarations : List Declaration)
  | dropFontFeatureValues (family : String)
  | createFontPaletteValues (name : String) (declarations : List Declaration)
  | dropFontPaletteValues (name : String)
  | createStartingStyle (selector : String) (declarations : List Declaration)
  | dropStartingStyle (selector : String)
  /-- Asks for the rules of a selector. -/
  | selectStyles (selector : String) (condition : Option Condition)
  /-- Asks for the text of a selector. -/
  | describeSelector (name : String)
  | begin
  | commit
  | rollback
deriving Repr, Inhabited

end StyleLedger
