import StyleLedger.Json.Value

/-!
Selector definitions and the selector text they stand for.

A definition is a tree over simple selectors and references to other named definitions. Its text is
found in two steps: `Selector.render` writes a tree, given a text for each reference, and
`Selector.resolve` supplies those texts from a table of definitions. Every expansion of a name
takes the name out of the table, so references may run in circles: the name that would close a
circle, like a name without a definition, is written as a class.

The names and values in a definition are texts when a statement has written it. A stored definition
may hold any value in their place, and is resolved with that value in words; `Selector.isResolvable`
says which definitions have no text all the same, and `Selector.resolveCell` what a type selector
stands for that is no text.
-/

namespace StyleLedger

/-- How a join combines its two sides. -/
inductive JoinKind
  | and | desc | child | adj | sib
deriving Repr, DecidableEq, Inhabited

namespace JoinKind

/-- What a join writes between its sides. -/
def separator : JoinKind → String
  | and => ""
  | desc => " "
  | child => " > "
  | adj => " + "
  | sib => " ~ "

/-- The name of a kind of join. -/
def name : JoinKind → String
  | and => "AND"
  | desc => "DESC"
  | child => "CHILD"
  | adj => "ADJ"
  | sib => "SIB"

/-- The kind of join with a name. -/
def ofName? (name : String) : Option JoinKind :=
  [and, desc, child, adj, sib].find? (·.name = name)

end JoinKind

/-- A selector definition. -/
inductive Selector
  /-- A type selector. -/
  | element (value : Json)
  /-- A class selector. -/
  | cls (value : Json)
  /-- An id selector. -/
  | id (value : Json)
  /-- A pseudo-class. -/
  | pseudo (value : Json)
  /-- A pseudo-element. -/
  | pseudoElement (value : Json)
  /-- An attribute selector; without a value it asks for presence only. -/
  | attr (name value operator flag : Json)
  /-- Another definition, by name. -/
  | reference (name : Json)
  /-- All parts on one element. -/
  | and (parts : List Selector)
  /-- A list of selectors. -/
  | or (parts : List Selector)
  /-- A child of a parent. -/
  | child (parent child : Selector)
  /-- A descendant of an ancestor. -/
  | descendant (ancestor descendant : Selector)
  /-- Two selectors joined in a given way. -/
  | join (kind : JoinKind) (left right : Selector)
deriving Repr, Inhabited

namespace Selector

/-- The operators an attribute selector of the source language may use. -/
def attributeOperators : List String := ["=", "^=", "$=", "*=", "~=", "|="]

/-- The flags an attribute selector of the source language may use. -/
def attributeFlags : List String := ["i", "s"]

/-- A name as a class selector. -/
def asClass (name : Json) : String := "." ++ name.shown

/-- An attribute selector in words. -/
def renderAttr (name value operator flag : Json) : String :=
  if value.isNull then "[" ++ name.shown ++ "]"
  else
    let flagText := if flag.isTrue then " " ++ flag.shown else ""
    "[" ++ name.shown ++ (operator.orElse (.text "=")).shown ++ "\"" ++ value.shown ++ "\"" ++
      flagText ++ "]"

mutual

/-- The text of a definition, given the text of each reference. -/
def render (reference : Json → String) : Selector → String
  | element v => v.shown
  | cls v => asClass v
  | id v => "#" ++ v.shown
  | pseudo v => ":" ++ v.shown
  | pseudoElement v => "::" ++ v.shown
  | attr name value operator flag => renderAttr name value operator flag
  | .reference name => reference name
  | and parts => "".intercalate (renderParts reference parts)
  | or parts => ", ".intercalate (renderParts reference parts)
  | child p c => render reference p ++ " > " ++ render reference c
  | descendant a d => render reference a ++ " " ++ render reference d
  | join kind l r => render reference l ++ kind.separator ++ render reference r

/-- The texts of some definitions. -/
def renderParts (reference : Json → String) : List Selector → List String
  | [] => []
  | s :: ss => render reference s :: renderParts reference ss

end

/-- The text of a definition when at most `depth` names are expanded inside one another. -/
def resolveWithin : Nat → Table Json Selector → Selector → String
  | 0, _, s => s.render asClass
  | depth + 1, definitions, s => s.render fun name =>
    match definitions.get? name with
    | none => asClass name
    | some target => resolveWithin depth (definitions.erase name) target

/-- The text of a definition whose references are looked up in a table. No more names can be
expanded inside one another than the table holds. -/
def resolve (definitions : Table Json Selector) (s : Selector) : String :=
  resolveWithin definitions.size definitions s

/-! ## Values that are no texts -/

/-- What a definition stands for when at most `depth` names are expanded: the value of a type
selector as it is, the text of any other definition. -/
def resolveCellWithin : Nat → Table Json Selector → Selector → Json
  | _, _, element v => v
  | depth + 1, definitions, reference name =>
    match definitions.get? name with
    | none => .text (asClass name)
    | some target => resolveCellWithin depth (definitions.erase name) target
  | depth, definitions, s => .text (s.resolveWithin depth definitions)

/-- What a definition stands for. -/
def resolveCell (definitions : Table Json Selector) (s : Selector) : Json :=
  resolveCellWithin definitions.size definitions s

mutual

/-- Whether a definition has a text, given for each reference whether it has one and whether it
stands for a text. A list of parts is made of texts. -/
def renders (reference : Json → Bool × Bool) : Selector → Bool
  | .reference name => (reference name).1
  | and parts => partsRender reference parts
  | or parts => partsRender reference parts
  | child p c => renders reference p && renders reference c
  | descendant a d => renders reference a && renders reference d
  | join _ l r => renders reference l && renders reference r
  | _ => true

/-- Whether some definitions have texts and stand for them. -/
def partsRender (reference : Json → Bool × Bool) : List Selector → Bool
  | [] => true
  | s :: ss =>
    let isText := match s with
      | element v => v.isText
      | .reference name => (reference name).2
      | _ => true
    renders reference s && isText && partsRender reference ss

end

/-- Whether a definition has a text when at most `depth` names are expanded. A name must be a value
without parts. -/
def isResolvableWithin : Nat → Table Json Selector → Selector → Bool
  | 0, _, s => s.renders fun name => (name.isScalar, true)
  | depth + 1, definitions, s => s.renders fun name =>
    match definitions.get? name with
    | none => (name.isScalar, true)
    | some target =>
      let rest := definitions.erase name
      (name.isScalar && isResolvableWithin depth rest target,
        (resolveCellWithin depth rest target).isText)

/-- Whether a definition has a text. -/
def isResolvable (definitions : Table Json Selector) (s : Selector) : Bool :=
  isResolvableWithin definitions.size definitions s

end Selector

end StyleLedger
