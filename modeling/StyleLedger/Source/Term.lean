import StyleLedger.Source.Error
import StyleLedger.Selector.Basic

/-!
Selector terms: selector definitions as they are written, before their arguments are checked.

Arguments are checked before the function they belong to, from left to right, so the first fault of
a term is the innermost, leftmost one.
-/

namespace StyleLedger.Source

/-- A selector definition as written. -/
inductive Term
  /-- A quoted text. -/
  | text (s : String)
  /-- A function with its arguments; `place` is where it begins. -/
  | call (function : String) (place : Position) (arguments : List Term)
  /-- A join, with the word that says how. -/
  | join (word : String) (left right : Term)
  /-- A name. -/
  | reference (name : String)
deriving Repr, Inhabited

/-- A checked argument. -/
inductive Operand
  | text (s : String)
  | selector (s : Selector)
deriving Repr, Inhabited

namespace Operand

/-- The texts among some arguments. -/
def texts (os : List Operand) : List String :=
  os.filterMap fun
    | text s => some s
    | selector _ => none

/-- The selectors among some arguments. -/
def selectors (os : List Operand) : List Selector :=
  os.filterMap fun
    | text _ => none
    | selector s => some s

end Operand

namespace Term

/-- A pseudo-class or pseudo-element without the colons in front. -/
def dropColons (s : String) : String :=
  String.ofList (s.toList.dropWhile (· == ':'))

/-- The functions that take exactly one text. -/
def simple? (function : String) : Option (String → Except DefinitionFault Selector) :=
  if function = "E" then some fun s => .ok (.element (.text s))
  else if function = "C" then some fun s => .ok (.cls (.text s))
  else if function = "ID" then some fun s => .ok (.id (.text s))
  else if function = "PE" then some fun s => .ok (.pseudoElement (.text (dropColons s)))
  else if function = "P" then some fun s =>
    match Pseudo.problem? (dropColons s) with
    | some problem => .error (.pseudo (dropColons s) problem)
    | none => .ok (.pseudo (.text (dropColons s)))
  else none

/-- An attribute selector from its texts. -/
def attributeOf (texts : List String) : Except DefinitionFault Selector :=
  match texts with
  | name :: rest =>
    if 3 < rest.length then .error .attributeTexts
    else
      let operator := rest[1]?
      let flag := rest[2]?
      match operator.filter (· ∉ Selector.attributeOperators),
        flag.filter (Text.lower · ∉ Selector.attributeFlags) with
      | some o, _ => .error (.attributeOperator o)
      | none, some f => .error (.attributeFlag f)
      | none, none =>
        .ok (.attr (.text name) (.textOrNull rest[0]?) (.textOrNull operator) (.textOrNull flag))
  | [] => .error .attributeTexts

/-- A function applied to its checked arguments. -/
def apply (function : String) (operands : List Operand) : Except DefinitionFault Selector :=
  let texts := Operand.texts operands
  let selectors := Operand.selectors operands
  match simple? function with
  | some make =>
    match operands with
    | [.text s] => make s
    | _ => .error (.oneText function)
  | none =>
    if function = "ATTR" then
      if selectors.isEmpty then attributeOf texts else .error .attributeTexts
    else if !texts.isEmpty then .error (.onlySelectors function)
    else if function = "AND" || function = "OR" then
      if selectors.isEmpty then .error (.someSelector function)
      else .ok (if function = "AND" then .and selectors else .or selectors)
    else
      match selectors with
      | [l, r] => .ok (if function = "CHILD" then .child l r else .descendant l r)
      | _ => .error (.twoSelectors function)

mutual

/-- A term as an argument. -/
def check : Term → Except ParseError Operand
  | text s => .ok (.text s)
  | reference name => .ok (.selector (.reference (.text name)))
  | join word l r =>
    match JoinKind.ofName? word with
    | none => .error (.definition (.joinKind word) none)
    | some kind => do
      let l ← check l
      let r ← check r
      match l, r with
      | .selector l, .selector r => return .selector (.join kind l r)
      | _, _ => .error (.definition (.onlySelectors "JOIN") none)
  | call function place arguments => do
    let operands ← checkAll arguments
    match apply function operands with
    | .ok s => return .selector s
    | .error fault => .error (.definition fault (some place))

/-- Some terms as arguments, from left to right. -/
def checkAll : List Term → Except ParseError (List Operand)
  | [] => .ok []
  | t :: ts => do
    let o ← check t
    let os ← checkAll ts
    return o :: os

end

/-- The definition that a term stands for. -/
def toSelector (t : Term) : Except ParseError Selector := do
  match ← check t with
  | .selector s => return s
  | .text _ => .error (.definition (.onlySelectors "AS") none)

end Term

end StyleLedger.Source
