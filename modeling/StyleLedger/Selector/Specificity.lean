import StyleLedger.Text.Search
import StyleLedger.Text.Category

/-!
How specific a selector text is, as far as its surface shows: ids, then classes together with
attributes and pseudo-classes, then elements together with pseudo-elements. The arguments of
pseudo-classes are not looked into.

Attributes, pseudo-elements and pseudo-classes are taken out of the text in this order before the
rest is counted.
-/

namespace StyleLedger

/-- The three counts of a specificity. -/
structure Specificity where
  ids : Nat
  classes : Nat
  elements : Nat
deriving Repr, DecidableEq, Inhabited

namespace Specificity

open Text

/-- An attribute selector: from a bracket to the next closing one. -/
def attributeExtent : List Char → Nat
  | '[' :: cs =>
    let inner := (cs.takeWhile (· != ']')).length
    if (cs.drop inner).isEmpty then 0 else inner + 2
  | _ => 0

/-- A sign followed by a name. -/
def namedExtent (sign : List Char) (cs : List Char) : Nat :=
  let name := ((cs.drop sign.length).takeWhile isNameChar).length
  if startsWith sign cs && name ≠ 0 then sign.length + name else 0

/-- A pseudo-element. -/
def pseudoElementExtent (cs : List Char) : Nat :=
  namedExtent [':', ':'] cs

/-- A pseudo-class with its arguments, up to the next closing bracket. -/
def pseudoClassExtent (cs : List Char) : Nat :=
  let n := namedExtent [':'] cs
  if n = 0 then 0
  else
    match cs.drop n with
    | '(' :: rest =>
      let inner := (rest.takeWhile (· != ')')).length
      if (rest.drop inner).isEmpty then n else n + inner + 2
    | _ => n

/-- An id. -/
def idExtent (cs : List Char) : Nat := namedExtent ['#'] cs

/-- A class. -/
def classExtent (cs : List Char) : Nat := namedExtent ['.'] cs

/-- The name of an element. -/
def elementNameExtent : List Char → Nat
  | [] => 0
  | c :: cs => if isAsciiLetter c then 1 + (cs.takeWhile isNameChar).length else 0

/-- The signs after which the name of an element may begin. -/
def precedesElement (c : Char) : Bool :=
  isBlank c || c == '>' || c == '+' || c == '~' || c == ',' || c == '('

/-- The name of an element with the sign in front of it. -/
def elementExtent : List Char → Nat
  | [] => 0
  | c :: cs =>
    if precedesElement c && elementNameExtent cs ≠ 0 then 1 + elementNameExtent cs else 0

/-- The number of elements: one may begin at the very front, the others after a sign. -/
def countElements (cs : List Char) : Nat :=
  let front := elementNameExtent cs
  (if front = 0 then 0 else 1) + (pieces elementExtent (cs.drop front)).length

/-- The specificity of a selector text. -/
def ofText (selector : String) : Specificity :=
  let cs := selector.toList
  let attributes := (pieces attributeExtent cs).length
  let cs := replaceAll attributeExtent (fun _ => []) cs
  let pseudoElements := (pieces pseudoElementExtent cs).length
  let cs := replaceAll pseudoElementExtent (fun _ => []) cs
  let pseudoClasses := (pieces pseudoClassExtent cs).length
  let cs := replaceAll pseudoClassExtent (fun _ => []) cs
  { ids := (pieces idExtent cs).length
    classes := (pieces classExtent cs).length + attributes + pseudoClasses
    elements := countElements cs + pseudoElements }

end Specificity

end StyleLedger
