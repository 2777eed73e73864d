/-!
White space, and the cutting of text at it.

A blank is a character with the Unicode white-space property, together with the four
information separators U+001C to U+001F. Everything that trims or splits at white space in this
library means exactly these characters; the source language's own separators between tokens are a
smaller set and are defined with its lexemes.
-/

namespace StyleLedger.Text

/-- White space in the wide sense: the Unicode property and the information separators. -/
def isBlank (c : Char) : Bool :=
  let n := c.toNat
  (9 ≤ n && n ≤ 13) || (28 ≤ n && n ≤ 32) || n == 0x85 || n == 0xA0 || n == 0x1680 ||
    (0x2000 ≤ n && n ≤ 0x200A) || n == 0x2028 || n == 0x2029 || n == 0x202F || n == 0x205F ||
    n == 0x3000

/-- Drops the blanks at the front. -/
def trimStart (cs : List Char) : List Char :=
  cs.dropWhile isBlank

/-- Drops the characters at the end that satisfy a test. -/
def dropEndWhile (p : Char → Bool) (cs : List Char) : List Char :=
  (cs.reverse.dropWhile p).reverse

/-- Drops the blanks at the end. -/
def trimEnd (cs : List Char) : List Char :=
  dropEndWhile isBlank cs

/-- Drops the blanks at both ends. -/
def trim (cs : List Char) : List Char :=
  trimEnd (trimStart cs)

/-- A text without the blanks at its ends. -/
def trimmed (s : String) : String :=
  String.ofList (trim s.toList)

/-- Nothing for the empty text, the text itself otherwise. -/
def nonEmpty? (s : String) : Option String :=
  if s.isEmpty then none else some s

/-- An absent or empty text counts as absent. -/
def present? (s : Option String) : Option String :=
  s.bind nonEmpty?

/-- How an optional text reads inside a message or a header: an absent one is spelled `None`. -/
def shown (s : Option String) : String :=
  s.getD "None"

@[simp] theorem trim_nil : trim [] = [] := rfl

@[simp] theorem nonEmpty?_empty : nonEmpty? "" = none := rfl

end StyleLedger.Text
