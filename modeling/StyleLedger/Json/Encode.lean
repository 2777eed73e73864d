import StyleLedger.Json.Value

/-!
Writing structured values as text.

The text is plain ASCII: every other character is written by its code, characters beyond the first
plane as two surrogate codes. The short form separates by a comma and a space; the long form puts
every item on a line of its own, two blanks deeper per level.
-/

namespace StyleLedger.Json

/-- A 16-bit code unit as an escape. -/
def unitEscape (n : Nat) : List Char :=
  '\\' :: 'u' :: Text.hexDigits 4 n

/-- One character inside a written text. -/
def encodeChar (c : Char) : List Char :=
  let n := c.toNat
  if c = '"' then ['\\', '"']
  else if c = '\\' then ['\\', '\\']
  else if c = '\n' then ['\\', 'n']
  else if c = '\r' then ['\\', 'r']
  else if c = '\t' then ['\\', 't']
  else if n = 8 then ['\\', 'b']
  else if n = 12 then ['\\', 'f']
  else if 0x20 ≤ n && n ≤ 0x7E then [c]
  else if n < 0x10000 then unitEscape n
  else unitEscape (0xD800 + (n - 0x10000) / 0x400) ++ unitEscape (0xDC00 + (n - 0x10000) % 0x400)

/-- A text between its quotes. -/
def encodeText (s : String) : List Char :=
  '"' :: s.toList.flatMap encodeChar ++ ['"']

/-- A number. -/
def encodeNumeral : Numeral → List Char
  | .real .nan => "NaN".toList
  | .real (.infinite true) => "-Infinity".toList
  | .real (.infinite false) => "Infinity".toList
  | n => n.shown.toList

mutual

/-- The short form. -/
def encode : Json → List Char
  | null => "null".toList
  | bool true => "true".toList
  | bool false => "false".toList
  | number n => encodeNumeral n
  | text s => encodeText s
  | array [] => ['[', ']']
  | array (v :: vs) => '[' :: encode v ++ encodeItems vs
  | object [] => ['\x7b', '\x7d']
  | object ((name, v) :: fs) =>
    '\x7b' :: encodeText name ++ ':' :: ' ' :: encode v ++ encodeFields fs

/-- The items after the first, with the closing bracket. -/
def encodeItems : List Json → List Char
  | [] => [']']
  | v :: vs => ',' :: ' ' :: encode v ++ encodeItems vs

/-- The fields after the first, with the closing brace. -/
def encodeFields : List (String × Json) → List Char
  | [] => ['\x7d']
  | (name, v) :: fs => ',' :: ' ' :: encodeText name ++ ':' :: ' ' :: encode v ++ encodeFields fs

end

/-- A line break and the indentation of a level. -/
def newline (level : Nat) : List Char :=
  '\n' :: List.replicate (2 * level) ' '

mutual

/-- The long form, at a level of nesting. -/
def encodeLines (level : Nat) : Json → List Char
  | array (v :: vs) =>
    '[' :: newline (level + 1) ++ encodeLines (level + 1) v ++ itemLines (level + 1) vs ++
      newline level ++ [']']
  | object ((name, v) :: fs) =>
    '\x7b' :: newline (level + 1) ++ encodeText name ++ ':' :: ' ' ::
      encodeLines (level + 1) v ++ fieldLines (level + 1) fs ++ newline level ++ ['\x7d']
  | array [] => ['[', ']']
  | object [] => ['\x7b', '\x7d']
  | null => encode null
  | bool b => encode (bool b)
  | number n => encode (number n)
  | text s => encode (text s)

/-- The items after the first. -/
def itemLines (level : Nat) : List Json → List Char
  | [] => []
  | v :: vs => ',' :: newline level ++ encodeLines level v ++ itemLines level vs

/-- The fields after the first. -/
def fieldLines (level : Nat) : List (String × Json) → List Char
  | [] => []
  | (name, v) :: fs =>
    ',' :: newline level ++ encodeText name ++ ':' :: ' ' :: encodeLines level v ++
      fieldLines level fs

end

/-- A value in the short form. -/
def write (v : Json) : String :=
  String.ofList (encode v)

/-- A value in the long form. -/
def writeLines (v : Json) : String :=
  String.ofList (encodeLines 0 v)

end StyleLedger.Json
