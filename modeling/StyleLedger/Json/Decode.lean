import StyleLedger.Json.Value

/-!
Reading structured values from text.

Besides the standard format the reader takes `NaN`, `Infinity` and `-Infinity` for numbers. When a
name is repeated in an object its last value counts, at the place of its first mention.

Every fault names the place where it shows. Inside the reader a place is the number of characters
that are left, so that the reader needs no counter; `read` turns it into an offset, a line and a
column.
-/

namespace StyleLedger.Json

/-- The greatest number of digits of an integer. -/
def digitLimit : Nat := 4300

/-- What is wrong with a text. -/
inductive Fault
  | value
  | propertyName
  | colon
  | comma
  | extraData
  | unterminatedText
  | controlCharacter
  | escape
  | unicodeEscape
  | byteOrderMark
  | tooManyDigits (count : Nat)
deriving Repr, DecidableEq, Inhabited

/-- The wording of a fault. -/
def Fault.wording : Fault → String
  | value => "Expecting value"
  | propertyName => "Expecting property name enclosed in double quotes"
  | colon => "Expecting ':' delimiter"
  | comma => "Expecting ',' delimiter"
  | extraData => "Extra data"
  | unterminatedText => "Unterminated string starting at"
  | controlCharacter => "Invalid control character at"
  | escape => "Invalid \\escape"
  | unicodeEscape => "Invalid \\uXXXX escape"
  | byteOrderMark => "Unexpected UTF-8 BOM (decode using utf-8-sig)"
  | tooManyDigits count =>
    "Exceeds the limit (" ++ toString digitLimit ++
      " digits) for integer string conversion: value has " ++ toString count ++
      " digits; use sys.set_int_max_str_digits() to increase the limit"

/-- Whether a fault is named together with its place. -/
def Fault.hasPlace : Fault → Bool
  | tooManyDigits _ => false
  | _ => true

/-- A fault and the number of characters left where it shows. -/
structure FaultAt where
  fault : Fault
  left : Nat
deriving Repr, DecidableEq, Inhabited

/-! ## Texts -/

/-- The value of a digit in base sixteen. -/
def hexValue? (c : Char) : Option Nat :=
  if '0' ≤ c && c ≤ '9' then some (c.toNat - 48)
  else if 'a' ≤ c && c ≤ 'f' then some (c.toNat - 87)
  else if 'A' ≤ c && c ≤ 'F' then some (c.toNat - 55)
  else none

/-- The 16-bit code unit spelled by four digits. -/
def codeUnit? (a b c d : Char) : Option Nat := do
  let a ← hexValue? a
  let b ← hexValue? b
  let c ← hexValue? c
  let d ← hexValue? d
  return ((a * 16 + b) * 16 + c) * 16 + d

/-- Whether a code unit is the first half of a character beyond the first plane. -/
def isHighSurrogate (n : Nat) : Bool := 0xD800 ≤ n && n ≤ 0xDBFF

/-- Whether a code unit is the second half of a character beyond the first plane. -/
def isLowSurrogate (n : Nat) : Bool := 0xDC00 ≤ n && n ≤ 0xDFFF

/-- The character of a code unit; a half that stands alone becomes the replacement character. -/
def unitChar (n : Nat) : Char :=
  if isHighSurrogate n || isLowSurrogate n then Char.ofNat 0xFFFD else Char.ofNat n

/-- The character that two halves stand for. -/
def pairChar (high low : Nat) : Char :=
  Char.ofNat (0x10000 + (high - 0xD800) * 0x400 + (low - 0xDC00))

/-- The character a short escape stands for. -/
def shortEscape? : Char → Option Char
  | '"' => some '"'
  | '\\' => some '\\'
  | '/' => some '/'
  | 'b' => some '\x08'
  | 'f' => some '\x0c'
  | 'n' => some '\n'
  | 'r' => some '\r'
  | 't' => some '\t'
  | _ => none

/-- The second half of a character beyond the first plane, when an escape for one follows the first
half; at least one more character must stand behind it. -/
def lowHalf? : List Char → Except FaultAt (Option (Nat × List Char))
  | '\\' :: 'u' :: a :: b :: c :: d :: e :: rest =>
    match codeUnit? a b c d with
    | none => .error ⟨.unicodeEscape, rest.length + 6⟩
    | some low => .ok (if isLowSurrogate low then some (low, e :: rest) else none)
  | _ => .ok none

/-- The characters of a text after its opening quote. `fuel` bounds the number of characters;
`opening` is what was left at the quote. -/
def readChars (opening : Nat) : Nat → List Char → Except FaultAt (List Char × List Char)
  | 0, _ => .error ⟨.unterminatedText, opening⟩
  | _, [] => .error ⟨.unterminatedText, opening⟩
  | fuel + 1, c :: cs =>
    let continueWith (x : Char) (rest : List Char) : Except FaultAt (List Char × List Char) := do
      let (xs, rest) ← readChars opening fuel rest
      return (x :: xs, rest)
    if c = '"' then .ok ([], cs)
    else if c = '\\' then
      match cs with
      | [] => .error ⟨.unterminatedText, opening⟩
      | 'u' :: a :: b :: c :: d :: e :: rest =>
        match codeUnit? a b c d with
        | none => .error ⟨.unicodeEscape, rest.length + 6⟩
        | some n =>
          if isHighSurrogate n then do
            match ← lowHalf? (e :: rest) with
            | some (low, rest) => continueWith (pairChar n low) rest
            | none => continueWith (unitChar n) (e :: rest)
          else continueWith (unitChar n) (e :: rest)
      | e :: rest =>
        if e = 'u' then .error ⟨.unicodeEscape, rest.length + 1⟩
        else
          match shortEscape? e with
          | some x => continueWith x rest
          | none => .error ⟨.escape, rest.length + 2⟩
    else if c.toNat < 0x20 then .error ⟨.controlCharacter, cs.length + 1⟩
    else continueWith c cs

/-- A text whose opening quote has been passed. -/
def readText (cs : List Char) : Except FaultAt (String × List Char) := do
  let (xs, rest) ← readChars (cs.length + 1) (cs.length + 1) cs
  return (String.ofList xs, rest)

/-! ## Numerals -/

/-- The value of a run of digits. -/
def digitsValue (ds : List Char) : Nat :=
  ds.foldl (fun n c => n * 10 + (c.toNat - 48)) 0

/-- A run of digits at the front of a text. -/
def takeDigits (cs : List Char) : List Char × List Char :=
  (cs.takeWhile Text.isAsciiDigit, cs.dropWhile Text.isAsciiDigit)

/-- A fraction, if a point and a digit follow. -/
def readFraction : List Char → List Char × List Char
  | '.' :: cs =>
    match takeDigits cs with
    | ([], _) => ([], '.' :: cs)
    | split => split
  | cs => ([], cs)

/-- A power of ten, if the mark and a digit follow. -/
def readPower (cs : List Char) : Option Int × List Char :=
  match cs with
  | [] => (none, cs)
  | e :: after =>
    if e = 'e' || e = 'E' then
      let (negative, digits) := match after with
        | '-' :: ds => (true, ds)
        | '+' :: ds => (false, ds)
        | ds => (false, ds)
      match takeDigits digits with
      | ([], _) => (none, cs)
      | (ds, rest) =>
        let n : Int := digitsValue ds
        (some (if negative then -n else n), rest)
    else (none, cs)

/-- A numeral without its sign. -/
def readUnsigned? (negative : Bool) (cs : List Char) : Option (Numeral × List Char) :=
  let (whole, rest) := match cs with
    | '0' :: rest => (['0'], rest)
    | cs => takeDigits cs
  if whole.isEmpty then none
  else
    let (fraction, rest) := readFraction rest
    let (power, rest) := readPower rest
    if fraction.isEmpty && power.isNone then
      let n : Int := digitsValue whole
      some (.integer (if negative then -n else n), rest)
    else
      let numeral : Decimal :=
        ⟨negative, digitsValue (whole ++ fraction), power.getD 0 - fraction.length⟩
      some (.real numeral.nearest, rest)

/-- A numeral. -/
def readNumeral? : List Char → Option (Numeral × List Char)
  | '-' :: cs => readUnsigned? true cs
  | cs => readUnsigned? false cs

/-! ## Values -/

/-- The white space of the format. -/
def isSpace (c : Char) : Bool :=
  c == ' ' || c == '\t' || c == '\n' || c == '\r'

/-- The text without the white space in front. -/
def skipSpace (cs : List Char) : List Char :=
  cs.dropWhile isSpace

/-- The words that stand for a value. -/
def words : List (List Char × Json) :=
  [("null".toList, .null), ("true".toList, .bool true), ("false".toList, .bool false),
   ("NaN".toList, .number (.real .nan)), ("Infinity".toList, .number (.real (.infinite false))),
   ("-Infinity".toList, .number (.real (.infinite true)))]

/-- The number of digits of an integer; other numbers have none that count. -/
def digitCount : Numeral → Nat
  | .integer n => (Binary.digitsOf n.natAbs).length
  | .real _ => 0

/-- A word or a number. -/
def readScalar (cs : List Char) : Except FaultAt (Json × List Char) :=
  match words.find? fun w => w.1.isPrefixOf cs with
  | some (w, v) => .ok (v, cs.drop w.length)
  | none =>
    match readNumeral? cs with
    | some (n, rest) =>
      if digitLimit < digitCount n then .error ⟨.tooManyDigits (digitCount n), rest.length⟩
      else .ok (.number n, rest)
    | none => .error ⟨.value, cs.length⟩

mutual

/-- A value at the front of a text. `fuel` bounds the number of values. -/
def readValue : Nat → List Char → Except FaultAt (Json × List Char)
  | 0, cs => .error ⟨.value, cs.length⟩
  | _, [] => .error ⟨.value, 0⟩
  | fuel + 1, c :: cs =>
    if c = '"' then do
      let (s, rest) ← readText cs
      return (.text s, rest)
    else if c = '[' then
      match skipSpace cs with
      | ']' :: rest => .ok (.array [], rest)
      | rest => do
        let (items, rest) ← readItems fuel rest
        return (.array items, rest)
    else if c = '\x7b' then
      match skipSpace cs with
      | '\x7d' :: rest => .ok (.object [], rest)
      | rest => do
        let (fields, rest) ← readFields fuel rest
        return (.object (Table.ofList fields).entries, rest)
    else readScalar (c :: cs)

/-- The items of an array up to its closing bracket. -/
def readItems : Nat → List Char → Except FaultAt (List Json × List Char)
  | 0, cs => .error ⟨.value, cs.length⟩
  | fuel + 1, cs => do
    let (v, rest) ← readValue fuel cs
    match skipSpace rest with
    | ']' :: rest => return ([v], rest)
    | ',' :: rest => do
      let (vs, rest) ← readItems fuel (skipSpace rest)
      return (v :: vs, rest)
    | rest => .error ⟨.comma, rest.length⟩

/-- The fields of an object up to its closing brace. -/
def readFields : Nat → List Char → Except FaultAt (List (String × Json) × List Char)
  | 0, cs => .error ⟨.propertyName, cs.length⟩
  | fuel + 1, cs =>
    match cs with
    | '"' :: cs => do
      let (name, rest) ← readText cs
      match skipSpace rest with
      | ':' :: rest => do
        let (v, rest) ← readValue fuel (skipSpace rest)
        match skipSpace rest with
        | '\x7d' :: rest => return ([(name, v)], rest)
        | ',' :: rest => do
          let (fs, rest) ← readFields fuel (skipSpace rest)
          return ((name, v) :: fs, rest)
        | rest => .error ⟨.comma, rest.length⟩
      | rest => .error ⟨.colon, rest.length⟩
    | cs => .error ⟨.propertyName, cs.length⟩

end

/-- A whole text as one value. -/
def readWhole (cs : List Char) : Except FaultAt Json :=
  if cs.head? = some (Char.ofNat 0xFEFF) then .error ⟨.byteOrderMark, cs.length⟩
  else do
    let (v, rest) ← readValue (2 * cs.length + 2) (skipSpace cs)
    match skipSpace rest with
    | [] => return v
    | rest => .error ⟨.extraData, rest.length⟩

/-! ## Places -/

/-- A fault at an offset of a text, with the line and the column of that place. -/
structure ReadError where
  fault : Fault
  line : Nat
  column : Nat
  offset : Nat
deriving Repr, DecidableEq, Inhabited

/-- The wording of a fault, with its place if that is named. -/
def ReadError.message (e : ReadError) : String :=
  if e.fault.hasPlace then
    e.fault.wording ++ ": line " ++ toString e.line ++ " column " ++ toString e.column ++
      " (char " ++ toString e.offset ++ ")"
  else e.fault.wording

/-- The place of a fault in a text. -/
def FaultAt.locate (cs : List Char) (e : FaultAt) : ReadError :=
  let offset := cs.length - e.left
  let before := cs.take offset
  { fault := e.fault
    line := before.count '\n' + 1
    column := (before.reverse.takeWhile (· != '\n')).length + 1
    offset := offset }

/-- The value a text stands for. -/
def read (s : String) : Except ReadError Json :=
  (readWhole s.toList).mapError (FaultAt.locate s.toList)

end StyleLedger.Json
