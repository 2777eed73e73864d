/-!
Text as bytes: the UTF-8 encoding, its decoding with the faults that can show, and line ends.
-/

namespace StyleLedger.Text

/-- The bytes of a file. -/
abbrev Bytes := List UInt8

namespace Utf8

/-! ## Encoding -/

/-- The bytes of a character. -/
def encodeChar (c : Char) : Bytes :=
  let n := c.toNat
  if n < 0x80 then [n.toUInt8]
  else if n < 0x800 then [(0xC0 + n / 0x40).toUInt8, (0x80 + n % 0x40).toUInt8]
  else if n < 0x10000 then
    [(0xE0 + n / 0x1000).toUInt8, (0x80 + n / 0x40 % 0x40).toUInt8, (0x80 + n % 0x40).toUInt8]
  else
    [(0xF0 + n / 0x40000).toUInt8, (0x80 + n / 0x1000 % 0x40).toUInt8,
      (0x80 + n / 0x40 % 0x40).toUInt8, (0x80 + n % 0x40).toUInt8]

/-- The bytes of a text. -/
def encode (s : String) : Bytes :=
  s.toList.flatMap encodeChar

/-! ## Decoding -/

/-- What can be wrong with a byte. -/
inductive Reason
  | startByte
  | continuationByte
  | endOfData
deriving Repr, DecidableEq, Inhabited

/-- The wording of a reason. -/
def Reason.message : Reason → String
  | startByte => "invalid start byte"
  | continuationByte => "invalid continuation byte"
  | endOfData => "unexpected end of data"

/-- A fault: its reason, the offset of the first byte concerned, how many bytes are, and which byte
is the first. -/
structure Fault where
  reason : Reason
  start : Nat
  count : Nat
  byte : UInt8
deriving Repr, DecidableEq, Inhabited

/-- A number in base sixteen, two digits at least. -/
def hexByte (b : UInt8) : String :=
  let ds := Nat.toDigits 16 b.toNat
  String.ofList (if ds.length < 2 then '0' :: ds else ds)

/-- The wording of a fault. -/
def Fault.message (f : Fault) : String :=
  let place :=
    if f.count = 1 then "byte 0x" ++ hexByte f.byte ++ " in position " ++ toString f.start
    else "bytes in position " ++ toString f.start ++ "-" ++ toString (f.start + f.count - 1)
  "'utf-8' codec can't decode " ++ place ++ ": " ++ f.reason.message

/-- A byte that continues a character. -/
def isContinuation (b : UInt8) : Bool :=
  0x80 ≤ b && b ≤ 0xBF

/-- The six bits that a continuing byte adds. -/
def low6 (b : UInt8) : Nat := b.toNat % 0x40

/-- Whether a second byte may follow the first byte of a longer character: no character has a
spelling longer than needed, and surrogates and numbers beyond the last code point have none. -/
def mayFollow (first second : UInt8) : Bool :=
  isContinuation second &&
    !(first == 0xE0 && second < 0xA0) && !(first == 0xED && 0xA0 ≤ second) &&
    !(first == 0xF0 && second < 0x90) && !(first == 0xF4 && 0x90 ≤ second)

/-- The first character of some bytes and the number of its bytes, or the reason why there is none
and the number of bytes concerned. -/
def decodeFirst (b : UInt8) (rest : Bytes) : Except (Reason × Nat) (Char × Nat) :=
  if b < 0x80 then .ok (Char.ofNat b.toNat, 1)
  else if b < 0xC2 || 0xF4 < b then .error (.startByte, 1)
  else if b < 0xE0 then
    match rest with
    | c :: _ =>
      if isContinuation c then .ok (Char.ofNat ((b.toNat - 0xC0) * 0x40 + low6 c), 2)
      else .error (.continuationByte, 1)
    | [] => .error (.endOfData, 1)
  else if b < 0xF0 then
    match rest with
    | c :: rest =>
      if !mayFollow b c then .error (.continuationByte, 1)
      else
        match rest with
        | d :: _ =>
          if isContinuation d then
            .ok (Char.ofNat (((b.toNat - 0xE0) * 0x40 + low6 c) * 0x40 + low6 d), 3)
          else .error (.continuationByte, 2)
        | [] => .error (.endOfData, 2)
    | [] => .error (.endOfData, 1)
  else
    match rest with
    | c :: rest =>
      if !mayFollow b c then .error (.continuationByte, 1)
      else
        match rest with
        | d :: rest =>
          if !isContinuation d then .error (.continuationByte, 2)
          else
            match rest with
            | e :: _ =>
              if isContinuation e then
                .ok (Char.ofNat
                  ((((b.toNat - 0xF0) * 0x40 + low6 c) * 0x40 + low6 d) * 0x40 + low6 e), 4)
              else .error (.continuationByte, 3)
            | [] => .error (.endOfData, 3)
        | [] => .error (.endOfData, 2)
    | [] => .error (.endOfData, 1)

/-- The characters of some bytes that begin at an offset. `skip` counts the bytes of a character
still to be passed over. -/
def decodeFrom (offset skip : Nat) : Bytes → Except Fault (List Char)
  | [] => .ok []
  | b :: bs =>
    match skip with
    | n + 1 => decodeFrom (offset + 1) n bs
    | 0 =>
      match decodeFirst b bs with
      | .error (reason, count) => .error ⟨reason, offset, count, b⟩
      | .ok (c, count) => do
        let cs ← decodeFrom (offset + 1) (count - 1) bs
        return c :: cs

/-- The text of some bytes. -/
def decode (bytes : Bytes) : Except Fault String :=
  (decodeFrom 0 0 bytes).map String.ofList

end Utf8

/-- Every line end becomes a line feed. -/
def unifyLineEnds : List Char → List Char
  | [] => []
  | [c] => if c = '\r' then ['\n'] else [c]
  | c :: d :: cs =>
    if c = '\r' then
      if d = '\n' then '\n' :: unifyLineEnds cs else '\n' :: unifyLineEnds (d :: cs)
    else c :: unifyLineEnds (d :: cs)

/-- The text of a file, with plain line feeds. -/
def ofFile (bytes : Bytes) : Except Utf8.Fault String :=
  (Utf8.decode bytes).map fun s => String.ofList (unifyLineEnds s.toList)

end StyleLedger.Text
