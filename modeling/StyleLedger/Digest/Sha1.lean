import StyleLedger.Text.Utf8

/-!
The SHA-1 digest of a list of bytes: twenty bytes, also as forty digits in base sixteen.
-/

namespace StyleLedger.Digest

open Text (Bytes)

/-- The five words of the running digest. -/
structure Sha1State where
  a : UInt32 := 0x67452301
  b : UInt32 := 0xEFCDAB89
  c : UInt32 := 0x98BADCFE
  d : UInt32 := 0x10325476
  e : UInt32 := 0xC3D2E1F0
deriving Repr, DecidableEq, Inhabited

/-- A word turned to the left. -/
def rotate (x : UInt32) (n : UInt32) : UInt32 :=
  (x <<< n) ||| (x >>> (32 - n))

/-- A number as big-endian bytes. -/
def bigEndian (count n : Nat) : Bytes :=
  (List.range count).map fun i => (n / Nat.pow 256 (count - 1 - i)).toUInt8

/-- A message with its end mark, zeros and its length in bits, a multiple of 64 bytes long. -/
def padded (message : Bytes) : Bytes :=
  let n := message.length
  let zeros := (119 - n % 64) % 64
  message ++ 0x80 :: List.replicate zeros 0 ++ bigEndian 8 (8 * n)

/-- The words of a block. -/
def blockWords : Bytes → List UInt32
  | a :: b :: c :: d :: rest =>
    (a.toUInt32 <<< 24 ||| b.toUInt32 <<< 16 ||| c.toUInt32 <<< 8 ||| d.toUInt32) ::
      blockWords rest
  | _ => []

/-- The schedule of a block: sixteen words and those computed from them, to a number of words. -/
def schedule (words : Array UInt32) : Nat → Array UInt32
  | 0 => words
  | n + 1 =>
    let i := words.size
    let word (k : Nat) : UInt32 := words[i - k]?.getD 0
    schedule (words.push (rotate (word 3 ^^^ word 8 ^^^ word 14 ^^^ word 16) 1)) n

/-- The mixing function and the constant of a round. -/
def roundTerm (i : Nat) (b c d : UInt32) : UInt32 :=
  if i < 20 then ((b &&& c) ||| (~~~b &&& d)) + 0x5A827999
  else if i < 40 then (b ^^^ c ^^^ d) + 0x6ED9EBA1
  else if i < 60 then ((b &&& c) ||| (b &&& d) ||| (c &&& d)) + 0x8F1BBCDC
  else (b ^^^ c ^^^ d) + 0xCA62C1D6

/-- One round. -/
def sha1Round (s : Sha1State) (i : Nat) (word : UInt32) : Sha1State :=
  { a := rotate s.a 5 + roundTerm i s.b s.c s.d + s.e + word
    b := s.a, c := rotate s.b 30, d := s.c, e := s.d }

/-- Takes one block in. -/
def absorb (s : Sha1State) (block : Bytes) : Sha1State :=
  let words := schedule (blockWords block).toArray 64
  let t := words.toList.zipIdx.foldl (fun t (w, i) => sha1Round t i w) s
  { a := s.a + t.a, b := s.b + t.b, c := s.c + t.c, d := s.d + t.d, e := s.e + t.e }

/-- Takes as many whole blocks in as there are, at most a given number. -/
def absorbAll (s : Sha1State) : Nat → Bytes → Sha1State
  | 0, _ => s
  | _, [] => s
  | n + 1, bytes => absorbAll (absorb s (bytes.take 64)) n (bytes.drop 64)

/-- The bytes of a word, the highest first. -/
def wordBytes (w : UInt32) : Bytes := bigEndian 4 w.toNat

/-- The digest of a message. -/
def sha1 (message : Bytes) : Bytes :=
  let bytes := padded message
  let s := absorbAll {} (bytes.length / 64) bytes
  [s.a, s.b, s.c, s.d, s.e].flatMap wordBytes

/-- Bytes as digits in base sixteen. -/
def hex (bytes : Bytes) : String :=
  String.join (bytes.map Text.Utf8.hexByte)

/-- The digest of a message in digits. -/
def sha1Hex (message : Bytes) : String :=
  hex (sha1 message)

end StyleLedger.Digest
