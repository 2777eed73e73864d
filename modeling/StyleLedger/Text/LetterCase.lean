import StyleLedger.Text.Category

/-!
Letter case around the ASCII letters.

Keywords, spacing modes and the few other texts that are compared without regard to case are ASCII,
so only characters that have a case relation to an ASCII letter matter: besides the letters
themselves the dotted and dotless i (U+0130, U+0131), the long s (U+017F) and the Kelvin sign
(U+212A). The three relations differ on them: a keyword's `i` matches both odd forms of i, raising
maps the dotless i and the long s to `I` and `S`, and lowering maps the Kelvin sign to `k`.
-/

namespace StyleLedger.Text

/-- The small form of an ASCII capital; every other character is left alone. -/
def asciiLower (c : Char) : Char :=
  if 'A' ≤ c && c ≤ 'Z' then Char.ofNat (c.toNat + 32) else c

/-- The capital form of an ASCII small letter; every other character is left alone. -/
def asciiUpper (c : Char) : Char :=
  if 'a' ≤ c && c ≤ 'z' then Char.ofNat (c.toNat - 32) else c

/-- Capital form; the dotless i and the long s have ASCII capitals too. -/
def upperChar (c : Char) : Char :=
  if c.toNat = 0x131 then 'I' else if c.toNat = 0x17F then 'S' else asciiUpper c

/-- Small form; the Kelvin sign is a capital of `k`. -/
def lowerChar (c : Char) : Char :=
  if c.toNat = 0x212A then 'k' else asciiLower c

/-- The representative under which keyword letters are compared. -/
def foldChar (c : Char) : Char :=
  if c.toNat = 0x130 || c.toNat = 0x131 then 'i'
  else if c.toNat = 0x17F then 's'
  else lowerChar c

/-- Capital form of a text. -/
def upper (s : String) : String :=
  String.ofList (s.toList.map upperChar)

/-- Small form of a text. -/
def lower (s : String) : String :=
  String.ofList (s.toList.map lowerChar)

/-- The representative of a choice on a command line: capitals, the Kelvin sign and the long s are
levelled, the two odd forms of i are not. -/
def foldChoice (s : String) : String :=
  String.ofList (s.toList.map fun c => if c.toNat = 0x17F then 's' else lowerChar c)

/-- The number of characters that spell `word` at the front of a text, letter case aside; zero when
it is not spelled there. -/
def spelledLength (word : List Char) (cs : List Char) : Nat :=
  match word, cs with
  | [], _ => 0
  | w :: ws, cs =>
    let n := (w :: ws).length
    if (cs.take n).map foldChar = (w :: ws).map foldChar then n else 0

end StyleLedger.Text
