import StyleLedger.Text.Blank

/-!
Finding and cutting: pieces of a text that begin somewhere, replacement of every piece, and
splitting at a character.

A *shape* is a function that gives the number of characters it covers at the front of a text, zero
when it does not occur there. Pieces are found from left to right and never overlap.
-/

namespace StyleLedger.Text

/-- Whether a text begins with another. -/
def startsWith (front cs : List Char) : Bool :=
  front.isPrefixOf cs

/-- Whether a shape occurs somewhere. -/
def occurs (shape : List Char → Nat) : List Char → Bool
  | [] => shape [] != 0
  | c :: cs => shape (c :: cs) != 0 || occurs shape cs

/-- The number of characters that pieces of a shape cover at the front of a text, one right after
another; `skip` counts the characters of a piece still to be passed over. -/
def coveredFrom (shape : List Char → Nat) (skip : Nat) : List Char → Nat
  | [] => 0
  | c :: cs =>
    match skip with
    | n + 1 => coveredFrom shape n cs + 1
    | 0 =>
      match shape (c :: cs) with
      | 0 => 0
      | n + 1 => coveredFrom shape n cs + 1

/-- The number of characters that pieces of a shape cover at the front of a text. -/
def covered (shape : List Char → Nat) (cs : List Char) : Nat :=
  coveredFrom shape 0 cs

/-- Goes through a text from left to right. Where the shape does not occur the character is kept;
where it does, the piece is replaced by what `replace` makes of it. `skip` counts the characters of
the piece still to be passed over. -/
def replaceFrom (shape : List Char → Nat) (replace : List Char → List Char) (skip : Nat) :
    List Char → List Char
  | [] => []
  | c :: cs =>
    match skip with
    | n + 1 => replaceFrom shape replace n cs
    | 0 =>
      match shape (c :: cs) with
      | 0 => c :: replaceFrom shape replace 0 cs
      | n + 1 => replace ((c :: cs).take (n + 1)) ++ replaceFrom shape replace n cs

/-- Replaces every piece of a shape. -/
def replaceAll (shape : List Char → Nat) (replace : List Char → List Char) (cs : List Char) :
    List Char :=
  replaceFrom shape replace 0 cs

/-- The pieces of a shape; `skip` counts the characters of a piece still to be passed over. -/
def piecesFrom (shape : List Char → Nat) (skip : Nat) : List Char → List (List Char)
  | [] => []
  | c :: cs =>
    match skip with
    | n + 1 => piecesFrom shape n cs
    | 0 =>
      match shape (c :: cs) with
      | 0 => piecesFrom shape 0 cs
      | n + 1 => (c :: cs).take (n + 1) :: piecesFrom shape n cs

/-- Every piece of a shape, in order. -/
def pieces (shape : List Char → Nat) (cs : List Char) : List (List Char) :=
  piecesFrom shape 0 cs

/-- The parts of a text between the pieces of a shape; `part` is the part read so far, backwards,
and `skip` counts the characters of a piece still to be passed over. -/
def partsFrom (shape : List Char → Nat) (part : List Char) (skip : Nat) :
    List Char → List (List Char)
  | [] => [part.reverse]
  | c :: cs =>
    match skip with
    | n + 1 => partsFrom shape part n cs
    | 0 =>
      match shape (c :: cs) with
      | 0 => partsFrom shape (c :: part) 0 cs
      | n + 1 => part.reverse :: partsFrom shape [] n cs

/-- The parts of a text between the pieces of a shape, in order. -/
def parts (shape : List Char → Nat) (cs : List Char) : List (List Char) :=
  partsFrom shape [] 0 cs

/-- Splits a text at every occurrence of a character. -/
def splitAt (sep : Char) : List Char → List (List Char)
  | [] => [[]]
  | c :: cs =>
    if c = sep then [] :: splitAt sep cs
    else
      match splitAt sep cs with
      | [] => [[c]]
      | part :: parts => (c :: part) :: parts

/-- The parts of a list separated by commas, trimmed, without the empty ones. -/
def commaParts (cs : List Char) : List (List Char) :=
  ((splitAt ',' cs).map trim).filter (!·.isEmpty)

/-- A text with one character replaced by another. -/
def replaceChar (old new : Char) (s : String) : String :=
  String.ofList (s.toList.map fun c => if c = old then new else c)

end StyleLedger.Text
