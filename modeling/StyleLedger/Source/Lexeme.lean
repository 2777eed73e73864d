import StyleLedger.Text.Category
import StyleLedger.Text.Search
import StyleLedger.Source.Keyword

/-!
The shapes of source text: how far a token or a piece of ignored text reaches.

Each shape is given by its *extent*, the number of characters it covers at the front of a text,
where zero means that the text does not begin with it. A token's characters are then `take` of its
extent and the text after it is `drop`, so nothing is lost or invented between tokens.

Which shapes are looked for depends on the grammar: at every point of a source text only the
terminals that may stand there are tried, together with the ignored shapes, in the fixed order
`Lexeme.inOrder`. The first that fits is taken, also when a later one would reach further.
-/

namespace StyleLedger.Source

open Text

/-! ## Extents -/

/-- The characters up to and with the closing quote. A backslash takes the character after it
along, which must not be a line feed. -/
def quotedRest (quote : Char) : List Char → Option Nat
  | [] => none
  | [c] => if c = quote then some 1 else none
  | c :: d :: cs =>
    if c = quote then some 1
    else if c = '\\' then
      if d = '\n' then none else (quotedRest quote cs).map (· + 2)
    else (quotedRest quote (d :: cs)).map (· + 1)

/-- A quoted text, in single or double quotes. -/
def quotedExtent : List Char → Nat
  | [] => 0
  | c :: cs =>
    if c = '\'' || c = '"' then ((quotedRest c cs).map (· + 1)).getD 0 else 0

/-- The characters up to and with the bracket that closes the outermost of `depth` open ones. At
most three may be open at a time. -/
def groupRest (depth : Nat) : List Char → Option Nat
  | [] => none
  | c :: cs =>
    if c = '(' then
      if depth < 3 then (groupRest (depth + 1) cs).map (· + 1) else none
    else if c = ')' then
      if depth ≤ 1 then some 1 else (groupRest (depth - 1) cs).map (· + 1)
    else (groupRest depth cs).map (· + 1)

/-- A bracketed group, nested up to three levels. -/
def groupExtent : List Char → Nat
  | [] => 0
  | c :: cs => if c = '(' then ((groupRest 1 cs).map (· + 1)).getD 0 else 0

/-- The characters that end a word of a value unless they open a quoted text or a group. -/
def endsWord (c : Char) : Bool :=
  isBlank c || c == ',' || c == ';' || c == '(' || c == ')' || c == '\'' || c == '"'

/-- One piece of a word of a value: a quoted text, a group, or a plain character. -/
def pieceExtent : List Char → Nat
  | [] => 0
  | c :: cs =>
    if c = '\'' || c = '"' then quotedExtent (c :: cs)
    else if c = '(' then groupExtent (c :: cs)
    else if endsWord c then 0 else 1

/-- One word of a value: as many pieces as there are. -/
def wordExtent (cs : List Char) : Nat :=
  covered pieceExtent cs

/-- The words before which a value stops: the clauses that may follow one. -/
def clauseWords : List Keyword :=
  [.whereWord, .and, .or, .setWord, .add]

/-- Whether a word of a value may not begin here: a comment does, or a clause word that is not
merely the beginning of a longer word. -/
def stopsValue (cs : List Char) : Bool :=
  "--".toList.isPrefixOf cs || "/*".toList.isPrefixOf cs ||
    clauseWords.any fun k =>
      let n := k.spelledAt cs
      n != 0 && !((cs.drop n).head?.any isWord)

/-- A further word of a value, with the blanks before it. -/
def nextWordExtent (cs : List Char) : Nat :=
  let blanks := (cs.takeWhile isBlank).length
  let rest := cs.drop blanks
  if blanks = 0 || stopsValue rest || wordExtent rest = 0 then 0 else blanks + wordExtent rest

/-- A value: one or more words. -/
def valueExtent (cs : List Char) : Nat :=
  let first := wordExtent cs
  if first = 0 then 0 else first + covered nextWordExtent (cs.drop first)

/-- An identifier: a letter or underscore, then letters, digits, underscores and hyphens. -/
def identExtent : List Char → Nat
  | [] => 0
  | c :: cs => if isAsciiLetter c || c == '_' then 1 + (cs.takeWhile isNameChar).length else 0

/-- A percentage: digits, at most one fraction, and the sign. -/
def percentageExtent (cs : List Char) : Nat :=
  let whole := (cs.takeWhile isDecimal).length
  if whole = 0 then 0
  else
    match cs.drop whole with
    | '%' :: _ => whole + 1
    | '.' :: rest =>
      let fraction := (rest.takeWhile isDecimal).length
      if fraction ≠ 0 && (rest.drop fraction).head? == some '%' then whole + 1 + fraction + 1
      else 0
    | _ => 0

/-- The names of the selector functions. -/
def functionNames : List (List Char) :=
  ["ATTR", "CHILD", "DESC", "AND", "OR", "PE", "ID", "E", "C", "P"].map String.toList

/-- A selector function with its opening bracket; blanks may stand between the two. -/
def functionExtent (cs : List Char) : Nat :=
  (functionNames.findSome? fun name =>
    let n := spelledLength name cs
    let blanks := ((cs.drop n).takeWhile isBlank).length
    if n ≠ 0 && (cs.drop (n + blanks)).head? == some '(' then some (n + blanks + 1)
    else none).getD 0

/-- A media query: everything before the semicolon. -/
def mediaExtent (cs : List Char) : Nat :=
  (cs.takeWhile (· != ';')).length

/-- A comparison sign. -/
def comparisonExtent : List Char → Nat
  | [] => 0
  | c :: cs =>
    if c = '>' || c = '<' then if cs.head? == some '=' then 2 else 1 else 0

/-- The separators that are ignored between tokens. -/
def isSeparator (c : Char) : Bool :=
  c == ' ' || c == '\t' || c == '\x0c' || c == '\r' || c == '\n'

/-- Ignored white space. -/
def separatorExtent (cs : List Char) : Nat :=
  (cs.takeWhile isSeparator).length

/-- A comment that reaches to the end of the line. -/
def lineCommentExtent : List Char → Nat
  | '-' :: '-' :: cs => 2 + (cs.takeWhile (· != '\n')).length
  | _ => 0

/-- The characters up to and with the nearest end of a block comment. -/
def blockCommentRest : List Char → Option Nat
  | [] => none
  | [_] => none
  | c :: d :: cs =>
    if c = '*' && d = '/' then some 2 else (blockCommentRest (d :: cs)).map (· + 1)

/-- A block comment. -/
def blockCommentExtent : List Char → Nat
  | '/' :: '*' :: cs => ((blockCommentRest cs).map (· + 2)).getD 0
  | _ => 0

/-! ## Terminals -/

/-- The kinds of tokens. -/
inductive Terminal
  /-- A reserved word. -/
  | word (k : Keyword)
  /-- A punctuation mark. -/
  | mark (c : Char)
  /-- A comparison sign. -/
  | comparison
  /-- An identifier. -/
  | ident
  /-- A quoted text. -/
  | quoted
  /-- A property or token value. -/
  | value
  /-- A percentage. -/
  | percentage
  /-- A selector function with its opening bracket. -/
  | function
  /-- A bracketed group. -/
  | group
  /-- A media query. -/
  | media
deriving Repr, DecidableEq, Inhabited

/-- How far a terminal reaches at the front of a text. -/
def Terminal.extent : Terminal → List Char → Nat
  | .word k, cs => k.spelledAt cs
  | .mark c, cs => if cs.head? == some c then 1 else 0
  | .comparison, cs => comparisonExtent cs
  | .ident, cs => identExtent cs
  | .quoted, cs => quotedExtent cs
  | .value, cs => valueExtent cs
  | .percentage, cs => percentageExtent cs
  | .function, cs => functionExtent cs
  | .group, cs => groupExtent cs
  | .media, cs => mediaExtent cs

/-- What may be found at a point of a source text: a token, or text that is ignored. -/
inductive Lexeme
  /-- Ignored white space. -/
  | separator
  /-- An ignored comment to the end of the line. -/
  | lineComment
  /-- An ignored comment between its own marks. -/
  | blockComment
  /-- A token. -/
  | token (t : Terminal)
deriving Repr, DecidableEq, Inhabited

namespace Lexeme

/-- How far a lexeme reaches at the front of a text. -/
def extent : Lexeme → List Char → Nat
  | separator, cs => separatorExtent cs
  | lineComment, cs => lineCommentExtent cs
  | blockComment, cs => blockCommentExtent cs
  | token t, cs => t.extent cs

/-- The order in which lexemes are tried. -/
def inOrder : List Lexeme :=
  [token .function, token .value, token .group, token .quoted, token .ident, blockComment,
   token .percentage, separator, lineComment, token .media] ++
  Keyword.byLength.map (fun k => token (.word k)) ++
  [token .comparison] ++ ['(', ')', ',', ';', '='].map (fun c => token (.mark c))

/-- Ignored text may stand anywhere; a token only where the grammar admits it. -/
def admitted (accept : List Terminal) : Lexeme → Bool
  | token t => accept.contains t
  | _ => true

/-- An identifier that spells an admitted reserved word is that word. -/
def promote (accept : List Terminal) (text : List Char) : Terminal → Terminal
  | .ident =>
    (accept.find? fun
      | .word k => k.isSpelledBy text
      | _ => false).getD .ident
  | t => t

/-- The lexeme at the front of a text and its extent. -/
def first? (accept : List Terminal) (cs : List Char) : Option (Lexeme × Nat) :=
  (inOrder.find? fun l => l.admitted accept && l.extent cs != 0).map fun l =>
    (match l with
      | token t => token (promote accept (cs.take (l.extent cs)) t)
      | l => l, l.extent cs)

end Lexeme

end StyleLedger.Source
