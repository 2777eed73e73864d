import StyleLedger.Text.Search
import StyleLedger.Text.LetterCase

/-!
Checks on the arguments of functional pseudo-classes.

Only `:is()`, `:where()`, `:not()`, `:has()` and the `:nth-*()` family are looked into; every other
pseudo-class is accepted as it stands.

* `Pseudo.problem?` — what is wrong with a pseudo-class, if anything.
* `Pseudo.selectorFault?` — what is obviously wrong with a selector, if anything.
-/

namespace StyleLedger.Pseudo

open Text

/-! ## Selectors -/

/-- What is obviously wrong with a selector. -/
inductive SelectorFault
  | empty
  | squareBrackets
  | roundBrackets
  | leadingDigit
  | combinators
deriving Repr, DecidableEq, Inhabited

/-- The wording of a fault. -/
def SelectorFault.message : SelectorFault → String
  | empty => "Empty selector"
  | squareBrackets => "Unmatched square brackets"
  | roundBrackets => "Unmatched parentheses"
  | leadingDigit => "Selector cannot start with a number"
  | combinators => "Invalid combinator sequence"

/-- A combinator sign. -/
def isCombinator (c : Char) : Bool :=
  c == '>' || c == '+' || c == '~'

/-- Two combinator signs next to each other, anywhere. -/
def doubledCombinator : List Char → Bool
  | c :: d :: cs => (isCombinator c && isCombinator d) || doubledCombinator (d :: cs)
  | _ => false

/-- The first fault of a selector. -/
def selectorFault? (selector : List Char) : Option SelectorFault :=
  let cs := trim selector
  if cs.isEmpty then some .empty
  else if cs.count '[' ≠ cs.count ']' then some .squareBrackets
  else if cs.count '(' ≠ cs.count ')' then some .roundBrackets
  else if cs.head?.any isDigitLike then some .leadingDigit
  else if doubledCombinator cs then some .combinators
  else none

/-! ## Lists of selectors -/

/-- What is wrong with a pseudo-class. -/
inductive Problem
  /-- No selector where one is needed. -/
  | noSelector (name : String)
  /-- A pseudo-element in a list of selectors. -/
  | pseudoElement (name selector : String)
  /-- A faulty selector in a list. -/
  | faulty (name selector : String) (fault : SelectorFault)
  /-- A relative selector that begins with something else. -/
  | relative (selector : String)
  /-- A faulty selector after `of`. -/
  | faultyOf (name selector : String) (fault : SelectorFault)
  /-- A position that is not one. -/
  | position (name text : String)
deriving Repr, DecidableEq, Inhabited

/-- The wording of a problem. -/
def Problem.message : Problem → String
  | noSelector name => ":" ++ name ++ "() requires at least one selector"
  | pseudoElement name selector =>
    ":" ++ name ++ "() cannot contain pseudo-elements (found in \"" ++ selector ++ "\")"
  | faulty name selector fault =>
    ":" ++ name ++ "() has invalid selector \"" ++ selector ++ "\": " ++ fault.message
  | relative selector => ":has() has invalid relative selector \"" ++ selector ++ "\""
  | faultyOf name selector fault =>
    ":" ++ name ++ "() has invalid \"of\" selector \"" ++ selector ++ "\": " ++ fault.message
  | position name text =>
    ":" ++ name ++ "() has invalid pattern \"" ++ text ++ "\". " ++
      "Expected \"odd\", \"even\", a number, or an+b notation like \"2n+1\""

/-- The names of pseudo-elements that a list of selectors must not hold. -/
def pseudoElementNames : List (List Char) :=
  ["before", "after", "first-line", "first-letter", "marker", "backdrop", "placeholder",
    "file-selector-button"].map String.toList

/-- A pseudo-element, after one colon or two. -/
def pseudoElementExtent : List Char → Nat
  | ':' :: cs =>
    let name := match cs with
      | ':' :: ds => ds
      | ds => ds
    if pseudoElementNames.any (startsWith · name) then 1 else 0
  | _ => 0

/-- The first problem of the arguments of `:is()`, `:where()` or `:not()`. -/
def listProblem? (name : String) (arguments : List Char) : Option Problem :=
  match commaParts arguments with
  | [] => some (.noSelector name)
  | parts => parts.findSome? fun part =>
    if occurs pseudoElementExtent part then some (.pseudoElement name (String.ofList part))
    else (selectorFault? part).map (.faulty name (String.ofList part))

/-- How a relative selector may begin: a combinator and blanks, then a sign that opens a simple
selector. -/
def startsRelative (cs : List Char) : Bool :=
  let rest := match cs with
    | c :: ds => if isCombinator c then ds else cs
    | [] => []
  (trimStart rest).head?.any fun c =>
    c == '.' || c == '#' || c == '[' || isWord c || c == '*' || c == ':'

/-- A relative selector without the combinator in front. -/
def dropCombinator : List Char → List Char
  | [] => []
  | c :: cs => if isCombinator c then trimStart cs else c :: cs

/-- The first problem of the arguments of `:has()`. -/
def relativeProblem? (arguments : List Char) : Option Problem :=
  match commaParts arguments with
  | [] => some (.noSelector "has")
  | parts => parts.findSome? fun part =>
    if startsRelative part then
      (selectorFault? (dropCombinator part)).map (.faulty "has" (String.ofList part))
    else some (.relative (String.ofList part))

/-! ## Positions -/

/-- Splits `S of T` at the first `of` between blanks that leaves something in front of it and, on
one line, something behind it. `front` is what was passed over, backwards. -/
def splitOf (front : List Char) : List Char → Option (List Char × List Char)
  | [] => none
  | c :: cs =>
    let word := (c :: cs).dropWhile isBlank
    let behind := word.drop 2
    let rest := behind.dropWhile isBlank
    if isBlank c && !front.isEmpty && (word.take 2).map asciiLower == ['o', 'f'] &&
        behind.head?.any isBlank && !rest.isEmpty && !rest.contains '\n' then
      some (front.reverse, rest)
    else if c = '\n' then none
    else splitOf (c :: front) cs

/-- An integer with an optional minus sign. -/
def isInteger (cs : List Char) : Bool :=
  let ds := match cs with
    | '-' :: ds => ds
    | ds => ds
  !ds.isEmpty && ds.all isDecimal

/-- The text after an optional sign. -/
def dropSign : List Char → List Char
  | [] => []
  | c :: cs => if c = '+' || c = '-' then cs else c :: cs

/-- Nothing, or blanks and an offset: an optional sign, blanks and digits. -/
def isOffset (cs : List Char) : Bool :=
  let offset := trimStart cs
  let digits := trimStart (dropSign offset)
  offset.isEmpty || (!digits.isEmpty && digits.all isDecimal)

/-- The text after a term in `n`: an optional sign, digits and the letter. -/
def dropStepTerm? (cs : List Char) : Option (List Char) :=
  match (dropSign cs).dropWhile isDecimal with
  | c :: rest => if c = 'n' || c = 'N' then some rest else none
  | [] => none

/-- A position: an optional term in `n` and an optional offset. -/
def isStepPattern (cs : List Char) : Bool :=
  match dropStepTerm? cs with
  | some rest => isOffset rest
  | none => isOffset cs

/-- The first problem of the arguments of one of the `:nth-*()` family. -/
def positionProblem? (name : String) (arguments : List Char) : Option Problem :=
  let cs := trim arguments
  let (position, selector) := match splitOf [] cs with
    | some (p, s) => (trim p, some (trim s))
    | none => (cs, none)
  let fault := selector.bind fun s =>
    (selectorFault? s).map (Problem.faultyOf name (String.ofList s))
  fault.or <|
    let small := position.map asciiLower
    if small = "odd".toList || small = "even".toList || isInteger position ||
        isStepPattern position then none
    else some (.position name (String.ofList position))

/-! ## Pseudo-classes -/

/-- The characters of the name of a functional pseudo-class. -/
def isNameLetter (c : Char) : Bool :=
  isAsciiLetter (foldChar c) || c == '-'

/-- A functional pseudo-class as its name and its arguments. -/
def functional? (cs : List Char) : Option (List Char × List Char) :=
  let name := cs.takeWhile isNameLetter
  match cs.dropWhile isNameLetter with
  | '(' :: rest =>
    if !name.isEmpty && rest.getLast? = some ')' then some (name, rest.dropLast) else none
  | _ => none

/-- What is wrong with a pseudo-class, if anything. -/
def problem? (value : String) : Option Problem :=
  match functional? (trim value.toList) with
  | none => none
  | some (name, arguments) =>
    let name := String.ofList (name.map asciiLower)
    if name ∈ ["is", "where", "not"] then listProblem? name arguments
    else if name = "has" then relativeProblem? arguments
    else if name ∈ ["nth-child", "nth-last-child", "nth-of-type", "nth-last-of-type"] then
      positionProblem? name arguments
    else none

end StyleLedger.Pseudo
