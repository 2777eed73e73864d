import StyleLedger.Source.Token
import StyleLedger.Source.Term
import StyleLedger.Statement

/-!
Statements, read off a list of tokens.

The tokens are known to follow the grammar, so the readers here only have to tell the statements
apart and to pick the parts that matter. A reader takes tokens from the front of the list; of
several readers the first that succeeds counts.
-/

namespace StyleLedger.Source

/-- A reader: something taken from the front of a list of tokens. -/
abbrev Reading (α : Type) := StateT (List Token) Option α

namespace Reading

variable {α : Type}

/-! ## Parts -/

/-- The next token, if it is of a kind. -/
def take (kind : Terminal) : Reading Token := fun tokens =>
  match tokens with
  | t :: ts => if t.kind = kind then some (t, ts) else none
  | [] => none

/-- A reserved word. -/
def word (k : Keyword) : Reading Unit := do let _ ← take (.word k)

/-- Reserved words in a row. -/
def words (ks : List Keyword) : Reading Unit := ks.forM word

/-- A punctuation mark. -/
def mark (c : Char) : Reading Unit := do let _ ← take (.mark c)

/-- An identifier. -/
def ident : Reading String := do return (← take .ident).text

/-- A value. -/
def value : Reading String := do return (← take .value).text

/-- The characters between the quotes of a quoted text, each after a backslash taken as it is. -/
def unescape : List Char → List Char
  | [] => []
  | [c] => [c]
  | c :: d :: cs => if c = '\\' then d :: unescape cs else c :: unescape (d :: cs)

/-- The text that a quoted text stands for. -/
def unquote (s : String) : String :=
  String.ofList (unescape (s.toList.drop 1).dropLast)

/-- A quoted text. -/
def quoted : Reading String := do return unquote (← take .quoted).text

/-- A quoted text or an identifier. -/
def name : Reading String := quoted <|> ident

/-- The first reader that succeeds. -/
def oneOf (readers : List (Reading α)) : Reading α :=
  readers.foldr (· <|> ·) failure

/-- A reader that may find nothing. -/
def maybe (p : Reading α) : Reading (Option α) :=
  (do return some (← p)) <|> pure none

/-- As many things as there are, at most a given number. -/
def manyWithin (p : Reading α) : Nat → Reading (List α)
  | 0 => pure []
  | n + 1 => (do
      let a ← p
      let as ← manyWithin p n
      return a :: as) <|> pure []

/-- As many things as there are. -/
def many (p : Reading α) : Reading (List α) := fun tokens =>
  manyWithin p tokens.length tokens

/-- One or more things with commas between them. -/
def commaList (p : Reading α) : Reading (List α) := do
  let a ← p
  let as ← many (do mark ','; p)
  return a :: as

/-! ## Declarations -/

/-- A declaration. -/
def declaration : Reading Declaration := do
  let name ← ident
  mark '='
  let value ← value
  return { name, value }

/-- A list of declarations. -/
def declarations : Reading (List Declaration) := commaList declaration

/-- A bracketed list of declarations, possibly empty. -/
def block : Reading (List Declaration) := do
  mark '('
  let ds ← maybe declarations
  mark ')'
  return ds.getD []

/-! ## Selector terms -/

/-- The name of a selector function, in capitals, without its bracket. -/
def functionName (lexeme : String) : String :=
  Text.upper (String.ofList (Text.trimEnd lexeme.toList.dropLast))

/-- The word of a join, in capitals. -/
def joinWord : Reading String := do
  let t ← oneOf ([.and, .desc, .child, .adj, .sib].map fun k => take (.word k))
  return Text.upper t.text

/-- A selector term with at most a given number of functions and joins inside one another. -/
def termWithin : Nat → Reading Term
  | 0 => failure
  | n + 1 =>
    let argument : Reading Term := (do return .text (← quoted)) <|> termWithin n
    oneOf [
      do
        let function ← take .function
        let arguments ← maybe (commaList argument)
        mark ')'
        return .call (functionName function.text) function.position (arguments.getD []),
      do
        word .join
        let how ← joinWord
        let left ← termWithin n
        word .onWord
        let right ← termWithin n
        return .join how left right,
      do return .reference (← ident)]

/-- A selector term. -/
def term : Reading Term := fun tokens => termWithin (tokens.length + 1) tokens

/-! ## Conditions -/

/-- A conjunction with one more part; a conjunction on the left takes the part in. -/
def conjoin (left right : Condition) : Condition :=
  match left with
  | .all parts => .all (parts ++ [right])
  | c => .all [c, right]

/-- A disjunction with one more part; a disjunction on the left takes the part in. -/
def disjoin (left right : Condition) : Condition :=
  match left with
  | .any parts => .any (parts ++ [right])
  | c => .any [c, right]

/-- A comparison: whether it asks for at least the value, and the value. -/
def comparison : Reading (Bool × String) := do
  let sign ← take .comparison
  let v ← value
  return (sign.text.toList.head? = some '>', v)

/-- A bracketed group. -/
def group : Reading String := do return (← take .group).text

/-- What is asked of a container. -/
def containerTest (name : String) : Reading Atom :=
  (do
    word .style
    return .containerStyle (.text name) (.text (← group))) <|>
  (do
    let axis : Json := .textOrNull ((← maybe (word .inline)).map fun _ => "inline")
    let (atLeast, v) ← comparison
    return if atLeast then .container (.text name) (.text v) .null axis
      else .container (.text name) .null (.text v) axis)

/-- One indivisible test. -/
def atom : Reading Atom := oneOf [
  do
    words [.width, .between]
    let lo ← value
    word .and
    let hi ← value
    return .width (.text lo) (.text hi),
  do
    word .width
    let (atLeast, v) ← comparison
    return if atLeast then .width (.text v) .null else .width .null (.text v),
  do
    word .container
    let name ← ident
    containerTest name,
  do
    word .supports
    return .supports (.text (← group)),
  do
    let name ← ident
    mark '='
    return .feature (.text name) (.text (← value))]

/-- A condition with at most a given number of brackets inside one another. A conjunction binds
closer than a disjunction, and both group to the left. -/
def conditionWithin : Nat → Reading Condition
  | 0 => failure
  | n + 1 =>
    let part : Reading Condition :=
      (do return .atom (← atom)) <|>
      (do
        mark '('
        let c ← conditionWithin n
        mark ')'
        return c)
    let conjunction : Reading Condition := do
      let first ← part
      let more ← many (do word .and; part)
      return more.foldl conjoin first
    do
      let first ← conjunction
      let more ← many (do word .or; conjunction)
      return more.foldl disjoin first

/-- A condition. -/
def condition : Reading Condition := fun tokens =>
  conditionWithin (tokens.length + 1) tokens

/-- The clause that introduces a condition. -/
def conditionClause : Reading (Option Condition) :=
  maybe (do word .whereWord; condition)

/-- A filter by selector, with a condition after it. -/
def filter : Reading (String × Option Condition) := do
  words [.whereWord, .selector]
  mark '='
  let selector ← ident
  let condition ← maybe (do word .and; condition)
  return (selector, condition)

/-- A scope: its root and its limit. -/
def scope : Reading (Option String × Option String) := do
  let found ← maybe (do
    words [.scopedWord, .toWord]
    let root ← ident
    let limit ← maybe (do word .limit; ident)
    return (root, limit))
  return match found with
    | some (root, limit) => (some root, limit)
    | none => (none, none)

/-! ## Statements -/

end Reading

/-- A statement whose selector term, if it has one, is not checked yet. -/
inductive Draft
  | ready (s : Statement)
  | selector (name : String) (term : Term)
deriving Repr, Inhabited

/-- The statement of a draft. -/
def Draft.toStatement : Draft → Except ParseError Statement
  | ready s => .ok s
  | selector name term => do return .createSelector name (← term.toSelector)

namespace Reading

/-- The semicolon at the end of a statement. -/
def semicolon : Reading Unit := mark ';'

/-- The semicolon at the end of a statement that may go without. -/
def optionalSemicolon : Reading Unit := do let _ ← maybe semicolon

/-- A statement with its semicolon. -/
def closed (p : Reading Statement) : Reading Draft := do
  let s ← p
  semicolon
  return .ready s

/-- A statement on a selector's style, after the words that open it. -/
def styleName (opening : List Keyword) : Reading String := do
  words opening
  ident

/-- Statements on tokens. -/
def tokenStatements : List (Reading Draft) := [
  closed do
    words [.create, .token]
    let name ← quoted
    word .value
    return .createToken name (← value),
  closed do
    words [.drop, .token]
    return .dropToken (← quoted),
  closed do
    words [.delete, .fromWord, .tokens, .whereWord, .name]
    mark '='
    return .deleteToken (← quoted),
  closed do
    words [.insert, .into, .tokens]
    mark '('
    word .name
    mark ','
    word .value
    mark ')'
    word .values
    mark '('
    let name ← quoted
    mark ','
    let value ← value
    mark ')'
    return .createToken name value,
  closed do
    words [.update, .tokens, .setWord, .value]
    mark '='
    let value ← value
    words [.whereWord, .name]
    mark '='
    return .createToken (← quoted) value]

/-- Statements on selectors. -/
def selectorStatements : List (Reading Draft) := [
  do
    words [.create, .selector]
    let name ← ident
    word .asWord
    let t ← term
    semicolon
    return .selector name t,
  closed do return .dropSelector (← styleName [.drop, .selector])]

/-- Whether properties are added or set. -/
def action : Reading WriteMode :=
  (do word .add; return .add) <|> (do word .setWord; return .set)

/-- Statements on styles. -/
def styleStatements : List (Reading Draft) := [
  closed do
    let selector ← styleName [.create, .style, .selector]
    let (scopeRoot, scopeLimit) ← scope
    let declarations ← block
    let condition ← conditionClause
    return .createStyle { selector, condition, scopeRoot, scopeLimit } declarations,
  closed do
    let selector ← styleName [.alter, .style, .selector]
    let (scopeRoot, scopeLimit) ← scope
    let condition ← conditionClause
    let mode ← action
    let declarations ← declarations
    return .alterStyle { selector, condition, scopeRoot, scopeLimit } mode declarations,
  closed do
    words [.delete, .fromWord, .styleProps, .whereWord, .selector]
    mark '='
    let selector ← ident
    let property ← maybe (do
      words [.and, .prop]
      mark '='
      name)
    return .deleteStyle selector property,
  closed do return .dropStyle (← styleName [.drop, .style, .selector]),
  closed do
    words [.insert, .into, .styleProps]
    mark '('
    word .selector
    mark ','
    word .prop
    mark ','
    word .value
    mark ')'
    word .values
    mark '('
    let selector ← ident
    mark ','
    let name ← name
    mark ','
    let value ← value
    mark ')'
    return .alterStyle { selector } .set [{ name, value }],
  closed do
    words [.update, .styleProps, .setWord]
    let declarations ← declarations
    let (selector, condition) ← filter
    return .alterStyle { selector, condition } .set declarations]

/-- Statements on the reader's own settings, on imports, and raw text. -/
def settingStatements : List (Reading Draft) := [
  closed do
    words [.create, .layers]
    mark '('
    let names ← commaList ident
    mark ')'
    return .createLayers names,
  closed do
    words [.setWord, .layer]
    mark '='
    return .setLayer (← ident),
  closed do
    words [.setWord, .butter]
    mark '='
    return .setSpacing (← quoted),
  do
    word .raw
    let css ← quoted
    optionalSemicolon
    return .ready (.raw css),
  closed do
    words [.importWord, .css]
    let path ← quoted
    let media ← maybe (do word .media; take .media)
    return .imports .css path (media.bind fun t => Text.nonEmpty? (Text.trimmed t.text)),
  closed do
    word .importWord
    let _ ← maybe (word .sql)
    return .imports .sql (← quoted) none]

/-- One keyframe. -/
def frame : Reading Keyframe := do
  let offset ← oneOf [
    quoted,
    do return (← take .percentage).text,
    do word .fromWord; return "from",
    do word .toWord; return "to"]
  let declarations ← block
  return { offset, declarations }

/-- Statements that create an at-rule. -/
def ruleCreations : List (Reading Draft) := [
  closed do
    words [.create, .fontFace, .family]
    return .createFontFace (← quoted) (← block),
  closed do
    words [.create, .keyframes]
    let name ← ident
    mark '('
    let frames ← commaList frame
    mark ')'
    return .createKeyframes name frames,
  closed do
    words [.create, .property]
    return .createProperty (← quoted) (← block),
  closed do
    words [.create, .page]
    let pseudo ← maybe quoted
    return .createPage (← block) pseudo,
  closed do
    words [.create, .counterStyle]
    return .createCounterStyle (← ident) (← block),
  closed do
    words [.create, .fontFeatureValues]
    return .createFontFeatureValues (← quoted) (← block),
  closed do
    words [.create, .fontPaletteValues]
    return .createFontPaletteValues (← quoted) (← block),
  closed do
    let selector ← styleName [.create, .startingStyle, .selector]
    return .createStartingStyle selector (← block)]

/-- Statements that drop an at-rule. -/
def ruleRemovals : List (Reading Draft) := [
  closed do
    words [.drop, .fontFace, .family]
    return .dropFontFace (← quoted),
  closed do return .dropKeyframes (← styleName [.drop, .keyframes]),
  closed do
    words [.drop, .property]
    return .dropProperty (← quoted),
  closed do
    words [.drop, .page]
    return .dropPage (← maybe quoted),
  closed do return .dropCounterStyle (← styleName [.drop, .counterStyle]),
  closed do
    words [.drop, .fontFeatureValues]
    return .dropFontFeatureValues (← quoted),
  closed do
    words [.drop, .fontPaletteValues]
    return .dropFontPaletteValues (← quoted),
  closed do return .dropStartingStyle (← styleName [.drop, .startingStyle, .selector])]

/-- Queries and the marks of transactions. -/
def queryStatements : List (Reading Draft) := [
  do
    words [.select, .styleProps]
    let (selector, condition) ← filter
    optionalSemicolon
    return .ready (.selectStyles selector condition),
  do
    let name ← styleName [.describe, .selector]
    optionalSemicolon
    return .ready (.describeSelector name),
  closed do
    word .begin
    return .begin,
  closed do
    word .commit
    return .commit,
  closed do
    word .rollback
    return .rollback]

/-- One statement. -/
def statement : Reading Draft :=
  oneOf (tokenStatements ++ selectorStatements ++ styleStatements ++ settingStatements ++
    ruleCreations ++ ruleRemovals ++ queryStatements)

/-- All statements of a list of tokens; nothing may be left over. -/
def program (tokens : List Token) : Option (List Draft) :=
  match many statement tokens with
  | some (drafts, []) => some drafts
  | _ => none

end Reading

end StyleLedger.Source
