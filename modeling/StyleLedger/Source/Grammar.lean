import StyleLedger.Source.Lexeme

/-!
The grammar of the statement language, as data, and the stack machine that follows it.

Every production begins with a terminal, so a goal is opened by exactly the first terminals of its
productions; a goal may also be optional. A *stack* is the list of symbols still to come. Because
several statements begin alike, the machine keeps all stacks that fit the tokens read so far, and a
token is admitted when one of them can go on with it (`accepts`).

The order of the symbols is all there is to see here. Which part of a statement a token stands for
is read off afterwards, from the list of tokens.
-/

namespace StyleLedger.Source

/-- The parts of the grammar. -/
inductive Goal
  /-- Any number of statements. -/
  | program
  /-- The semicolon that a few statements may go without. -/
  | closing
  /-- A selector definition. -/
  | definition
  /-- The way in which a join combines its two sides. -/
  | joinKind
  /-- What follows the opening bracket of a selector function. -/
  | arguments
  /-- One argument of a selector function. -/
  | argument
  /-- What follows an argument. -/
  | moreArguments
  /-- A list of declarations. -/
  | declarations
  /-- What follows a declaration in a list. -/
  | moreDeclarations
  /-- A bracketed list of declarations, possibly empty. -/
  | block
  /-- What follows the bracket that opens a block. -/
  | blockRest
  /-- The scope of a style. -/
  | scope
  /-- The lower end of a scope. -/
  | scopeLimit
  /-- A condition clause. -/
  | condition
  /-- What follows a part of a condition. -/
  | moreConditions
  /-- The optional clause that introduces a condition. -/
  | conditionClause
  /-- The optional condition after the selector of a filter. -/
  | filterCondition
  /-- What is asked of the width. -/
  | widthTest
  /-- What is asked of a container. -/
  | containerTest
  /-- The optional property of a deletion. -/
  | propertyFilter
  /-- Whether properties are added or set. -/
  | action
  /-- A property name, quoted or bare. -/
  | propertyName
  /-- Further layer names. -/
  | moreNames
  /-- The optional media query of an import. -/
  | mediaClause
  /-- One keyframe. -/
  | frame
  /-- Further keyframes. -/
  | moreFrames
  /-- The optional pseudo-class of a page. -/
  | pageName
deriving Repr, DecidableEq, Inhabited

/-- A terminal or a part of the grammar. -/
inductive Symbol
  | terminal (t : Terminal)
  | goal (g : Goal)
deriving Repr, DecidableEq, Inhabited

/-- One way to open a goal: its first terminal and what comes after it. -/
structure Production where
  head : Terminal
  tail : List Symbol
deriving Repr, DecidableEq, Inhabited

namespace Production

/-- A reserved word as a symbol. -/
def w (k : Keyword) : Symbol := .terminal (.word k)

/-- A punctuation mark as a symbol. -/
def m (c : Char) : Symbol := .terminal (.mark c)

/-- An identifier as a symbol. -/
def ident : Symbol := .terminal .ident

/-- A quoted text as a symbol. -/
def quoted : Symbol := .terminal .quoted

/-- A value as a symbol. -/
def value : Symbol := .terminal .value

/-- The production with something more after it. -/
def andThen (p : Production) (more : List Symbol) : Production :=
  { p with tail := p.tail ++ more }

/-- The statements that create something. -/
def creations : List Production := [
  ⟨.word .create, [w .token, quoted, w .value, value, m ';']⟩,
  ⟨.word .create, [w .selector, ident, w .asWord, .goal .definition, m ';']⟩,
  ⟨.word .create, [w .style, w .selector, ident, .goal .scope, .goal .block,
    .goal .conditionClause, m ';']⟩,
  ⟨.word .create, [w .layers, m '(', ident, .goal .moreNames, m ')', m ';']⟩,
  ⟨.word .create, [w .fontFace, w .family, quoted, .goal .block, m ';']⟩,
  ⟨.word .create, [w .keyframes, ident, m '(', .goal .frame, .goal .moreFrames, m ')', m ';']⟩,
  ⟨.word .create, [w .property, quoted, .goal .block, m ';']⟩,
  ⟨.word .create, [w .page, .goal .pageName, .goal .block, m ';']⟩,
  ⟨.word .create, [w .counterStyle, ident, .goal .block, m ';']⟩,
  ⟨.word .create, [w .fontFeatureValues, quoted, .goal .block, m ';']⟩,
  ⟨.word .create, [w .fontPaletteValues, quoted, .goal .block, m ';']⟩,
  ⟨.word .create, [w .startingStyle, w .selector, ident, .goal .block, m ';']⟩]

/-- The statements that drop something. -/
def removals : List Production := [
  ⟨.word .drop, [w .token, quoted, m ';']⟩,
  ⟨.word .drop, [w .selector, ident, m ';']⟩,
  ⟨.word .drop, [w .style, w .selector, ident, m ';']⟩,
  ⟨.word .drop, [w .fontFace, w .family, quoted, m ';']⟩,
  ⟨.word .drop, [w .keyframes, ident, m ';']⟩,
  ⟨.word .drop, [w .property, quoted, m ';']⟩,
  ⟨.word .drop, [w .page, .goal .pageName, m ';']⟩,
  ⟨.word .drop, [w .counterStyle, ident, m ';']⟩,
  ⟨.word .drop, [w .fontFeatureValues, quoted, m ';']⟩,
  ⟨.word .drop, [w .fontPaletteValues, quoted, m ';']⟩,
  ⟨.word .drop, [w .startingStyle, w .selector, ident, m ';']⟩]

/-- The statements on the tables of tokens and of style properties. -/
def edits : List Production := [
  ⟨.word .delete, [w .fromWord, w .tokens, w .whereWord, w .name, m '=', quoted, m ';']⟩,
  ⟨.word .delete, [w .fromWord, w .styleProps, w .whereWord, w .selector, m '=', ident,
    .goal .propertyFilter, m ';']⟩,
  ⟨.word .insert, [w .into, w .tokens, m '(', w .name, m ',', w .value, m ')', w .values, m '(',
    quoted, m ',', value, m ')', m ';']⟩,
  ⟨.word .insert, [w .into, w .styleProps, m '(', w .selector, m ',', w .prop, m ',', w .value,
    m ')', w .values, m '(', ident, m ',', .goal .propertyName, m ',', value, m ')', m ';']⟩,
  ⟨.word .update, [w .tokens, w .setWord, w .value, m '=', value, w .whereWord, w .name, m '=',
    quoted, m ';']⟩,
  ⟨.word .update, [w .styleProps, w .setWord, .goal .declarations, w .whereWord, w .selector,
    m '=', ident, .goal .filterCondition, m ';']⟩,
  ⟨.word .alter, [w .style, w .selector, ident, .goal .scope, .goal .conditionClause,
    .goal .action, .goal .declarations, m ';']⟩]

/-- The statements on the reader's own settings, imports, queries and transactions. -/
def directives : List Production := [
  ⟨.word .setWord, [w .layer, m '=', ident, m ';']⟩,
  ⟨.word .setWord, [w .butter, m '=', quoted, m ';']⟩,
  ⟨.word .raw, [quoted, .goal .closing]⟩,
  ⟨.word .importWord, [w .css, quoted, .goal .mediaClause, m ';']⟩,
  ⟨.word .importWord, [w .sql, quoted, m ';']⟩,
  ⟨.word .importWord, [quoted, m ';']⟩,
  ⟨.word .select, [w .styleProps, w .whereWord, w .selector, m '=', ident, .goal .filterCondition,
    .goal .closing]⟩,
  ⟨.word .describe, [w .selector, ident, .goal .closing]⟩,
  ⟨.word .begin, [m ';']⟩,
  ⟨.word .commit, [m ';']⟩,
  ⟨.word .rollback, [m ';']⟩]

/-- Every statement. -/
def statements : List Production :=
  creations ++ removals ++ edits ++ directives

/-- The forms of a selector definition. -/
def definitions : List Production := [
  ⟨.function, [.goal .arguments]⟩,
  ⟨.word .join, [.goal .joinKind, .goal .definition, w .onWord, .goal .definition]⟩,
  ⟨.ident, []⟩]

/-- The forms of an argument of a selector function. -/
def argumentForms : List Production :=
  ⟨.quoted, []⟩ :: definitions

/-- The forms of one part of a condition. -/
def conditionForms : List Production := [
  ⟨.mark '(', [.goal .condition, m ')']⟩,
  ⟨.word .width, [.goal .widthTest]⟩,
  ⟨.ident, [m '=', value]⟩,
  ⟨.word .container, [ident, .goal .containerTest]⟩,
  ⟨.word .supports, [.terminal .group]⟩]

/-- The forms of one keyframe. -/
def frameForms : List Production :=
  [.quoted, .percentage, .word .fromWord, .word .toWord].map fun t => ⟨t, [.goal .block]⟩

end Production

namespace Goal

open Production

/-- The ways to open a goal. -/
def productions : Goal → List Production
  | program => statements.map (·.andThen [.goal program])
  | closing => [⟨.mark ';', []⟩]
  | definition => definitions
  | joinKind => [.and, .desc, .child, .adj, .sib].map fun k => ⟨.word k, []⟩
  | arguments => ⟨.mark ')', []⟩ :: argumentForms.map (·.andThen [.goal moreArguments])
  | argument => argumentForms
  | moreArguments => [⟨.mark ')', []⟩, ⟨.mark ',', [.goal argument, .goal moreArguments]⟩]
  | declarations => [⟨.ident, [m '=', value, .goal moreDeclarations]⟩]
  | moreDeclarations => [⟨.mark ',', [.goal declarations]⟩]
  | block => [⟨.mark '(', [.goal blockRest]⟩]
  | blockRest => [⟨.mark ')', []⟩, ⟨.ident, [m '=', value, .goal moreDeclarations, m ')']⟩]
  | scope => [⟨.word .scopedWord, [w .toWord, Production.ident, .goal scopeLimit]⟩]
  | scopeLimit => [⟨.word .limit, [Production.ident]⟩]
  | condition => conditionForms.map (·.andThen [.goal moreConditions])
  | moreConditions => [⟨.word .and, [.goal condition]⟩, ⟨.word .or, [.goal condition]⟩]
  | conditionClause => [⟨.word .whereWord, [.goal condition]⟩]
  | filterCondition => [⟨.word .and, [.goal condition]⟩]
  | widthTest => [⟨.word .between, [value, w .and, value]⟩, ⟨.comparison, [value]⟩]
  | containerTest =>
    [⟨.word .inline, [.terminal .comparison, value]⟩, ⟨.comparison, [value]⟩,
     ⟨.word .style, [.terminal .group]⟩]
  | propertyFilter => [⟨.word .and, [w .prop, m '=', .goal propertyName]⟩]
  | action => [⟨.word .add, []⟩, ⟨.word .setWord, []⟩]
  | propertyName => [⟨.quoted, []⟩, ⟨.ident, []⟩]
  | moreNames => [⟨.mark ',', [Production.ident, .goal moreNames]⟩]
  | mediaClause => [⟨.word .media, [.terminal .media]⟩]
  | frame => frameForms
  | moreFrames => [⟨.mark ',', [.goal frame, .goal moreFrames]⟩]
  | pageName => [⟨.quoted, []⟩]

/-- Whether a goal may be left out. -/
def optional : Goal → Bool
  | program | closing | moreDeclarations | scope | scopeLimit | moreConditions | conditionClause
  | filterCondition | propertyFilter | moreNames | mediaClause | moreFrames | pageName => true
  | _ => false

end Goal

/-! ## The stack machine -/

/-- The symbols still to come. -/
abbrev Stack := List Symbol

namespace Stack

/-- The terminals a stack can go on with. -/
def firsts : Stack → List Terminal
  | [] => []
  | .terminal t :: _ => [t]
  | .goal g :: rest => g.productions.map (·.head) ++ if g.optional then firsts rest else []

/-- The stacks that one stack turns into when a token of the given kind is read. -/
def step (t : Terminal) : Stack → List Stack
  | [] => []
  | .terminal s :: rest => if s = t then [rest] else []
  | .goal g :: rest =>
    (g.productions.filter (·.head = t)).map (·.tail ++ rest) ++
      if g.optional then step t rest else []

/-- Whether nothing more is needed. -/
def finished : Stack → Bool
  | [] => true
  | .terminal _ :: _ => false
  | .goal g :: rest => g.optional && finished rest

end Stack

/-- The terminals that may come next. -/
def accepts (machine : List Stack) : List Terminal :=
  machine.flatMap Stack.firsts

/-- The stacks after one more token. -/
def shift (t : Terminal) (machine : List Stack) : List Stack :=
  machine.flatMap (Stack.step t)

/-- The stacks at the beginning of a source text. -/
def start : List Stack :=
  [[.goal .program]]

end StyleLedger.Source
