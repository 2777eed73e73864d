import StyleLedger.Text.LetterCase

/-!
The reserved words of the statement language and their spelling.
-/

namespace StyleLedger.Source

/-- The reserved words. -/
inductive Keyword
  | add | adj | alter | and | asWord | begin | between | butter | child | commit | container
  | counterStyle | create | css | delete | desc | describe | drop | family | fontFace
  | fontFeatureValues | fontPaletteValues | fromWord | importWord | inline | insert | into | join
  | keyframes | layer | layers | limit | media | name | onWord | or | page | prop | property | raw
  | rollback | scopedWord | select | selector | setWord | sib | sql | startingStyle | style
  | styleProps | supports | toWord | token | tokens | update | value | values | whereWord | width
deriving Repr, DecidableEq, Inhabited

namespace Keyword

/-- The spelling in capitals. -/
def spelling : Keyword → String
  | add => "ADD"
  | adj => "ADJ"
  | alter => "ALTER"
  | and => "AND"
  | asWord => "AS"
  | begin => "BEGIN"
  | between => "BETWEEN"
  | butter => "BUTTER"
  | child => "CHILD"
  | commit => "COMMIT"
  | container => "CONTAINER"
  | counterStyle => "COUNTER_STYLE"
  | create => "CREATE"
  | css => "CSS"
  | delete => "DELETE"
  | desc => "DESC"
  | describe => "DESCRIBE"
  | drop => "DROP"
  | family => "FAMILY"
  | fontFace => "FONT_FACE"
  | fontFeatureValues => "FONT_FEATURE_VALUES"
  | fontPaletteValues => "FONT_PALETTE_VALUES"
  | fromWord => "FROM"
  | importWord => "IMPORT"
  | inline => "INLINE"
  | insert => "INSERT"
  | into => "INTO"
  | join => "JOIN"
  | keyframes => "KEYFRAMES"
  | layer => "LAYER"
  | layers => "LAYERS"
  | limit => "LIMIT"
  | media => "MEDIA"
  | name => "NAME"
  | onWord => "ON"
  | or => "OR"
  | page => "PAGE"
  | prop => "PROP"
  | property => "PROPERTY"
  | raw => "RAW"
  | rollback => "ROLLBACK"
  | scopedWord => "SCOPED"
  | select => "SELECT"
  | selector => "SELECTOR"
  | setWord => "SET"
  | sib => "SIB"
  | sql => "SQL"
  | startingStyle => "STARTING_STYLE"
  | style => "STYLE"
  | styleProps => "STYLE_PROPS"
  | supports => "SUPPORTS"
  | toWord => "TO"
  | token => "TOKEN"
  | tokens => "TOKENS"
  | update => "UPDATE"
  | value => "VALUE"
  | values => "VALUES"
  | whereWord => "WHERE"
  | width => "WIDTH"

/-- Every reserved word, longer ones before shorter ones, so that a word is never taken for a
shorter word it begins with. -/
def byLength : List Keyword :=
  [fontFeatureValues, fontPaletteValues, startingStyle, counterStyle, styleProps, container,
   fontFace, keyframes, describe, property, rollback, selector, supports, between, butter,
   commit, create, delete, family, importWord, inline, insert, layers, scopedWord, select, tokens,
   update, values, alter, begin, child, layer, limit, media, style, token, value, whereWord,
   width, desc, drop, fromWord, into, join, name, page, prop, add, adj, and, css, raw,
   setWord, sib, sql, asWord, onWord, or, toWord]

/-- The number of characters that spell the word at the front of a text, letter case aside; zero
when it is not there. Nothing is asked of the character after it. -/
def spelledAt (k : Keyword) (cs : List Char) : Nat :=
  Text.spelledLength k.spelling.toList cs

/-- Whether a whole lexeme is the word, letter case aside. -/
def isSpelledBy (k : Keyword) (lexeme : List Char) : Bool :=
  lexeme.map Text.foldChar == k.spelling.toList.map Text.foldChar

end Keyword

end StyleLedger.Source
