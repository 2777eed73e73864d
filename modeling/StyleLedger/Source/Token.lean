import StyleLedger.Source.Position
import StyleLedger.Source.Grammar

/-!
Tokens, and the cutting of a source text into them.

The text is cut from left to right. At each point the grammar says which kinds of tokens may come
(`accepts`), the first lexeme that fits is taken, ignored text is passed over, and the grammar goes
on with the kind of the token.

A text is refused at the point where no lexeme fits. A text that ends too early is refused at the
beginning of its last token.
-/

namespace StyleLedger.Source

/-- A token: its kind, its characters, of which there is at least one, and where it begins. -/
structure Token where
  kind : Terminal
  text : String
  position : Position
  nonempty : text ≠ ""
deriving Repr, DecidableEq

/-- Cuts a text into tokens. `last` is where the last token began, `here` where the next one may,
and `skip` counts the characters before that which are still to be passed over. -/
def scan (machine : List Stack) (last here : Position) (skip : Nat) :
    List Char → Except Position (List Token)
  | [] => if machine.any Stack.finished then .ok [] else .error last
  | c :: cs =>
    match skip with
    | n + 1 => scan machine last here n cs
    | 0 =>
      match Lexeme.first? (accepts machine) (c :: cs) with
      | none | some (_, 0) => .error here
      | some (lexeme, n + 1) =>
        let text := (c :: cs).take (n + 1)
        match lexeme with
        | .token t =>
          match scan (shift t machine) here (here.advance text) n cs with
          | .ok tokens => .ok (⟨t, String.ofList text, here, by simp [text]⟩ :: tokens)
          | .error p => .error p
        | _ => scan machine last (here.advance text) n cs

/-- The tokens of a source text, or the place where it stops making sense. -/
def tokenize (source : String) : Except Position (List Token) :=
  scan start {} {} 0 source.toList

/-- The number of semicolons among the tokens. -/
def semicolons (tokens : List Token) : Nat :=
  tokens.countP (·.kind = .mark ';')

end StyleLedger.Source
