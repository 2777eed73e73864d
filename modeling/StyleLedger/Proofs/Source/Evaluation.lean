import StyleLedger.Source.Parse
import StyleLedger.Proofs.Source.Front

/-!
Reading a given text by evaluation.

`parse` says what a text means and is slow to evaluate: at every token each reserved word is held
against everything that the grammar admits, and the characters are decoded from the bytes of the
text. `quickParse` takes the characters as they are and asks for the initial of a reserved word
before anything else. Both read every text alike, so a text that is written out is read by
rewriting with `parse_ofList` first, and one that is found in a file by rewriting with `parse_eq`.
-/

namespace StyleLedger.Source

open Text

/-- The small form of the letter that a reserved word begins with. -/
def Keyword.initial : Keyword → Char
  | add | adj | alter | and | asWord => 'a'
  | begin | between | butter => 'b'
  | child | commit | container | counterStyle | create | css => 'c'
  | delete | desc | describe | drop => 'd'
  | family | fontFace | fontFeatureValues | fontPaletteValues | fromWord => 'f'
  | importWord | inline | insert | into => 'i'
  | join => 'j'
  | keyframes => 'k'
  | layer | layers | limit => 'l'
  | media => 'm'
  | name => 'n'
  | onWord | or => 'o'
  | page | prop | property => 'p'
  | raw | rollback => 'r'
  | scopedWord | select | selector | setWord | sib | sql | startingStyle | style | styleProps
  | supports => 's'
  | toWord | token | tokens => 't'
  | update => 'u'
  | value | values => 'v'
  | whereWord | width => 'w'

theorem Keyword.head?_spelling (k : Keyword) :
    k.spelling.toList.head?.map foldChar = some k.initial := by
  cases k <;> decide +kernel

namespace Lexeme

/-- Whether a lexeme is worth a closer look where a character stands: a reserved word is if it has
that initial, anything else always. -/
def suits (c : Char) : Lexeme → Bool
  | token (.word k) => k.initial == foldChar c
  | _ => true

theorem suits_of_extent {l : Lexeme} {c : Char} {cs : List Char} (h : l.extent (c :: cs) ≠ 0) :
    l.suits c = true := by
  cases l with
  | separator | lineComment | blockComment => rfl
  | token t =>
    cases t with
    | word k =>
      have hbegins : spelledFrom k.spelling.toList c = true := mayBegin_of_extent h
      rw [spelledFrom, k.head?_spelling, Option.some_beq_some] at hbegins
      exact hbegins
    | _ => rfl

/-- The lexeme at the front of a text and its extent. -/
def quickFirst? (accept : List Terminal) (c : Char) (cs : List Char) : Option (Lexeme × Nat) :=
  (inOrder.find? fun l => l.suits c && (l.admitted accept && l.extent (c :: cs) != 0)).map fun l =>
    (match l with
      | token t => token (promote accept ((c :: cs).take (l.extent (c :: cs))) t)
      | l => l, l.extent (c :: cs))

theorem quickFirst?_eq (accept : List Terminal) (c : Char) (cs : List Char) :
    quickFirst? accept c cs = first? accept (c :: cs) := by
  have htest : ∀ l : Lexeme, (l.suits c && (l.admitted accept && l.extent (c :: cs) != 0)) =
      (l.admitted accept && l.extent (c :: cs) != 0) := by
    intro l
    by_cases hextent : l.extent (c :: cs) = 0
    · simp [hextent]
    · rw [suits_of_extent hextent, Bool.true_and]
  have hchosen : (inOrder.find? fun l =>
      l.suits c && (l.admitted accept && l.extent (c :: cs) != 0)) = chosen accept (c :: cs) :=
    congrArg inOrder.find? (funext htest)
  exact congrArg (Option.map _) hchosen

end Lexeme

theorem ofList_take_succ_ne_empty (c : Char) (cs : List Char) (n : Nat) :
    String.ofList ((c :: cs).take (n + 1)) ≠ "" := by
  simp

/-- What is done with the lexeme that is found where a character stands; `go` cuts the text after
that character. -/
def scanStep (go : List Stack → Position → Position → Nat → Except Position (List Token))
    (machine : List Stack) (last here : Position) (c : Char) (cs : List Char) :
    Option (Lexeme × Nat) → Except Position (List Token)
  | none | some (_, 0) => .error here
  | some (lexeme, n + 1) =>
    let text := (c :: cs).take (n + 1)
    match lexeme with
    | .token t =>
      match go (shift t machine) here (here.advance text) n with
      | .ok tokens => .ok (⟨t, String.ofList text, here, ofList_take_succ_ne_empty c cs n⟩ :: tokens)
      | .error p => .error p
    | _ => go machine last (here.advance text) n

theorem scan_cons (machine : List Stack) (last here : Position) (c : Char) (cs : List Char) :
    scan machine last here 0 (c :: cs) =
      scanStep (fun machine last here skip => scan machine last here skip cs) machine last here c cs
        (Lexeme.first? (accepts machine) (c :: cs)) :=
  rfl

/-- Cuts a text into tokens, as `scan` does. -/
def quickScan (machine : List Stack) (last here : Position) (skip : Nat) :
    List Char → Except Position (List Token)
  | [] => if machine.any Stack.finished then .ok [] else .error last
  | c :: cs =>
    match skip with
    | n + 1 => quickScan machine last here n cs
    | 0 =>
      scanStep (fun machine last here skip => quickScan machine last here skip cs) machine last here
        c cs (Lexeme.quickFirst? (accepts machine) c cs)

theorem quickScan_eq (machine : List Stack) (last here : Position) (skip : Nat) (cs : List Char) :
    quickScan machine last here skip cs = scan machine last here skip cs := by
  induction cs generalizing machine last here skip with
  | nil => rfl
  | cons c cs ih =>
    cases skip with
    | succ n => exact ih machine last here n
    | zero =>
      have hgo : (fun machine last here skip => quickScan machine last here skip cs) =
          fun machine last here skip => scan machine last here skip cs := by
        funext machine last here skip
        exact ih machine last here skip
      rw [scan_cons, ← hgo, ← Lexeme.quickFirst?_eq, quickScan]

/-- The statements of a text that is given by its characters. -/
def quickParse (cs : List Char) (strict : Bool) : Except ParseError (List Statement) := do
  let tokens ← (quickScan start {} {} 0 cs).mapError .unexpected
  let statements ← statementsOf tokens
  if strict then checkSemicolons (semicolons tokens) statements.length
  return statements

theorem tokenize_ofList (cs : List Char) :
    tokenize (String.ofList cs) = quickScan start {} {} 0 cs := by
  rw [tokenize, String.toList_ofList, quickScan_eq]

theorem parse_ofList (cs : List Char) (strict : Bool) :
    parse (String.ofList cs) strict = quickParse cs strict := by
  rw [parse, tokenize_ofList, quickParse]

/-- The same for texts that are not written out. -/
theorem parse_eq : parse = fun source strict => quickParse source.toList strict := by
  funext source strict
  rw [← parse_ofList, String.ofList_toList]

end StyleLedger.Source
