import StyleLedger.Text.Search
import StyleLedger.Text.LetterCase
import StyleLedger.Json.Value

/-!
Values of properties and tokens: their normal form, the references to tokens in them, and the
spacing macro.

* A value is kept without the blanks around it and without trailing semicolons.
* `token('name')` in a value stands for the custom property of the token.
* `BUTTER()` in a value stands for the size of the spacing mode in force.
-/

namespace StyleLedger.Value

open Text

/-! ## Normal forms -/

/-- A value without blanks around it and without semicolons at its end. -/
def normalize (raw : String) : String :=
  String.ofList (trim (dropEndWhile (· == ';') (trim raw.toList)))

/-- A property name as it is kept: with underscores. -/
def canonicalName (name : String) : String := replaceChar '-' '_' name

/-- A property name as a style sheet writes it: with hyphens. -/
def cssName (name : String) : String := replaceChar '_' '-' name

/-! ## Token references -/

/-- The custom property of a token: characters that a name cannot hold become hyphens. -/
def tokenVariable (tokenPrefix name : String) : String :=
  "--" ++ tokenPrefix ++ String.ofList (name.toList.map fun c => if isNameChar c then c else '-')

/-- The end of a reference: the quote, blanks and the bracket; zero when they do not come. -/
def closingExtent (quote : Char) (cs : List Char) : Nat :=
  let blanks := ((cs.drop 1).takeWhile isBlank).length
  if cs.head? == some quote && (cs.drop (1 + blanks)).head? == some ')' then 2 + blanks else 0

/-- The length of the shortest name that is followed by the end of a reference. It has at least one
character and no line feed. -/
def nameExtent? (quote : Char) : List Char → Option Nat
  | [] => none
  | c :: cs =>
    if c = '\n' then none
    else if closingExtent quote cs ≠ 0 then some 1
    else (nameExtent? quote cs).map (· + 1)

/-- The reference at the front of a text: the token's name and the length of the whole. -/
def reference? (cs : List Char) : Option (List Char × Nat) :=
  let opening := "token(".toList
  if !startsWith opening cs then none
  else
    let rest := cs.drop opening.length
    let blanks := (rest.takeWhile isBlank).length
    match rest.drop blanks with
    | quote :: body =>
      if quote = '\'' || quote = '"' then
        (nameExtent? quote body).map fun n =>
          (body.take n, opening.length + blanks + 1 + n + closingExtent quote (body.drop n))
      else none
    | [] => none

/-- The length of the reference at the front of a text. -/
def referenceExtent (cs : List Char) : Nat :=
  ((reference? cs).map (·.2)).getD 0

/-- The name in a reference. -/
def referencedName (piece : List Char) : String :=
  String.ofList (((reference? piece).map (·.1)).getD [])

/-- The names of the tokens a value refers to, in order. -/
def references (value : String) : List String :=
  (pieces referenceExtent value.toList).map referencedName

/-- A value with every reference replaced by the token's custom property. -/
def substituteTokens (tokenPrefix value : String) : String :=
  String.ofList <| replaceAll referenceExtent
    (fun piece => ("var(" ++ tokenVariable tokenPrefix (referencedName piece) ++ ")").toList)
    value.toList

/-! ## The spacing macro -/

/-- The sizes of the spacing modes. -/
def spacingSizes : List (String × String) :=
  [("thin_spread", "4px"), ("medium_spread", "12px"), ("thick_smear", "24px")]

/-- The size of a spacing mode; a mode that is not known, or none, has the common size. -/
def spacingSize (mode : Json) : String :=
  (spacingSizes.lookup (lower (mode.orElse (.text "")).shown)).getD "8px"

/-- The spacing macro at the front of a text. -/
def macroExtent (cs : List Char) : Nat :=
  let name := "butter(".toList
  let blanks := ((cs.drop name.length).takeWhile isBlank).length
  if (cs.take name.length).map asciiLower == name &&
      (cs.drop (name.length + blanks)).head? == some ')' then name.length + blanks + 1
  else 0

/-- A value with every spacing macro replaced by the size of a mode. -/
def expandSpacing (mode : Json) (value : String) : String :=
  String.ofList (replaceAll macroExtent (fun _ => (spacingSize mode).toList) value.toList)

end StyleLedger.Value
