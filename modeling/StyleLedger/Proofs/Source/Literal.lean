import StyleLedger.Proofs.Source.Printed

/-!
Texts that are written between quotes.

Any text can be written as a quoted text: a backslash goes in front of every single quote and every
backslash, and every other character, a line feed included, stands for itself. The scanner takes
such a literal up to its last quote (`first?_literal`), and what is read from it is the text
(`unquote_literal`).

* `parse_attribute`, `parse_fontFace`, `parse_import` — every text is the value of an attribute
  selector, the family of a font face and the path of an import.
-/

namespace StyleLedger.Source

open Reading Text

/-! ## 1. Literals -/

/-- A character between single quotes. -/
def literalChar (c : Char) : List Char :=
  if c = '\'' || c = '\\' then ['\\', c] else [c]

/-- The characters of a literal from the first one on, with the quote at the end. -/
def literalRest (cs : List Char) : List Char :=
  cs.flatMap literalChar ++ ['\'']

/-- A text between single quotes. -/
def literal (v : String) : String :=
  String.ofList ('\'' :: literalRest v.toList)

section Literals

variable {c : Char} {cs rest : List Char}

theorem literalRest_cons (c : Char) (cs : List Char) :
    literalRest (c :: cs) = literalChar c ++ literalRest cs := by
  simp [literalRest]

theorem quotedRest_cons {quote : Char} (hquote : c ≠ quote) (hslash : c ≠ '\\') :
    quotedRest quote (c :: cs) = (quotedRest quote cs).map (· + 1) := by
  cases cs with
  | nil => simp [quotedRest, hquote]
  | cons d cs => simp [quotedRest, hquote, hslash]

theorem unescape_cons (hslash : c ≠ '\\') : unescape (c :: cs) = c :: unescape cs := by
  cases cs with
  | nil => rfl
  | cons d cs => simp [unescape, hslash]

/-- A literal reaches to its last quote. -/
theorem quotedRest_literalRest (cs rest : List Char) :
    quotedRest '\'' (literalRest cs ++ rest) = some (literalRest cs).length := by
  induction cs with
  | nil => cases rest <;> rfl
  | cons c cs ih =>
    rw [literalRest_cons, literalChar]
    split_ifs with hc
    · have hfeed : c ≠ '\n' := by
        rintro rfl
        exact absurd hc (by decide)
      simp [quotedRest, hfeed, ih]
    · obtain ⟨hquote, hslash⟩ : c ≠ '\'' ∧ c ≠ '\\' := by simpa using hc
      simp [quotedRest_cons hquote hslash, ih]

theorem unescape_literal (cs : List Char) : unescape (cs.flatMap literalChar) = cs := by
  induction cs with
  | nil => rfl
  | cons c cs ih =>
    rw [List.flatMap_cons, literalChar]
    split_ifs with hc
    · simp [unescape, ih]
    · obtain ⟨-, hslash⟩ : c ≠ '\'' ∧ c ≠ '\\' := by simpa using hc
      rw [List.singleton_append, unescape_cons hslash, ih]

/-- A literal stands for its text. -/
theorem unquote_literal (v : String) : unquote (literal v) = v := by
  simp [unquote, literal, literalRest, unescape_literal]

theorem literal_ne (v : String) : literal v ≠ "" := by
  simp [literal]

/-- A literal is found wherever it is looked for and a value is not. -/
theorem first?_literal {accept : List Terminal} (hquoted : .quoted ∈ accept)
    (hvalue : .value ∉ accept) (v : String) :
    Lexeme.first? accept ((literal v).toList ++ rest) =
      some (.token .quoted, (literal v).toList.length) := by
  have hlength : Lexeme.extent (.token .quoted) ((literal v).toList ++ rest) =
      (literal v).toList.length := by
    simp [Lexeme.extent, Terminal.extent, literal, quotedExtent, quotedRest_literalRest]
  have hchosen : Lexeme.chosen accept ((literal v).toList ++ rest) = some (.token .quoted) := by
    refine List.find?_eq_some_iff_append.2 ⟨?_, Lexeme.inOrder.take 3, Lexeme.inOrder.drop 4, rfl,
      fun l hl => ?_⟩
    · rw [Bool.and_eq_true, bne_iff_ne]
      exact ⟨by simpa [Lexeme.admitted] using hquoted, hlength.trans_ne (by simp [literal])⟩
    · have hall : ∀ l ∈ Lexeme.inOrder.take 3, l = .token .value ∨ l.mayBegin '\'' = false := by
        decide
      rcases hall l hl with rfl | hbegin
      · simp [Lexeme.admitted, hvalue]
      · have hzero : l.extent ('\'' :: (literalRest v.toList ++ rest)) = 0 := by
          by_contra hne
          simp [Lexeme.mayBegin_of_extent hne] at hbegin
        simp [literal, hzero]
  rw [Lexeme.first?_eq, hchosen, Option.map_some, hlength]
  rfl

end Literals

/-! ## 2. Statements with a literal -/

/-- A text of one statement is read as that statement. -/
theorem parse_of_cuts {source : String} {strict : Bool} {ts : List Token} {d : Draft}
    {s : Statement} (hcuts : Cuts start source.toList ts) (hread : statement ts = some (d, []))
    (hs : d.toStatement = .ok s) (hcount : 1 ≤ semicolons ts) : parse source strict = .ok [s] := by
  obtain ⟨us, hus, hsame⟩ := hcuts.exists_scan {} {}
  refine parse_eq_ok.2 ⟨us, hus, statementsOf_unplaced ?_ hsame, fun _ => ?_⟩
  · exact statementsOf_eq_ok.2 ⟨[d], .cons hread .nil, .cons hs .nil⟩
  · rw [← semicolons_map_unplaced us, hsame, semicolons_map_unplaced]
    exact hcount

/-- A literal as a token. -/
def saidLiteral (v : String) : Token :=
  said .quoted (literal v) (literal_ne v)

variable (v : String) (strict : Bool)

theorem parse_import : parse ("IMPORT CSS " ++ literal v ++ ";") strict =
    .ok [.imports .css v none] := by
  have htext : ("IMPORT CSS " ++ literal v ++ ";").toList = "IMPORT".toList ++ ' ' ::
      ("CSS".toList ++ ' ' :: ((literal v).toList ++ (";".toList ++ []))) := by
    simp
  have hcuts : Cuts start ("IMPORT CSS " ++ literal v ++ ";").toList
      [said (.word .importWord) "IMPORT" (by decide), said (.word .css) "CSS" (by decide),
        saidLiteral v, said (.mark ';') ";" (by decide)] := by
    rw [htext]
    refine cuts_said _ rfl ((cuts_separator rfl).2 (cuts_said _ rfl ((cuts_separator rfl).2 ?_)))
    exact cuts_said _ (first?_literal (by decide) (by decide) v) (cuts_said _ rfl (.done rfl))
  refine parse_of_cuts hcuts (d := .ready (.imports .css (unquote (literal v)) none)) rfl ?_
    (Nat.le_refl 1)
  rw [unquote_literal]
  rfl

theorem parse_fontFace : parse ("CREATE FONT_FACE FAMILY " ++ literal v ++ " ();") strict =
    .ok [.createFontFace v []] := by
  have htext : ("CREATE FONT_FACE FAMILY " ++ literal v ++ " ();").toList = "CREATE".toList ++ ' ' ::
      ("FONT_FACE".toList ++ ' ' :: ("FAMILY".toList ++ ' ' :: ((literal v).toList ++ ' ' ::
        ("(".toList ++ (")".toList ++ (";".toList ++ [])))))) := by
    simp
  have hcuts : Cuts start ("CREATE FONT_FACE FAMILY " ++ literal v ++ " ();").toList
      [said (.word .create) "CREATE" (by decide), said (.word .fontFace) "FONT_FACE" (by decide),
        said (.word .family) "FAMILY" (by decide), saidLiteral v, said (.mark '(') "(" (by decide),
        said (.mark ')') ")" (by decide), said (.mark ';') ";" (by decide)] := by
    rw [htext]
    refine cuts_said _ rfl ((cuts_separator rfl).2 (cuts_said _ rfl ((cuts_separator rfl).2 ?_)))
    refine cuts_said _ rfl ((cuts_separator rfl).2 ?_)
    refine cuts_said _ (first?_literal (by decide) (by decide) v) ((cuts_separator rfl).2 ?_)
    exact cuts_said _ rfl (cuts_said _ rfl (cuts_said _ rfl (.done rfl)))
  refine parse_of_cuts hcuts (d := .ready (.createFontFace (unquote (literal v)) [])) rfl ?_
    (Nat.le_refl 1)
  rw [unquote_literal]
  rfl

theorem parse_attribute : parse ("CREATE SELECTOR a AS ATTR('a', " ++ literal v ++ ");") strict =
    .ok [.createSelector "a" (.attr (.text "a") (.text v) .null .null)] := by
  have htext : ("CREATE SELECTOR a AS ATTR('a', " ++ literal v ++ ");").toList = "CREATE".toList ++
      ' ' :: ("SELECTOR".toList ++ ' ' :: ("a".toList ++ ' ' :: ("AS".toList ++ ' ' ::
        ("ATTR(".toList ++ ((literal "a").toList ++ (",".toList ++ ' ' :: ((literal v).toList ++
          (")".toList ++ (";".toList ++ []))))))))) := by
    simp [literal, literalRest, literalChar]
  have hcuts : Cuts start ("CREATE SELECTOR a AS ATTR('a', " ++ literal v ++ ");").toList
      [said (.word .create) "CREATE" (by decide), said (.word .selector) "SELECTOR" (by decide),
        said .ident "a" (by decide), said (.word .asWord) "AS" (by decide),
        said .function "ATTR(" (by decide), saidLiteral "a", said (.mark ',') "," (by decide),
        saidLiteral v, said (.mark ')') ")" (by decide), said (.mark ';') ";" (by decide)] := by
    rw [htext]
    refine cuts_said _ rfl ((cuts_separator rfl).2 (cuts_said _ rfl ((cuts_separator rfl).2 ?_)))
    refine cuts_said _ rfl ((cuts_separator rfl).2 (cuts_said _ rfl ((cuts_separator rfl).2 ?_)))
    refine cuts_said _ rfl (cuts_said _ rfl (cuts_said _ rfl ((cuts_separator rfl).2 ?_)))
    refine cuts_said _ (first?_literal (by decide) (by decide) v) (cuts_said _ rfl ?_)
    exact cuts_said _ rfl (.done rfl)
  refine parse_of_cuts hcuts (d := .selector "a" (.call "ATTR" {}
    [.text (unquote (literal "a")), .text (unquote (literal v))])) rfl ?_ (Nat.le_refl 1)
  rw [unquote_literal, unquote_literal]
  rfl

end StyleLedger.Source
