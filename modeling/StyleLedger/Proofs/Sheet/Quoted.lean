import StyleLedger.Proofs.Source.Literal
import StyleLedger.Proofs.Selector.Alternatives
import StyleLedger.Json.Decode
import StyleLedger.Sheet.Plan
import StyleLedger.Sheet.Render

/-!
Quoted texts of a style sheet, read by the rules of CSS.

A CSS string reaches up to its quote. A backslash takes the quote along, or another character, the
end of a line, or a code: up to six digits in base sixteen and one blank. A line must not end inside
otherwise (`readString`).

Attribute selectors, font faces and imports put a text between quotes as it is. What is read of it
gets behind what is written at the first backslash, and the quote ends the reading before it can
catch up (`readString_ne`). So a text is read back just when each of its characters stands for itself
(`readString_eq_iff`).

* `readsBack_iff` — which texts are read back.
-/

namespace StyleLedger.CssString

/-! ## 1. Strings -/

/-- The characters that end a line. -/
def isLineEnd (c : Char) : Bool :=
  c == '\n' || c == '\r' || c == '\x0c'

/-- What stands for a character that there is not. -/
def replacement : Char := '\uFFFD'

/-- A character as it is read. -/
def readChar (c : Char) : Char :=
  if c = '\x00' then replacement else c

/-- The character with a number. -/
def charOf (n : Nat) : Char :=
  if n = 0 ∨ ¬n.isValidChar then replacement else Char.ofNat n

/-- A digit in base sixteen. -/
def isHexDigit (c : Char) : Bool :=
  (Json.hexValue? c).isSome

/-- The digits of a code. -/
def codeDigits (cs : List Char) : List Char :=
  (cs.takeWhile isHexDigit).take 6

/-- The number that digits spell. -/
def codeNumber (digits : List Char) : Nat :=
  digits.foldl (fun n c => 16 * n + (Json.hexValue? c).getD 0) 0

/-- One blank, if there is one: a space, a tab or the end of a line, which may be two characters. -/
def blankExtent : List Char → Nat
  | [] => 0
  | c :: cs =>
    if c = '\r' && cs.head? == some '\n' then 2
    else if isLineEnd c || c == ' ' || c == '\t' then 1 else 0

/-- How much a backslash takes along of what comes after it, and what is read for that. -/
def escape (cs : List Char) : Nat × List Char :=
  let digits := codeDigits cs
  if !digits.isEmpty then
    (digits.length + blankExtent (cs.drop digits.length), [charOf (codeNumber digits)])
  else if cs.head?.any isLineEnd then (blankExtent cs, [])
  else (1, (cs.head?.map readChar).toList)

/-- What is read of a string behind its first quote, and what comes after the last one. The given
number of characters is passed over before. -/
def readString (quote : Char) : Nat → List Char → Option (List Char × List Char)
  | _, [] => none
  | skip + 1, _ :: cs => readString quote skip cs
  | 0, c :: cs =>
    if c = quote then some ([], cs)
    else if isLineEnd c then none
    else if c = '\\' then
      (readString quote (escape cs).1 cs).map fun (read, left) => ((escape cs).2 ++ read, left)
    else (readString quote 0 cs).map fun (read, left) => (readChar c :: read, left)

/-- A quote. -/
def IsQuote (c : Char) : Prop := c = '"' ∨ c = '\''

/-- A character that is read as itself inside quotes. -/
def StandsForItself (quote c : Char) : Prop :=
  c ≠ quote ∧ c ≠ '\\' ∧ isLineEnd c = false ∧ c ≠ '\x00'

instance (quote c : Char) : Decidable (StandsForItself quote c) :=
  inferInstanceAs (Decidable (_ ∧ _))

/-! ## 2. Reading -/

section Reading

variable {quote : Char} {w rest : List Char}

theorem readString_skip (quote : Char) :
    ∀ (n : Nat) (cs : List Char), readString quote n cs = readString quote 0 (cs.drop n)
  | 0, _ => rfl
  | n + 1, [] => by simp [readString]
  | n + 1, c :: cs => by rw [readString, readString_skip quote n cs, List.drop_succ_cons]

theorem IsQuote.spec (h : IsQuote quote) : isLineEnd quote = false ∧ isHexDigit quote = false ∧
    readChar quote = quote ∧ quote ∉ ['\\', ' ', '\t'] := by
  rcases h with rfl | rfl
  all_goals decide

theorem codeDigits_append (hquote : IsQuote quote) (w rest : List Char) :
    codeDigits (w ++ quote :: rest) = codeDigits w := by
  have hall : (w ++ quote :: rest).takeWhile isHexDigit = w.takeWhile isHexDigit := by
    induction w with
    | nil => simp [hquote.spec.2.1]
    | cons c w ih => simp [List.takeWhile_cons, ih]
  rw [codeDigits, codeDigits, hall]

theorem isPrefix_codeDigits (w : List Char) : codeDigits w <+: w :=
  (List.take_prefix _ _).trans (List.takeWhile_prefix _)

theorem not_mem_codeDigits (hquote : IsQuote quote) (w : List Char) : quote ∉ codeDigits w := by
  intro hmem
  have hdigit : isHexDigit quote = true := List.mem_takeWhile_imp (List.mem_of_mem_take hmem)
  simp [hquote.spec.2.1] at hdigit

theorem blankExtent_append (hquote : IsQuote quote) (w rest : List Char) :
    blankExtent (w ++ quote :: rest) = blankExtent w := by
  cases w with
  | nil =>
    rcases hquote with rfl | rfl
    all_goals rfl
  | cons c w =>
    cases w with
    | nil =>
      rcases hquote with rfl | rfl
      all_goals simp [blankExtent]
    | cons d w => simp [blankExtent]

theorem blankExtent_spec (hquote : IsQuote quote) (w : List Char) :
    blankExtent w ≤ w.length ∧ quote ∉ w.take (blankExtent w) := by
  cases w with
  | nil => simp [blankExtent]
  | cons c w =>
    rw [blankExtent]
    split_ifs with hpair hone
    · obtain ⟨rfl, hfeed⟩ : c = '\r' ∧ w.head? = some '\n' := by simpa using hpair
      obtain ⟨ds, rfl⟩ := List.head?_eq_some_iff.1 hfeed
      rcases hquote with rfl | rfl
      all_goals simp
    · refine ⟨by simp, fun hmem => ?_⟩
      obtain rfl : quote = c := by simpa using hmem
      rcases hquote with rfl | rfl
      all_goals exact absurd hone (by decide)
    · simp

/-- The quote behind a text does not change what a backslash in front of it takes along. -/
theorem escape_append (hquote : IsQuote quote) (hw : w ≠ []) (rest : List Char) :
    escape (w ++ quote :: rest) = escape w := by
  have hdrop : (w ++ quote :: rest).drop (codeDigits w).length =
      w.drop (codeDigits w).length ++ quote :: rest :=
    List.drop_append_of_le_length (isPrefix_codeDigits w).length_le
  have hhead : (w ++ quote :: rest).head? = w.head? := List.head?_append_of_ne_nil _ hw
  simp only [escape, codeDigits_append hquote, hdrop, blankExtent_append hquote, hhead]

/-- What a backslash takes along holds no quote, or is a quote. -/
theorem escape_spec (hquote : IsQuote quote) (hw : w ≠ []) : 0 < (escape w).1 ∧
    (escape w).1 ≤ w.length ∧ (escape w).2.length ≤ 1 ∧
      (quote ∉ w.take (escape w).1 ∨ (escape w).2 = [quote]) := by
  obtain ⟨c, cs, rfl⟩ := List.exists_cons_of_ne_nil hw
  rw [escape]
  split_ifs with hdigits hline
  · have hcode : (c :: cs).take (codeDigits (c :: cs)).length = codeDigits (c :: cs) :=
      List.prefix_iff_eq_take.1 (isPrefix_codeDigits _) |>.symm
    obtain ⟨hle, hblank⟩ := blankExtent_spec hquote
      ((c :: cs).drop (codeDigits (c :: cs)).length)
    have hlength := (isPrefix_codeDigits (c :: cs)).length_le
    have hpos : 0 < (codeDigits (c :: cs)).length := by
      simpa [List.length_pos_iff] using hdigits
    rw [List.length_drop] at hle
    refine ⟨by omega, by omega, Nat.le_refl 1, .inl ?_⟩
    rw [List.take_add, hcode, List.mem_append, not_or]
    exact ⟨not_mem_codeDigits hquote _, hblank⟩
  · obtain ⟨hle, hblank⟩ := blankExtent_spec hquote (c :: cs)
    refine ⟨?_, hle, Nat.zero_le 1, .inl hblank⟩
    have hc : isLineEnd c = true := by simpa using hline
    rw [blankExtent]
    split_ifs with hpair hone
    · exact Nat.zero_lt_two
    · exact Nat.one_pos
    · simp [hc] at hone
  · refine ⟨Nat.one_pos, by simp, Nat.le_refl 1, ?_⟩
    by_cases hc : quote = c
    · rw [← hc]
      exact .inr (congrArg (fun d => [d]) hquote.spec.2.2.1)
    · exact .inl (by simpa using hc)

/-- What a backslash takes along of a text is a quote, or some characters before the quote. -/
theorem exists_escape (hquote : IsQuote quote) (w rest : List Char) :
    (escape (w ++ quote :: rest)).2 = [quote] ∨
      (escape (w ++ quote :: rest)).2.length ≤ 1 ∧ ∃ k w', k ≠ [] ∧ quote ∉ k ∧ w = k ++ w' ∧
        (w ++ quote :: rest).drop (escape (w ++ quote :: rest)).1 = w' ++ quote :: rest := by
  by_cases hw : w = []
  · obtain ⟨hline, hdigit, hread, -⟩ := hquote.spec
    subst hw
    simp [escape, codeDigits, hdigit, hline, hread]
  · obtain ⟨hpos, hle, hlength, hquoted⟩ := escape_spec hquote hw
    rw [escape_append hquote hw, List.drop_append_of_le_length hle]
    refine hquoted.symm.imp_right fun hnot => ⟨hlength, w.take (escape w).1, w.drop (escape w).1, ?_,
      hnot, (List.take_append_drop _ w).symm, rfl⟩
    rw [← List.length_pos_iff, List.length_take]
    omega

/-- How a text in front of a quote is read: it ends there, or the first character is read, or a
backslash and what it takes along. -/
theorem readString_cons {c : Char} {out left : List Char} (hquote : IsQuote quote)
    (h : readString quote 0 (c :: w ++ quote :: rest) = some (out, left)) :
    (c = quote ∧ out = []) ∨
    (c ≠ quote ∧ c ≠ '\\' ∧ isLineEnd c = false ∧ ∃ out', out = readChar c :: out' ∧
      readString quote 0 (w ++ quote :: rest) = some (out', left)) ∨
    (c = '\\' ∧ ((∃ out', out = quote :: out') ∨ ∃ o k w' out', o.length ≤ 1 ∧ k ≠ [] ∧
      quote ∉ k ∧ w = k ++ w' ∧ out = o ++ out' ∧
        readString quote 0 (w' ++ quote :: rest) = some (out', left))) := by
  rw [List.cons_append, readString] at h
  split_ifs at h with hc hline hslash
  · exact .inl ⟨hc, (congrArg Prod.fst (Option.some.inj h)).symm⟩
  · obtain ⟨⟨out', left'⟩, hout, heq⟩ := Option.map_eq_some_iff.1 h
    obtain ⟨rfl, rfl⟩ := Prod.mk.inj heq
    rw [readString_skip] at hout
    refine .inr (.inr ⟨hslash, ?_⟩)
    rcases exists_escape hquote w rest with ho | ⟨ho, k, w', hk, hkquote, hw, htail⟩
    · rw [ho]
      exact .inl ⟨out', rfl⟩
    · exact .inr ⟨_, k, w', out', ho, hk, hkquote, hw, rfl, htail ▸ hout⟩
  · obtain ⟨⟨out', left'⟩, hout, heq⟩ := Option.map_eq_some_iff.1 h
    obtain ⟨rfl, rfl⟩ := Prod.mk.inj heq
    exact .inr (.inl ⟨hc, hslash, by simpa using hline, out', rfl, hout⟩)

/-- What is read lags behind what is written by some characters, and by no fewer ones after what is
written in one go. -/
theorem exists_lag {u o k out : List Char} (hu : u ≠ []) (hquote : quote ∉ u) (hk : k ≠ [])
    (hkquote : quote ∉ k) (ho : o.length ≤ 1) (heq : o ++ out = u ++ (k ++ w)) :
    ∃ u', u' ≠ [] ∧ quote ∉ u' ∧ out = u' ++ w := by
  cases o with
  | nil =>
    refine ⟨u ++ k, List.append_ne_nil_of_left_ne_nil hu k, by simp [hquote, hkquote], ?_⟩
    simpa using heq
  | cons x o =>
    obtain rfl : o = [] := by simpa using ho
    obtain ⟨y, u, rfl⟩ := List.exists_cons_of_ne_nil hu
    obtain ⟨-, hout⟩ := List.cons.inj heq
    refine ⟨u ++ k, List.append_ne_nil_of_right_ne_nil u hk, ?_, by simpa using hout⟩
    simp only [List.mem_cons, not_or] at hquote
    simp [hquote.2, hkquote]

/-- What is read of a text is never the text with more in front of it. -/
theorem readString_ne (hquote : IsQuote quote) {u left : List Char} (hu : u ≠ [])
    (hnot : quote ∉ u) : readString quote 0 (w ++ quote :: rest) ≠ some (u ++ w, left) := by
  induction hn : w.length using Nat.strong_induction_on generalizing w u left with
  | _ n ih =>
    intro hread
    cases w with
    | nil =>
      rw [List.nil_append, readString, if_pos rfl] at hread
      simp [hu] at hread
    | cons c w =>
      rcases readString_cons hquote hread with ⟨-, hnil⟩ | ⟨hc, -, -, out, heq, hout⟩ |
        ⟨rfl, ⟨out, heq⟩ | ⟨o, k, w', out, ho, -, hkquote, rfl, heq, hout⟩⟩
      · simp [hu] at hnil
      · obtain ⟨u', hu', hnot', rfl⟩ := exists_lag (o := [readChar c]) (k := [c]) hu hnot (by simp)
          (by simpa using hc.symm) (Nat.le_refl 1) heq.symm
        exact ih w.length (by simp [← hn]) hu' hnot' rfl hout
      · obtain ⟨x, u, rfl⟩ := List.exists_cons_of_ne_nil hu
        obtain ⟨rfl, -⟩ := List.cons.inj heq
        simp at hnot
      · have hslash : quote ≠ '\\' := fun heq => hquote.spec.2.2.2 (by simp [heq])
        obtain ⟨u', hu', hnot', rfl⟩ := exists_lag (k := '\\' :: k) hu hnot (by simp)
          (by simp [hslash, hkquote]) ho heq.symm
        refine ih w'.length ?_ hu' hnot' rfl hout
        simp only [← hn, List.length_cons, List.length_append]
        omega

/-- A text is read back when all of its characters stand for themselves. -/
theorem readString_eq_iff (hquote : IsQuote quote) (v rest : List Char) :
    (∃ left, readString quote 0 (v ++ quote :: rest) = some (v, left)) ↔
      ∀ c ∈ v, StandsForItself quote c := by
  have hslash : quote ≠ '\\' := fun heq => hquote.spec.2.2.2 (by simp [heq])
  induction v with
  | nil => simp [readString]
  | cons c v ih =>
    rw [List.forall_mem_cons]
    constructor
    · rintro ⟨left, hread⟩
      rcases readString_cons hquote hread with ⟨-, hnil⟩ | ⟨hc, hback, hline, out, heq, hout⟩ |
        ⟨rfl, ⟨out, heq⟩ | ⟨o, k, w', out, ho, hk, hkquote, rfl, heq, hout⟩⟩
      · simp at hnil
      · obtain ⟨hchar, rfl⟩ := List.cons.inj heq
        refine ⟨⟨hc, hback, hline, ?_⟩, ih.1 ⟨left, hout⟩⟩
        rintro rfl
        exact absurd hchar (by decide)
      · exact absurd (List.cons.inj heq).1.symm hslash
      · obtain ⟨u, hu, hnot, rfl⟩ := exists_lag (u := ['\\']) (by simp) (by simpa using hslash) hk
          hkquote ho heq.symm
        exact (readString_ne hquote hu hnot hout).elim
    · rintro ⟨⟨hc, hback, hline, hnull⟩, hrest⟩
      obtain ⟨left, hread⟩ := ih.2 hrest
      exact ⟨left, by simp [readString, hc, hback, hline, hread, readChar, hnull]⟩

end Reading

/-! ## 3. Attribute selectors inside a definition -/

/-- A definition is another one or holds it. -/
inductive Holds (a : Selector) : Selector → Prop
  | here : Holds a a
  | and {s : Selector} {parts : List Selector} (hs : s ∈ parts) (h : Holds a s) :
      Holds a (.and parts)
  | or {s : Selector} {parts : List Selector} (hs : s ∈ parts) (h : Holds a s) : Holds a (.or parts)
  | parent {p c : Selector} (h : Holds a p) : Holds a (.child p c)
  | child {p c : Selector} (h : Holds a c) : Holds a (.child p c)
  | ancestor {d e : Selector} (h : Holds a d) : Holds a (.descendant d e)
  | descendant {d e : Selector} (h : Holds a e) : Holds a (.descendant d e)
  | left {kind : JoinKind} {l r : Selector} (h : Holds a l) : Holds a (.join kind l r)
  | right {kind : JoinKind} {l r : Selector} (h : Holds a r) : Holds a (.join kind l r)

theorem infix_left (x y : String) : x.toList <:+: (x ++ y).toList := by
  rw [String.toList_append]
  exact (List.prefix_append _ _).isInfix

theorem infix_right (x y : String) : y.toList <:+: (x ++ y).toList := by
  rw [String.toList_append]
  exact (List.suffix_append _ _).isInfix

theorem infix_intercalate {x : String} (separator : String) : ∀ {xs : List String}, x ∈ xs →
    x.toList <:+: (separator.intercalate xs).toList
  | [y], h => by
    obtain rfl : x = y := by simpa using h
    simp
  | y :: z :: zs, h => by
    rw [String.intercalate_cons_cons]
    rcases List.mem_cons.1 h with rfl | h
    · exact (infix_left x separator).trans (infix_left _ _)
    · exact (infix_intercalate separator h).trans (infix_right _ _)

theorem mem_renderParts {reference : Json → String} {s : Selector} : ∀ {parts : List Selector},
    s ∈ parts → s.render reference ∈ Selector.renderParts reference parts
  | p :: ps, h => by
    rcases List.mem_cons.1 h with rfl | h
    · exact List.mem_cons_self
    · exact List.mem_cons_of_mem _ (mem_renderParts h)

/-- The text of a definition holds the text of every definition inside. -/
theorem Holds.infix_render {a s : Selector} (h : Holds a s) (reference : Json → String) :
    (a.render reference).toList <:+: (s.render reference).toList := by
  induction h with
  | here => exact List.infix_rfl
  | and hs _ ih | or hs _ ih => exact ih.trans (infix_intercalate _ (mem_renderParts hs))
  | parent _ ih | ancestor _ ih | left _ ih =>
    exact ih.trans ((infix_left _ _).trans (infix_left _ _))
  | child _ ih | descendant _ ih | right _ ih => exact ih.trans (infix_right _ _)

/-! ## 4. Quoted texts -/

/-- Behind a front, the text between quotes is read back. -/
def ReadsBack (quote : Char) (front css v : String) : Prop :=
  ∃ cs left, css.toList = front.toList ++ quote :: cs ∧
    readString quote 0 cs = some (v.toList, left)

/-- A text whose characters stand for themselves inside quotes. -/
def IsPlain (quote : Char) (v : String) : Prop :=
  ∀ c ∈ v.toList, StandsForItself quote c

instance (quote : Char) (v : String) : Decidable (IsPlain quote v) :=
  List.decidableBAll (StandsForItself quote) v.toList

theorem readsBack_of_eq {quote : Char} {front css v : String} (hquote : IsQuote quote)
    (rest : List Char)
    (hcss : css.toList = front.toList ++ quote :: (v.toList ++ quote :: rest)) :
    ReadsBack quote front css v ↔ IsPlain quote v := by
  rw [IsPlain, ← readString_eq_iff hquote v.toList rest]
  constructor
  · rintro ⟨cs, left, heq, hread⟩
    obtain rfl := (List.cons.inj (List.append_cancel_left (hcss.symm.trans heq))).2
    exact ⟨left, hread⟩
  · rintro ⟨left, hread⟩
    exact ⟨_, left, hcss, hread⟩

/-- What an attribute selector writes before its value. -/
def attributeFront (name operator : Json) : String :=
  "[" ++ name.shown ++ (operator.orElse (.text "=")).shown

section Written

variable {definitions : Table Json Selector} {s : Selector} {name operator flag : Json}
  {v before after : String}

/-- A definition's text holds the attribute selectors in it and behind its names. -/
theorem Holds.exists_resolve (h : Holds (.attr name (.text v) operator flag) (s.expand definitions)) :
    ∃ before after, s.resolve definitions =
      before ++ Selector.renderAttr name (.text v) operator flag ++ after := by
  obtain ⟨before, after, hinfix⟩ := h.infix_render Selector.asClass
  rw [← Selector.resolve_eq_render_expand] at hinfix
  refine ⟨String.ofList before, String.ofList after, ?_⟩
  rw [← String.toList_inj, ← hinfix]
  simp [Selector.render]

theorem readsBack_attribute (h : s.resolve definitions =
    before ++ Selector.renderAttr name (.text v) operator flag ++ after) :
    ReadsBack '"' (before ++ attributeFront name operator) (s.resolve definitions) v ↔
      IsPlain '"' v := by
  refine readsBack_of_eq (.inl rfl)
    (((if flag.isTrue then " " ++ flag.shown else "") ++ "]").toList ++ after.toList) ?_
  rw [h, Selector.renderAttr, if_neg (by simp [Json.isNull])]
  simp [attributeFront]

theorem readsBack_fontFace (config : CompilerConfig) (f : FontFace) : ∃ line lines,
    Sheet.blockLines "" (Sheet.fontFaceBlock config { f with family := .text v }) =
      Sheet.opening "" "@font-face" :: line :: lines ∧
      (ReadsBack '"' "  font-family: " line v ↔ IsPlain '"' v) := by
  refine ⟨_, _, rfl, readsBack_of_eq (.inl rfl) [';'] ?_⟩
  simp [Sheet.declarationLine, Sheet.indentStep]

theorem readsBack_import (media : Json) :
    ReadsBack '\'' "@import url(" (Sheet.importLine { path := .text v, media }) v ↔
      IsPlain '\'' v := by
  refine readsBack_of_eq (.inr rfl)
    (')' :: ((if media.isTrue then " " ++ media.shown else "") ++ ";").toList) ?_
  unfold Sheet.importLine
  simp

end Written

/-- A text that is written between quotes is read back just when its characters stand for
themselves there: none is the quote or a backslash, ends a line or is null.

* The value of an attribute selector, wherever the selector stands in a definition or behind the
  names in it.
* The family of a font face, in the first line of its block.
* The path of an import. -/
theorem readsBack_iff (v : String) :
    (∀ (definitions : Table Json Selector) (s : Selector) (name operator flag : Json),
      Holds (.attr name (.text v) operator flag) (s.expand definitions) →
      (∃ before after, s.resolve definitions =
        before ++ Selector.renderAttr name (.text v) operator flag ++ after) ∧
      ∀ before after, s.resolve definitions =
        before ++ Selector.renderAttr name (.text v) operator flag ++ after →
        (ReadsBack '"' (before ++ attributeFront name operator) (s.resolve definitions) v ↔
          IsPlain '"' v)) ∧
    (∀ (config : CompilerConfig) (f : FontFace), ∃ line lines,
      Sheet.blockLines "" (Sheet.fontFaceBlock config { f with family := .text v }) =
        Sheet.opening "" "@font-face" :: line :: lines ∧
        (ReadsBack '"' "  font-family: " line v ↔ IsPlain '"' v)) ∧
    ∀ media : Json, ReadsBack '\'' "@import url(" (Sheet.importLine { path := .text v, media }) v ↔
      IsPlain '\'' v :=
  ⟨fun _ _ _ _ _ h => ⟨h.exists_resolve, fun _ _ => readsBack_attribute⟩, readsBack_fontFace,
    readsBack_import⟩

theorem readsBack_iff_link : ReadsBack '"' "a[href="
    ((Selector.and [.element (.text "a"), .attr (.text "href") (.text "it's") .null .null]).resolve {})
    "it's" :=
  (((readsBack_iff "it's").1 {} (.and [.element (.text "a"),
    .attr (.text "href") (.text "it's") .null .null]) (.text "href") .null .null
      (.and (List.mem_cons_of_mem _ List.mem_cons_self) .here)).2 "a" "" rfl).2 (by decide)

/-- Texts that the parser gives are put between quotes as they are, and are read as something
else. -/
theorem not_readsBack :
    (¬∀ source strict ss, Source.parse source strict = .ok ss → ∀ selector name v operator flag,
      .createSelector selector (.attr name (.text v) operator flag) ∈ ss →
        ReadsBack '"' (attributeFront name operator)
          ((Selector.attr name (.text v) operator flag).resolve {}) v) ∧
    (¬∀ source strict ss, Source.parse source strict = .ok ss → ∀ family ds,
      .createFontFace family ds ∈ ss → ∀ (config : CompilerConfig) (f : FontFace),
        ∃ line lines, Sheet.blockLines "" (Sheet.fontFaceBlock config
          { f with family := .text family }) = Sheet.opening "" "@font-face" :: line :: lines ∧
            ReadsBack '"' "  font-family: " line family) ∧
    ¬∀ source strict ss, Source.parse source strict = .ok ss → ∀ path media,
      .imports .css path media ∈ ss →
        ReadsBack '\'' "@import url("
          (Sheet.importLine { path := .text path, media := .textOrNull media }) path := by
  refine ⟨fun h => ?_, fun h => ?_, fun h => ?_⟩
  · have hread := h _ true _ (Source.parse_attribute "\"" true) _ _ _ _ _ List.mem_cons_self
    have hwritten : (Selector.attr (.text "a") (.text "\"") .null .null).resolve {} =
      "" ++ Selector.renderAttr (.text "a") (.text "\"") .null .null ++ "" := rfl
    exact absurd ((readsBack_attribute hwritten).1 hread) (by decide)
  · obtain ⟨line, lines, hlines, hread⟩ :=
      h _ true _ (Source.parse_fontFace "\"" true) _ _ List.mem_cons_self {} default
    obtain ⟨line', lines', hlines', hiff⟩ := readsBack_fontFace (v := "\"") {} default
    obtain ⟨rfl, -⟩ := List.cons.inj (List.cons.inj (hlines.symm.trans hlines')).2
    exact absurd (hiff.1 hread) (by decide)
  · have hread := h _ true _ (Source.parse_import "'" true) _ _ List.mem_cons_self
    exact absurd ((readsBack_import _).1 hread) (by decide)

end StyleLedger.CssString
