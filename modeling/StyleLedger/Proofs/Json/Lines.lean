import Mathlib.Data.Bool.AllAny
import StyleLedger.Proofs.Json.RoundTrip

/-!
Values that are written on lines of their own are read back.

The long form has white space behind every bracket and every comma, and the reader passes over white
space at these places (`skipSpace_newline`). So a value without numbers is read back from its long
form as it is from the short one, at any level of nesting and whatever stands behind it
(`readValue_encodeLines`); again the length of the written form is enough fuel for every part.
-/

namespace StyleLedger.Json

open Outcome

/-! ## 1. Values without numbers -/

mutual

/-- A value without numbers, in which no object names a field twice. -/
def IsNumberless : Json → Prop
  | number _ => False
  | array items => AreNumberless items
  | object fields => (fields.map (·.1)).Nodup ∧ HasNumberless fields
  | null | bool _ | text _ => True

/-- Every item is without numbers. -/
def AreNumberless : List Json → Prop
  | [] => True
  | v :: vs => IsNumberless v ∧ AreNumberless vs

/-- Every field has a value without numbers. -/
def HasNumberless : List (String × Json) → Prop
  | [] => True
  | (_, v) :: fs => IsNumberless v ∧ HasNumberless fs

end

/-! ## 2. Reading -/

theorem skipSpace_newline (level : Nat) (cs : List Char) :
    skipSpace (newline level ++ cs) = skipSpace cs := by
  have hblank : ∀ c ∈ newline level, isSpace c = true := by
    intro c hc
    rcases List.mem_cons.1 hc with rfl | hc
    · rfl
    · rw [List.eq_of_mem_replicate hc]
      rfl
  exact List.dropWhile_append_of_pos hblank

/-- The first characters of values without numbers. -/
def firstCharacters : List Char := ['"', '[', '\x7b', 'n', 't', 'f']

theorem exists_encodeLines_eq {v : Json} (h : IsNumberless v) (level : Nat) :
    ∃ c cs, encodeLines level v = c :: cs ∧ c ∈ firstCharacters := by
  cases v with
  | number => simp [IsNumberless] at h
  | null => exact ⟨_, _, rfl, by decide⟩
  | bool b => cases b <;> exact ⟨_, _, rfl, by decide⟩
  | text s => exact ⟨_, _, rfl, by decide⟩
  | array items => cases items <;> exact ⟨_, _, rfl, by decide⟩
  | object fields => rcases fields with _ | ⟨f, fs⟩ <;> exact ⟨_, _, rfl, by decide⟩

/-- Nothing is skipped before a value, and it closes nothing. -/
theorem skipSpace_encodeLines {v : Json} (h : IsNumberless v) (level : Nat) (rest : List Char) :
    skipSpace (encodeLines level v ++ rest) = encodeLines level v ++ rest ∧
      (encodeLines level v ++ rest).head? ≠ some ']' := by
  obtain ⟨c, cs, heq, hc⟩ := exists_encodeLines_eq h level
  have hall : ∀ c ∈ firstCharacters, isSpace c = false ∧ c ≠ ']' :=
    List.all_iff_forall_prop.1 (by decide)
  obtain ⟨hspace, hclose⟩ := hall c hc
  rw [heq]
  exact ⟨skipSpace_cons hspace _, by simpa using hclose⟩

theorem encodeLines_length_pos {v : Json} (h : IsNumberless v) (level : Nat) :
    0 < (encodeLines level v).length := by
  obtain ⟨c, cs, heq, -⟩ := exists_encodeLines_eq h level
  simp [heq]

/-- A text in the place of a field's name. -/
theorem skipSpace_encodeText (s : String) (rest : List Char) :
    skipSpace (encodeText s ++ rest) = encodeText s ++ rest := by
  rw [encodeText_eq]
  rfl

mutual

/-- A value on lines of its own is read as itself, whatever stands behind it. -/
theorem readValue_encodeLines : ∀ (fuel : Nat) {v : Json}, IsNumberless v → ∀ level : Nat,
    (encodeLines level v).length ≤ fuel →
    ∀ rest, readValue fuel (encodeLines level v ++ rest) = .ok (v, rest)
  | 0, v, hv, level, hfuel, rest => by
    have hpos := encodeLines_length_pos hv level
    omega
  | fuel + 1, .null, _, _, _, rest => rfl
  | fuel + 1, .bool true, _, _, _, rest => rfl
  | fuel + 1, .bool false, _, _, _, rest => rfl
  | fuel + 1, .text s, _, _, _, rest => by
    simp only [encodeLines, encode, encodeText_eq, readValue, if_true, readText_encodeText]
    rfl
  | fuel + 1, .array [], _, _, _, rest => by
    simp [encodeLines, readValue, skipSpace, isSpace]
  | fuel + 1, .array (v :: vs), hv, level, hfuel, rest => by
    obtain ⟨hv, hvs⟩ := hv
    simp only [encodeLines, List.length_cons, List.length_append, List.cons_append] at hfuel
    have hitems := readItems_encodeLines fuel hv hvs (level + 1) (by omega) level rest
    obtain ⟨hskip, hopen⟩ := skipSpace_encodeLines hv (level + 1)
      (itemLines (level + 1) vs ++ (newline level ++ ']' :: rest))
    have hquote : ¬ '[' = '"' := by decide
    simp only [encodeLines, List.cons_append, List.append_assoc, List.nil_append, readValue, hquote,
      if_false, if_true, skipSpace_newline, hskip]
    split
    · next h => simp [h] at hopen
    · rw [hitems]
      rfl
  | fuel + 1, .object [], _, _, _, rest => by
    simp [encodeLines, readValue, skipSpace, isSpace]
  | fuel + 1, .object ((name, v) :: fs), hv, level, hfuel, rest => by
    obtain ⟨hnames, hv, hfs⟩ := hv
    simp only [encodeLines, List.length_cons, List.length_append, List.cons_append] at hfuel
    have hfields := readFields_encodeLines fuel name hv hfs (level + 1) (by omega) level rest
    have hquote : ¬ '\x7b' = '"' := by decide
    have hbracket : ¬ '\x7b' = '[' := by decide
    simp only [encodeLines, List.cons_append, List.append_assoc, List.nil_append, readValue, hquote,
      hbracket, if_false, if_true, skipSpace_newline, skipSpace_encodeText]
    split
    · next h => simp [encodeText] at h
    · rw [hfields]
      simp [bind, Except.bind, pure, Except.pure, ofList_fields hnames]

theorem readItems_encodeLines : ∀ (fuel : Nat) {v : Json} {vs : List Json}, IsNumberless v →
    AreNumberless vs → ∀ level : Nat,
    (encodeLines level v).length + (itemLines level vs).length < fuel →
    ∀ (outer : Nat) (rest : List Char), readItems fuel
      (encodeLines level v ++ (itemLines level vs ++ (newline outer ++ ']' :: rest))) =
        .ok (v :: vs, rest)
  | fuel + 1, v, [], hv, _, level, hfuel, outer, rest => by
    have hvalue := readValue_encodeLines fuel hv level (by simp [itemLines] at hfuel; omega)
      (newline outer ++ ']' :: rest)
    have hclose : skipSpace (newline outer ++ ']' :: rest) = ']' :: rest := skipSpace_newline _ _
    simp only [readItems, itemLines, List.nil_append, hvalue]
    simp only [bind, Except.bind, hclose]
    rfl
  | fuel + 1, v, w :: ws, hv, hws, level, hfuel, outer, rest => by
    obtain ⟨hw, hws⟩ := hws
    simp only [itemLines, List.length_cons, List.length_append, List.cons_append] at hfuel
    have hvalue := readValue_encodeLines fuel hv level (by omega) (',' :: (newline level ++
      (encodeLines level w ++ (itemLines level ws ++ (newline outer ++ ']' :: rest)))))
    have hitems := readItems_encodeLines fuel hw hws level (by omega) outer rest
    have hskip := (skipSpace_encodeLines hw level
      (itemLines level ws ++ (newline outer ++ ']' :: rest))).1
    simp only [readItems, itemLines, List.cons_append, List.append_assoc, hvalue]
    simp only [bind, Except.bind, skipSpace_cons (show isSpace ',' = false by decide),
      skipSpace_newline, hskip, hitems]
    rfl

theorem readFields_encodeLines : ∀ (fuel : Nat) (name : String) {v : Json}
    {fs : List (String × Json)}, IsNumberless v → HasNumberless fs → ∀ level : Nat,
    (encodeLines level v).length + (fieldLines level fs).length < fuel →
    ∀ (outer : Nat) (rest : List Char), readFields fuel
      (encodeText name ++ ':' :: ' ' :: (encodeLines level v ++
        (fieldLines level fs ++ (newline outer ++ '\x7d' :: rest)))) = .ok ((name, v) :: fs, rest)
  | fuel + 1, name, v, [], hv, _, level, hfuel, outer, rest => by
    have hvalue := readValue_encodeLines fuel hv level (by simp [fieldLines] at hfuel; omega)
      (newline outer ++ '\x7d' :: rest)
    have hskip := (skipSpace_encodeLines hv level (newline outer ++ '\x7d' :: rest)).1
    have hclose : skipSpace (newline outer ++ '\x7d' :: rest) = '\x7d' :: rest :=
      skipSpace_newline _ _
    simp only [encodeText_eq, fieldLines, List.nil_append, readFields, readText_encodeText]
    simp only [bind, Except.bind, skipSpace_cons (show isSpace ':' = false by decide),
      skipSpace_blank, hskip, hvalue, hclose]
    rfl
  | fuel + 1, name, v, (other, w) :: fs, hv, hfs, level, hfuel, outer, rest => by
    obtain ⟨hw, hfs⟩ := hfs
    simp only [fieldLines, List.length_cons, List.length_append, List.cons_append] at hfuel
    let behind : List Char := encodeText other ++ ':' :: ' ' :: (encodeLines level w ++
      (fieldLines level fs ++ (newline outer ++ '\x7d' :: rest)))
    have hvalue := readValue_encodeLines fuel hv level (by omega) (',' :: (newline level ++ behind))
    have hfields := readFields_encodeLines fuel other hw hfs level (by omega) outer rest
    have hskip := (skipSpace_encodeLines hv level (',' :: (newline level ++ behind))).1
    rw [encodeText_eq name]
    simp only [fieldLines, List.cons_append, List.append_assoc, readFields, readText_encodeText]
    simp only [behind] at hskip hvalue
    simp only [bind, Except.bind, skipSpace_cons (show isSpace ':' = false by decide),
      skipSpace_cons (show isSpace ',' = false by decide), skipSpace_blank, skipSpace_newline,
      skipSpace_encodeText, hskip, hvalue, hfields]
    rfl

end

/-- A value on lines of its own is read from a text that has a line feed behind it. -/
theorem read_writeLines {v : Json} (h : IsNumberless v) : read (v.writeLines ++ "\n") = .ok v := by
  have hskip := (skipSpace_encodeLines h 0 ['\n']).1
  have hread := readValue_encodeLines (2 * (encodeLines 0 v ++ ['\n']).length + 2) h 0
    (by simp only [List.length_append]; omega) ['\n']
  have hmark : (encodeLines 0 v ++ ['\n']).head? ≠ some (Char.ofNat 0xFEFF) := by
    obtain ⟨c, cs, heq, hc⟩ := exists_encodeLines_eq h 0
    have hall : ∀ c ∈ firstCharacters, c ≠ Char.ofNat 0xFEFF :=
      List.all_iff_forall_prop.1 (by decide)
    rw [heq, List.cons_append, List.head?_cons, Ne, Option.some.injEq]
    exact hall c hc
  simp only [read, writeLines, String.toList_append, String.toList_ofList]
  rw [show "\n".toList = ['\n'] from rfl, readWhole, if_neg hmark, hskip, hread]
  rfl

end StyleLedger.Json
