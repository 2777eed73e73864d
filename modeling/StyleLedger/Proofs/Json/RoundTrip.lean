import StyleLedger.Declaration
import StyleLedger.Proofs.Table
import StyleLedger.Proofs.Outcome

/-!
Written values are read back.

What definitions and declarations are stored as holds texts, arrays and objects only, and no object
names a field twice: such values are *plain*. The short form of a plain value, with anything behind
it, is read as that value and leaves what stands behind it (`readValue_encode`). The reader bounds
itself by the length of what it reads, so the length of the written form is the invariant: it is
enough fuel for every part.

* `encodeChar` is undone one character at a time (`readChars_encodeChar`), by the code units of
  `hexDigits` where the character is not written as itself.
* `readText_encodeText`, `readValue_encode`, `ofText_write` — texts, values, stored texts.
-/

namespace StyleLedger.Json

open Outcome

/-! ## 1. Code units -/

theorem hexValue?_digitChar {d : Nat} (h : d < 16) : hexValue? (Nat.digitChar d) = some d := by
  have hall : ∀ d : Fin 16, hexValue? (Nat.digitChar d) = some d.val := by decide
  exact hall ⟨d, h⟩

/-- A code unit is spelled by its four digits. -/
theorem hexDigits_four {n : Nat} (h : n < 0x10000) : Text.hexDigits 4 n =
    [Nat.digitChar (n / 4096), Nat.digitChar (n / 256 % 16), Nat.digitChar (n / 16 % 16),
      Nat.digitChar (n % 16)] := by
  have hzero : Nat.digitChar 0 = '0' := rfl
  unfold Text.hexDigits
  by_cases h1 : n < 16
  · rw [Nat.toDigits_of_lt_base h1, show n / 4096 = 0 by omega, show n / 256 % 16 = 0 by omega,
      show n / 16 % 16 = 0 by omega, show n % 16 = n by omega]
    simp [hzero, List.replicate]
  · rw [Nat.toDigits_of_base_le (by decide) (by omega)]
    by_cases h2 : n < 256
    · rw [Nat.toDigits_of_lt_base (by omega), show n / 4096 = 0 by omega,
        show n / 256 % 16 = 0 by omega, show n / 16 % 16 = n / 16 by omega]
      simp [hzero, List.replicate]
    · rw [Nat.toDigits_of_base_le (by decide) (by omega), Nat.div_div_eq_div_mul]
      by_cases h3 : n < 4096
      · rw [Nat.toDigits_of_lt_base (by omega), show n / 4096 = 0 by omega,
          show n / 256 % 16 = n / (16 * 16) by omega]
        simp [hzero]
      · rw [Nat.toDigits_of_base_le (by decide) (by omega), Nat.div_div_eq_div_mul,
          Nat.toDigits_of_lt_base (by omega)]
        simp

theorem codeUnit?_hexDigits {n : Nat} (h : n < 0x10000) :
    codeUnit? (Nat.digitChar (n / 4096)) (Nat.digitChar (n / 256 % 16))
      (Nat.digitChar (n / 16 % 16)) (Nat.digitChar (n % 16)) = some n := by
  rw [codeUnit?, hexValue?_digitChar (by omega), hexValue?_digitChar (by omega),
    hexValue?_digitChar (by omega), hexValue?_digitChar (by omega)]
  simp only [Option.bind_eq_bind, Option.bind_some, Option.pure_def, Option.some.injEq]
  omega

/-- No character has the code of half a character. -/
theorem not_isSurrogate (c : Char) :
    isHighSurrogate c.toNat = false ∧ isLowSurrogate c.toNat = false := by
  have hvalid := c.valid
  have hnat : c.toNat = c.val.toNat := rfl
  simp only [UInt32.isValidChar, Nat.isValidChar] at hvalid
  simp only [isHighSurrogate, isLowSurrogate, Bool.and_eq_false_iff, decide_eq_false_iff_not]
  omega

theorem unitChar_toNat (c : Char) : unitChar c.toNat = c := by
  obtain ⟨hhigh, hlow⟩ := not_isSurrogate c
  simp [unitChar, hhigh, hlow]

/-- A character beyond the code units is put together from its halves. -/
theorem halves_of_not_lt {c : Char} (h : ¬ c.toNat < 0x10000) :
    let high := 0xD800 + (c.toNat - 0x10000) / 0x400
    let low := 0xDC00 + (c.toNat - 0x10000) % 0x400
    high < 0x10000 ∧ low < 0x10000 ∧ isHighSurrogate high = true ∧ isLowSurrogate low = true ∧
      pairChar high low = c := by
  have hvalid := c.valid
  have hnat : c.toNat = c.val.toNat := rfl
  simp only [UInt32.isValidChar, Nat.isValidChar] at hvalid
  simp only [isHighSurrogate, isLowSurrogate, Bool.and_eq_true, decide_eq_true_eq]
  refine ⟨by omega, by omega, by omega, by omega, ?_⟩
  unfold pairChar
  rw [show 0x10000 + (0xD800 + (c.toNat - 0x10000) / 0x400 - 0xD800) * 0x400 +
    (0xDC00 + (c.toNat - 0x10000) % 0x400 - 0xDC00) = c.toNat by omega]
  simp

/-! ## 2. Texts -/

/-- An escape for a code unit that is not the first half of a character. -/
theorem readChars_unitEscape (opening fuel : Nat) {n : Nat} (hn : n < 0x10000)
    (hhigh : isHighSurrogate n = false) (e : Char) (tail : List Char) :
    readChars opening (fuel + 1) (unitEscape n ++ e :: tail) =
      (fun r => (unitChar n :: r.1, r.2)) <$> readChars opening fuel (e :: tail) := by
  simp only [unitEscape, hexDigits_four hn, List.cons_append, List.nil_append, readChars,
    codeUnit?_hexDigits hn, hhigh]
  simp

theorem lowHalf?_unitEscape {n : Nat} (hn : n < 0x10000) (hlow : isLowSurrogate n = true) (e : Char)
    (tail : List Char) : lowHalf? (unitEscape n ++ e :: tail) = .ok (some (n, e :: tail)) := by
  simp [unitEscape, hexDigits_four hn, lowHalf?, codeUnit?_hexDigits hn, hlow]

/-- An escape for each half of a character. -/
theorem readChars_pairEscape (opening fuel high low : Nat) (hhigh : high < 0x10000)
    (hlow : low < 0x10000) (hh : isHighSurrogate high = true) (hl : isLowSurrogate low = true)
    (e : Char) (tail : List Char) :
    readChars opening (fuel + 1) (unitEscape high ++ (unitEscape low ++ e :: tail)) =
      (fun r => (pairChar high low :: r.1, r.2)) <$> readChars opening fuel (e :: tail) := by
  have hnext := lowHalf?_unitEscape hlow hl e tail
  simp only [unitEscape, hexDigits_four hhigh, List.cons_append, List.nil_append] at hnext ⊢
  simp only [readChars, codeUnit?_hexDigits hhigh, hh, hnext]
  simp [bind, Except.bind, Functor.map, Except.map, pure, Except.pure]

/-- A character that is written by another one behind a backslash. -/
theorem readChars_shortEscape (opening fuel : Nat) {c x : Char} (hc : shortEscape? c = some x)
    (tail : List Char) : readChars opening (fuel + 1) ('\\' :: c :: tail) =
      (fun r => (x :: r.1, r.2)) <$> readChars opening fuel tail := by
  have hu : c ≠ 'u' := by
    rintro rfl
    simp [shortEscape?] at hc
  simp only [readChars]
  split
  · next h => exact absurd h (by decide)
  · simp_all

/-- A character that is written as itself. -/
theorem readChars_self (opening fuel : Nat) {c : Char} (hq : c ≠ '"') (hb : c ≠ '\\')
    (hc : 0x20 ≤ c.toNat) (tail : List Char) : readChars opening (fuel + 1) (c :: tail) =
      (fun r => (c :: r.1, r.2)) <$> readChars opening fuel tail := by
  simp only [readChars, hq, hb, if_false, show ¬ c.toNat < 0x20 by omega]
  simp

/-- One written character is read as itself, whatever text stands behind it. -/
theorem readChars_encodeChar (opening fuel : Nat) (c e : Char) (tail : List Char) :
    readChars opening (fuel + 1) (encodeChar c ++ e :: tail) =
      (fun r => (c :: r.1, r.2)) <$> readChars opening fuel (e :: tail) := by
  dsimp only [encodeChar]
  by_cases hquote : c = '"'
  · rw [if_pos hquote, hquote]
    exact readChars_shortEscape _ _ rfl _
  rw [if_neg hquote]
  by_cases hslash : c = '\\'
  · rw [if_pos hslash, hslash]
    exact readChars_shortEscape _ _ rfl _
  rw [if_neg hslash]
  by_cases hline : c = '\n'
  · rw [if_pos hline, hline]
    exact readChars_shortEscape _ _ rfl _
  rw [if_neg hline]
  by_cases hreturn : c = '\r'
  · rw [if_pos hreturn, hreturn]
    exact readChars_shortEscape _ _ rfl _
  rw [if_neg hreturn]
  by_cases htab : c = '\t'
  · rw [if_pos htab, htab]
    exact readChars_shortEscape _ _ rfl _
  rw [if_neg htab]
  by_cases hback : c.toNat = 8
  · obtain rfl : c = '\x08' := Char.toNat_inj.1 hback
    exact readChars_shortEscape _ _ rfl _
  rw [if_neg hback]
  by_cases hfeed : c.toNat = 12
  · obtain rfl : c = '\x0c' := Char.toNat_inj.1 hfeed
    exact readChars_shortEscape _ _ rfl _
  rw [if_neg hfeed]
  by_cases hself : (decide (0x20 ≤ c.toNat) && decide (c.toNat ≤ 0x7E)) = true
  · rw [if_pos hself]
    simp only [Bool.and_eq_true, decide_eq_true_eq] at hself
    exact readChars_self _ _ hquote hslash hself.1 _
  rw [if_neg hself]
  by_cases hunit : c.toNat < 0x10000
  · have hread := readChars_unitEscape opening fuel hunit (not_isSurrogate c).1 e tail
    rw [unitChar_toNat] at hread
    rw [if_pos hunit]
    exact hread
  · obtain ⟨hhigh, hlow, hh, hl, hchar⟩ := halves_of_not_lt hunit
    have hread := readChars_pairEscape opening fuel _ _ hhigh hlow hh hl e tail
    rw [hchar] at hread
    rw [if_neg hunit, List.append_assoc]
    exact hread

theorem readChars_flatMap (opening : Nat) (rest : List Char) : ∀ (cs : List Char) (fuel : Nat),
    cs.length < fuel →
      readChars opening fuel (cs.flatMap encodeChar ++ '"' :: rest) = .ok (cs, rest)
  | [], fuel + 1, _ => by simp [readChars]
  | c :: cs, fuel + 1, h => by
    have ih := readChars_flatMap opening rest cs fuel (by simpa using h)
    obtain ⟨e, tail, htail⟩ : ∃ e tail, cs.flatMap encodeChar ++ '"' :: rest = e :: tail :=
      List.exists_cons_of_ne_nil (by simp)
    rw [List.flatMap_cons, List.append_assoc, htail, readChars_encodeChar, ← htail, ih]
    rfl

theorem encodeChar_ne_nil (c : Char) : encodeChar c ≠ [] := by
  intro h
  have := readChars_encodeChar 0 1 c '"' []
  simp [h, readChars] at this

theorem length_le_flatMap (cs : List Char) : cs.length ≤ (cs.flatMap encodeChar).length := by
  induction cs with
  | nil => simp
  | cons c cs ih =>
    have := List.length_pos_iff.2 (encodeChar_ne_nil c)
    simp only [List.length_cons, List.flatMap_cons, List.length_append]
    omega

/-- A written text is read as itself. -/
theorem readText_encodeText (s : String) (rest : List Char) :
    readText (s.toList.flatMap encodeChar ++ '"' :: rest) = .ok (s, rest) := by
  have hfuel := length_le_flatMap s.toList
  unfold readText
  rw [readChars_flatMap _ _ _ _ (by simp only [List.length_append]; omega)]
  simp [bind, Except.bind, pure, Except.pure]

/-! ## 3. Plain values -/

mutual

/-- A value of texts, arrays and objects, no object naming a field twice. -/
def IsPlain : Json → Prop
  | text _ => True
  | array items => ArePlain items
  | object fields => (fields.map (·.1)).Nodup ∧ HasPlain fields
  | _ => False

/-- Every item is plain. -/
def ArePlain : List Json → Prop
  | [] => True
  | v :: vs => IsPlain v ∧ ArePlain vs

/-- Every field has a plain value. -/
def HasPlain : List (String × Json) → Prop
  | [] => True
  | (_, v) :: fs => IsPlain v ∧ HasPlain fs

end

theorem encodeText_eq (s : String) (rest : List Char) :
    encodeText s ++ rest = '"' :: (s.toList.flatMap encodeChar ++ '"' :: rest) := by
  simp [encodeText]

/-- A plain value begins with a quote or an opening bracket. -/
theorem exists_encode_eq {v : Json} (h : IsPlain v) :
    ∃ c cs, encode v = c :: cs ∧ c ∈ ['"', '[', '\x7b'] := by
  cases v with
  | null | bool | number => simp [IsPlain] at h
  | text s => exact ⟨_, _, rfl, by simp⟩
  | array items => cases items <;> exact ⟨_, _, rfl, by simp⟩
  | object fields => rcases fields with _ | ⟨f, fs⟩ <;> exact ⟨_, _, rfl, by simp⟩

/-- Nothing is skipped before a plain value, and it closes nothing. -/
theorem skipSpace_encode {v : Json} (h : IsPlain v) (rest : List Char) :
    skipSpace (encode v ++ rest) = encode v ++ rest ∧
      (encode v ++ rest).head? ≠ some ']' := by
  obtain ⟨c, cs, heq, hc⟩ := exists_encode_eq h
  rw [heq]
  simp only [List.mem_cons, List.not_mem_nil, or_false] at hc
  rcases hc with rfl | rfl | rfl <;> exact ⟨rfl, by simp⟩

theorem encode_length_pos {v : Json} (h : IsPlain v) : 0 < (encode v).length := by
  obtain ⟨c, cs, heq, -⟩ := exists_encode_eq h
  simp [heq]

theorem encodeItems_length_pos (vs : List Json) : 0 < (encodeItems vs).length := by
  cases vs <;> simp [encodeItems]

theorem encodeFields_length_pos (fs : List (String × Json)) : 0 < (encodeFields fs).length := by
  rcases fs with _ | ⟨f, fs⟩ <;> simp [encodeFields]

/-- Fields with distinct names, written in order, stand in that order. -/
theorem ofList_fields {fs : List (String × Json)} (h : (fs.map (·.1)).Nodup) :
    (Table.ofList fs).entries = fs := by
  rw [Table.ofList, Table.empty, Table.foldl_put ⟨fun k _ => key_string k, by simpa [Table.keys]⟩]
  rfl

theorem skipSpace_blank (cs : List Char) : skipSpace (' ' :: cs) = skipSpace cs := rfl

theorem skipSpace_cons {c : Char} (h : isSpace c = false) (cs : List Char) :
    skipSpace (c :: cs) = c :: cs := by
  simp [skipSpace, h]

mutual

/-- A written plain value is read as itself, whatever stands behind it. -/
theorem readValue_encode : ∀ (fuel : Nat) {v : Json}, IsPlain v → (encode v).length ≤ fuel →
    ∀ rest, readValue fuel (encode v ++ rest) = .ok (v, rest)
  | 0, v, hv, hfuel, rest => by
    have := encode_length_pos hv
    omega
  | fuel + 1, .text s, _, _, rest => by
    simp only [encode, encodeText_eq, readValue, if_true, readText_encodeText]
    rfl
  | fuel + 1, .array [], _, _, rest => by
    simp [encode, readValue, skipSpace, isSpace]
  | fuel + 1, .array (v :: vs), hv, hfuel, rest => by
    obtain ⟨hv, hvs⟩ := hv
    simp only [encode, List.length_cons, List.length_append, List.cons_append] at hfuel
    have hitems := readItems_encode fuel hv hvs (by omega) rest
    obtain ⟨hskip, hopen⟩ := skipSpace_encode hv (encodeItems vs ++ rest)
    have hquote : ¬ '[' = '"' := by decide
    simp only [encode, List.cons_append, List.append_assoc, readValue, hquote, if_false, if_true,
      hskip]
    split
    · next h => simp [h] at hopen
    · rw [hitems]
      rfl
  | fuel + 1, .object [], _, _, rest => by
    simp [encode, readValue, skipSpace, isSpace]
  | fuel + 1, .object ((name, v) :: fs), hv, hfuel, rest => by
    obtain ⟨hnames, hv, hfs⟩ := hv
    simp only [encode, List.length_cons, List.length_append, List.cons_append] at hfuel
    have hfields := readFields_encode fuel name hv hfs (by omega) rest
    have hquote : ¬ '\x7b' = '"' := by decide
    have hbracket : ¬ '\x7b' = '[' := by decide
    rw [encodeText_eq] at hfields
    simp only [encode, List.cons_append, List.append_assoc, encodeText_eq, readValue, hquote,
      hbracket, if_false, if_true, skipSpace_cons (show isSpace '"' = false by decide)]
    split
    · next h => simp at h
    · rw [hfields]
      simp [bind, Except.bind, pure, Except.pure, ofList_fields hnames]

theorem readItems_encode : ∀ (fuel : Nat) {v : Json} {vs : List Json}, IsPlain v → ArePlain vs →
    (encode v).length + (encodeItems vs).length ≤ fuel →
    ∀ rest, readItems fuel (encode v ++ (encodeItems vs ++ rest)) = .ok (v :: vs, rest)
  | 0, v, vs, hv, _, hfuel, rest => by
    have := encode_length_pos hv
    omega
  | fuel + 1, v, [], hv, _, hfuel, rest => by
    have hvalue := readValue_encode fuel hv (by simp [encodeItems] at hfuel; omega) (']' :: rest)
    simp only [readItems, encodeItems, List.cons_append, List.nil_append, hvalue]
    rfl
  | fuel + 1, v, w :: ws, hv, hws, hfuel, rest => by
    obtain ⟨hw, hws⟩ := hws
    have hpos := encodeItems_length_pos ws
    simp only [encodeItems, List.length_cons, List.length_append, List.cons_append] at hfuel
    have hvalue := readValue_encode fuel hv (by omega)
      (',' :: ' ' :: (encode w ++ (encodeItems ws ++ rest)))
    have hitems := readItems_encode fuel hw hws (by omega) rest
    have hskip := (skipSpace_encode hw (encodeItems ws ++ rest)).1
    simp only [readItems, encodeItems, List.cons_append, List.append_assoc, hvalue]
    simp only [bind, Except.bind, skipSpace_cons (show isSpace ',' = false by decide),
      skipSpace_blank, hskip, hitems]
    rfl

theorem readFields_encode : ∀ (fuel : Nat) (name : String) {v : Json} {fs : List (String × Json)},
    IsPlain v → HasPlain fs → (encode v).length + (encodeFields fs).length ≤ fuel →
    ∀ rest, readFields fuel
      (encodeText name ++ ':' :: ' ' :: (encode v ++ (encodeFields fs ++ rest))) =
        .ok ((name, v) :: fs, rest)
  | 0, name, v, fs, hv, _, hfuel, rest => by
    have := encode_length_pos hv
    omega
  | fuel + 1, name, v, [], hv, _, hfuel, rest => by
    have hvalue := readValue_encode fuel hv (by simp [encodeFields] at hfuel; omega)
      ('\x7d' :: rest)
    have hskip := (skipSpace_encode hv ('\x7d' :: rest)).1
    simp only [encodeText_eq, encodeFields, List.cons_append, List.nil_append, readFields,
      readText_encodeText]
    simp only [bind, Except.bind, skipSpace_cons (show isSpace ':' = false by decide),
      skipSpace_blank, hskip, hvalue]
    rfl
  | fuel + 1, name, v, (other, w) :: fs, hv, hfs, hfuel, rest => by
    obtain ⟨hw, hfs⟩ := hfs
    have hpos := encodeFields_length_pos fs
    simp only [encodeFields, List.length_cons, List.length_append, List.cons_append] at hfuel
    have hvalue := readValue_encode fuel hv (by omega)
      (',' :: ' ' :: (encodeText other ++ ':' :: ' ' :: (encode w ++ (encodeFields fs ++ rest))))
    have hfields := readFields_encode fuel other hw hfs (by omega) rest
    have hskip := (skipSpace_encode hv
      (',' :: ' ' :: (encodeText other ++ ':' :: ' ' :: (encode w ++ (encodeFields fs ++ rest))))).1
    have hquote : skipSpace
        (encodeText other ++ ':' :: ' ' :: (encode w ++ (encodeFields fs ++ rest))) =
          encodeText other ++ ':' :: ' ' :: (encode w ++ (encodeFields fs ++ rest)) := by
      rw [encodeText_eq]
      rfl
    rw [encodeText_eq name]
    simp only [encodeFields, List.cons_append, List.append_assoc, readFields,
      readText_encodeText]
    simp only [bind, Except.bind, skipSpace_cons (show isSpace ':' = false by decide),
      skipSpace_cons (show isSpace ',' = false by decide), skipSpace_blank, hskip, hvalue, hquote,
      hfields]
    rfl

end

/-- A stored plain value is read back. -/
theorem ofText_write {v : Json} (h : IsPlain v) : ofText v.write = .ok v := by
  have hskip := (skipSpace_encode h []).1
  have hread := readValue_encode (2 * (encode v).length + 2) h (by omega) []
  have hmark : (encode v).head? ≠ some (Char.ofNat 0xFEFF) := by
    obtain ⟨c, cs, heq, hc⟩ := exists_encode_eq h
    simp only [List.mem_cons, List.not_mem_nil, or_false] at hc
    rw [heq, List.head?_cons, Ne, Option.some.injEq]
    rcases hc with rfl | rfl | rfl <;> decide
  simp only [List.append_nil] at hskip hread
  simp only [ofText, read, write, String.toList_ofList, readWhole, hmark, if_false, hskip, hread]
  rfl

end StyleLedger.Json
