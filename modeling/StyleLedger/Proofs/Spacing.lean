import Mathlib.Data.List.Infix
import StyleLedger.Proofs.Value

/-!
The spacing macro in a value.

A value from which the macro was expanded holds no macro: the sizes that take its place have no
character in common with it, so none can come about around them (`not_holdsMacro_expandSpacing`).
References to tokens are replaced by texts that the macro cannot reach into either, and so no macro
comes about when they are replaced, unless the prefix of the custom properties brings one along
(`not_holdsMacro_substituteTokens`).

* `Value.Macro` — what a macro looks like.
* `Value.HoldsMacro` — somewhere in a value a macro stands.
-/

namespace StyleLedger.Value

open Text

/-! ## 1. Macros -/

/-- What a spacing macro looks like: its name in any letter case, and brackets with blanks
between them. -/
structure Macro where
  name : List Char
  blanks : List Char
  isName : name.map asciiLower = "butter".toList
  isBlank_blanks : ∀ c ∈ blanks, isBlank c = true

/-- The text of a macro. -/
def Macro.text (m : Macro) : List Char :=
  m.name ++ '(' :: (m.blanks ++ [')'])

/-- Somewhere in a value a macro stands. -/
def HoldsMacro (value : String) : Prop :=
  ∃ m : Macro, m.text <:+: value.toList

theorem asciiLower_eq_bracket {c : Char} (h : asciiLower c = '(') : c = '(' := by
  unfold asciiLower at h
  split at h
  · next hr =>
    -- the small form of a capital is a small letter
    simp only [Bool.and_eq_true, decide_eq_true_eq, Char.le_def, UInt32.le_iff_toNat_le] at hr
    have hA : 'A'.val.toNat = 65 := rfl
    have hZ : 'Z'.val.toNat = 90 := rfl
    have hc : c.toNat = c.val.toNat := rfl
    have hvalid : (c.toNat + 32).isValidChar := by
      left
      omega
    rw [Char.ofNat, dif_pos hvalid] at h
    have hbracket : c.toNat + 32 = '('.toNat := congrArg Char.toNat h
    have h40 : '('.toNat = 40 := rfl
    omega
  · exact h

/-- The macro is found where one stands, and nowhere else. -/
theorem macroExtent_ne_zero_iff {cs : List Char} :
    macroExtent cs ≠ 0 ↔ ∃ m : Macro, m.text <+: cs := by
  constructor
  · intro h
    simp only [macroExtent, ne_eq, ite_eq_right_iff, Classical.not_imp, Bool.and_eq_true,
      beq_iff_eq] at h
    obtain ⟨⟨hname, hbracket⟩, -⟩ := h
    have hopening : "butter(".toList = "butter".toList ++ ['('] := rfl
    obtain ⟨name, last, hfront, hname, hlast⟩ :=
      List.map_eq_append_iff.1 (hname.trans hopening)
    obtain ⟨c, rfl, hc⟩ := List.map_eq_singleton_iff.1 hlast
    obtain rfl := asciiLower_eq_bracket hc
    rw [← List.drop_drop] at hbracket
    obtain ⟨rest, hrest⟩ := List.head?_eq_some_iff.1 hbracket
    set back := cs.drop "butter(".toList.length
    have hback : back.takeWhile isBlank ++ ')' :: rest = back := by
      rw [← hrest]
      exact List.prefix_iff_eq_append.1 (List.takeWhile_prefix isBlank)
    refine ⟨⟨name, back.takeWhile isBlank, hname, fun c hc => List.mem_takeWhile_imp hc⟩, rest, ?_⟩
    calc (name ++ '(' :: (back.takeWhile isBlank ++ [')'])) ++ rest
      _ = (name ++ ['(']) ++ (back.takeWhile isBlank ++ ')' :: rest) := by simp
      _ = cs.take "butter(".toList.length ++ back := by rw [hback, hfront]
      _ = cs := List.take_append_drop _ _
  · rintro ⟨m, rest, rfl⟩
    have hlength : m.name.length = 6 := by
      rw [← List.length_map asciiLower, m.isName]
      rfl
    have htext : m.text ++ rest = (m.name ++ ['(']) ++ (m.blanks ++ ')' :: rest) := by
      simp [Macro.text]
    have htake : (m.text ++ rest).take 7 = m.name ++ ['('] := by
      rw [htext]
      exact List.take_left' (by simp [hlength])
    have hdrop : (m.text ++ rest).drop 7 = m.blanks ++ ')' :: rest := by
      rw [htext]
      exact List.drop_left' (by simp [hlength])
    have hblanks : (m.blanks ++ ')' :: rest).takeWhile isBlank = m.blanks := by
      rw [List.takeWhile_append_of_pos m.isBlank_blanks, List.takeWhile_cons_of_neg (by decide),
        List.append_nil]
    have hname : (m.name ++ ['(']).map asciiLower = "butter(".toList := by
      rw [List.map_append, m.isName]
      rfl
    have hseven : "butter(".toList.length = 7 := rfl
    simp only [macroExtent, hseven, htake, ← List.drop_drop, hdrop, hblanks, List.drop_left, hname]
    simp

/-- A value holds a macro when one is found at the front of some rest of it. -/
theorem holdsMacro_iff {value : String} :
    HoldsMacro value ↔ ∃ rest, rest <:+ value.toList ∧ macroExtent rest ≠ 0 := by
  simp only [HoldsMacro, macroExtent_ne_zero_iff, List.infix_iff_prefix_suffix]
  exact ⟨fun ⟨m, rest, hbegins, hsuffix⟩ => ⟨rest, hsuffix, m, hbegins⟩,
    fun ⟨rest, hsuffix, m, hbegins⟩ => ⟨m, rest, hbegins, hsuffix⟩⟩

theorem occurs_iff {shape : List Char → Nat} {cs : List Char} :
    occurs shape cs = true ↔ ∃ rest, rest <:+ cs ∧ shape rest ≠ 0 := by
  induction cs with
  | nil => simp [occurs]
  | cons c cs ih => simp [occurs, ih, List.suffix_cons_iff]

instance (value : String) : Decidable (HoldsMacro value) :=
  decidable_of_iff (occurs macroExtent value.toList = true) (occurs_iff.trans holdsMacro_iff.symm)

/-! ## 2. Replaced pieces -/

/-- A character that occurs in macros. -/
def isMacroChar (c : Char) : Bool :=
  "butter()".toList.contains (asciiLower c) || isBlank c

theorem Macro.isMacroChar_of_mem (m : Macro) : ∀ c ∈ m.text, isMacroChar c = true := by
  intro c hc
  rcases List.mem_append.1 hc with hc | hc
  · have hlower : asciiLower c ∈ "butter".toList := m.isName ▸ List.mem_map_of_mem hc
    have hmem : asciiLower c ∈ "butter()".toList := List.mem_append_left "()".toList hlower
    rw [isMacroChar, List.contains_iff_mem.2 hmem, Bool.true_or]
  · rcases List.mem_cons.1 hc with rfl | hc
    · decide
    · rcases List.mem_append.1 hc with hc | hc
      · rw [isMacroChar, m.isBlank_blanks c hc, Bool.or_true]
      · obtain rfl := List.mem_singleton.1 hc
        decide

theorem Macro.text_ne_nil (m : Macro) : m.text ≠ [] := by
  simp [Macro.text]

variable {shape : List Char → Nat} {replace : List Char → List Char}

/-- What is replaced begins with a character that no macro has. -/
def BreaksMacros (replace : List Char → List Char) : Prop :=
  ∀ piece, ∃ c cs, replace piece = c :: cs ∧ isMacroChar c = false

/-- A macro's text that follows a character that was kept has been there before. -/
theorem prefix_of_prefix_replaceFrom (hbreaks : BreaksMacros replace) {text cs : List Char}
    (htext : ∀ c ∈ text, isMacroChar c = true) (h : text <+: replaceFrom shape replace 0 cs) :
    text <+: cs := by
  induction cs generalizing text with
  | nil => exact h
  | cons c cs ih =>
    cases text with
    | nil => exact List.nil_prefix
    | cons a text =>
      obtain ⟨ha, htext⟩ := List.forall_mem_cons.1 htext
      rw [replaceFrom] at h
      split at h
      · obtain ⟨rfl, htail⟩ := List.cons_prefix_cons.1 h
        exact List.cons_prefix_cons.2 ⟨rfl, ih htext htail⟩
      · next n hn =>
        obtain ⟨b, bs, hb, hnot⟩ := hbreaks ((c :: cs).take (n + 1))
        rw [hb, List.cons_append] at h
        obtain ⟨rfl, -⟩ := List.cons_prefix_cons.1 h
        exact absurd ha (by simp [hnot])

/-- A macro in a text whose pieces were replaced begins where one has been before, at a character
that was kept, or it begins in the place of a piece. -/
theorem exists_of_macro_replaceFrom (hbreaks : BreaksMacros replace) {m : Macro} {skip : Nat}
    {cs : List Char} (h : m.text <:+: replaceFrom shape replace skip cs) :
    (∃ rest, rest <:+ cs ∧ shape rest = 0 ∧ m.text <+: rest) ∨
      ∃ piece front back, .piece piece ∈ partitionFrom shape skip cs ∧ front ≠ [] ∧
        front <:+ replace piece ∧ m.text <+: front ++ back := by
  induction cs generalizing skip with
  | nil => simp [replaceFrom, Macro.text] at h
  | cons c cs ih =>
    -- what holds behind the first part holds of the whole
    have htail : ∀ {skip skip'}, m.text <:+: replaceFrom shape replace skip cs →
        (∀ piece, .piece piece ∈ partitionFrom shape skip cs →
          .piece piece ∈ partitionFrom shape skip' (c :: cs)) →
        (∃ rest, rest <:+ c :: cs ∧ shape rest = 0 ∧ m.text <+: rest) ∨
          ∃ piece front back, .piece piece ∈ partitionFrom shape skip' (c :: cs) ∧ front ≠ [] ∧
            front <:+ replace piece ∧ m.text <+: front ++ back := by
      intro skip skip' h hpieces
      rcases ih h with ⟨rest, hsuffix, hshape, hbegins⟩ | ⟨piece, front, back, hpiece, hrest⟩
      · exact .inl ⟨rest, hsuffix.trans (List.suffix_cons c cs), hshape, hbegins⟩
      · exact .inr ⟨piece, front, back, hpieces piece hpiece, hrest⟩
    cases skip with
    | succ n => exact htail h fun _ hpiece => hpiece
    | zero =>
      rw [replaceFrom] at h
      cases hshape : shape (c :: cs) with
      | zero =>
        rw [hshape] at h
        rcases List.infix_cons_iff.1 h with hbegins | hinfix
        · have hkept : replaceFrom shape replace 0 (c :: cs) =
              c :: replaceFrom shape replace 0 cs := by
            rw [replaceFrom, hshape]
          exact .inl ⟨c :: cs, List.suffix_rfl, hshape,
            prefix_of_prefix_replaceFrom hbreaks m.isMacroChar_of_mem (hkept ▸ hbegins)⟩
        · refine htail hinfix fun piece hpiece => ?_
          rw [partitionFrom, hshape]
          exact List.mem_cons_of_mem _ hpiece
      | succ n =>
        rw [hshape] at h
        have hfirst : .piece ((c :: cs).take (n + 1)) ∈ partitionFrom shape 0 (c :: cs) := by
          rw [partitionFrom, hshape]
          exact List.mem_cons_self
        have hpieces : ∀ piece, .piece piece ∈ partitionFrom shape n cs →
            .piece piece ∈ partitionFrom shape 0 (c :: cs) := by
          intro piece hpiece
          rw [partitionFrom, hshape]
          exact List.mem_cons_of_mem _ hpiece
        have hbehind : m.text <:+: replaceFrom shape replace n cs → _ := fun hinfix =>
          htail hinfix hpieces
        rcases List.infix_append_iff.1 h with hinfix | hinfix | ⟨front, back, htext, hfront, hback⟩
        · obtain ⟨front, hbegins, hsuffix⟩ := List.infix_iff_prefix_suffix.1 hinfix
          refine .inr ⟨_, front, [], hfirst, ?_, hsuffix, by rwa [List.append_nil]⟩
          rintro rfl
          exact m.text_ne_nil (List.prefix_nil.1 hbegins)
        · exact hbehind hinfix
        · by_cases hnil : front = []
          · refine hbehind ?_
            rw [htext, hnil, List.nil_append]
            exact hback.isInfix
          · exact .inr ⟨_, front, back, hfirst, hnil, hfront, htext ▸ List.prefix_rfl⟩

/-! ## 3. Expanded values -/

/-- A size has no character in common with a macro. -/
theorem isMacroChar_spacingSize (mode : Json) :
    (spacingSize mode).toList ≠ [] ∧ ∀ c ∈ (spacingSize mode).toList, isMacroChar c = false := by
  have hmem : spacingSize mode ∈ ["4px", "12px", "24px", "8px"] := by
    simp only [spacingSize, spacingSizes, List.lookup_cons]
    repeat' split
    all_goals simp
  have hall : ∀ size ∈ ["4px", "12px", "24px", "8px"],
      size.toList ≠ [] ∧ size.toList.all fun c => !isMacroChar c := by
    decide
  simpa using hall _ hmem

/-- No macro is left in a value from which the macro was expanded. -/
theorem not_holdsMacro_expandSpacing (mode : Json) (value : String) :
    ¬HoldsMacro (expandSpacing mode value) := by
  obtain ⟨hne, hchars⟩ := isMacroChar_spacingSize mode
  have hbreaks : BreaksMacros fun _ => (spacingSize mode).toList := fun _ => by
    obtain ⟨c, cs, hsize⟩ := List.exists_cons_of_ne_nil hne
    exact ⟨c, cs, hsize, hchars c (hsize ▸ List.mem_cons_self)⟩
  rintro ⟨m, h⟩
  rw [expandSpacing, String.toList_ofList] at h
  rcases exists_of_macro_replaceFrom hbreaks h with
    ⟨rest, -, hshape, hbegins⟩ | ⟨piece, front, back, -, hfront, hsuffix, hbegins⟩
  · exact macroExtent_ne_zero_iff.2 ⟨m, hbegins⟩ hshape
  · -- the macro would begin with a character of the size
    obtain ⟨c, front, rfl⟩ := List.exists_cons_of_ne_nil hfront
    obtain ⟨d, text, htext⟩ := List.exists_cons_of_ne_nil m.text_ne_nil
    rw [htext] at hbegins
    obtain ⟨rfl, -⟩ := List.cons_prefix_cons.1 hbegins
    have hmacro := m.isMacroChar_of_mem d (htext ▸ List.mem_cons_self)
    rw [hchars d (hsuffix.subset List.mem_cons_self)] at hmacro
    exact Bool.noConfusion hmacro

/-! ## 4. Replaced references -/

theorem isBlank_eq_false_of_isNameChar {c : Char} (h : isNameChar c = true) :
    isBlank c = false := by
  by_contra hblank
  rw [Bool.not_eq_false] at hblank
  simp only [isNameChar, isAsciiLetter, isAsciiDigit, Bool.or_eq_true, Bool.and_eq_true,
    decide_eq_true_eq, beq_iff_eq, Char.le_def, UInt32.le_iff_toNat_le] at h
  rcases h with (((h | h) | h) | rfl) | rfl
  · change 97 ≤ c.toNat ∧ c.toNat ≤ 122 at h
    simp only [isBlank, Bool.or_eq_true, Bool.and_eq_true, decide_eq_true_eq, beq_iff_eq] at hblank
    omega
  · change 65 ≤ c.toNat ∧ c.toNat ≤ 90 at h
    simp only [isBlank, Bool.or_eq_true, Bool.and_eq_true, decide_eq_true_eq, beq_iff_eq] at hblank
    omega
  · change 48 ≤ c.toNat ∧ c.toNat ≤ 57 at h
    simp only [isBlank, Bool.or_eq_true, Bool.and_eq_true, decide_eq_true_eq, beq_iff_eq] at hblank
    omega
  · exact absurd hblank (by decide)
  · exact absurd hblank (by decide)

/-- A macro has no bracket that closes but its last character. -/
theorem Macro.bracket_not_mem (m : Macro) : ')' ∉ m.name ++ '(' :: m.blanks := by
  intro h
  rcases List.mem_append.1 h with h | h
  · have hlower : asciiLower ')' ∈ "butter".toList := m.isName ▸ List.mem_map_of_mem h
    exact absurd hlower (by decide)
  · rcases List.mem_cons.1 h with h | h
    · exact absurd h (by decide)
    · exact absurd (m.isBlank_blanks ')' h) (by decide)

theorem Macro.text_eq_concat (m : Macro) : m.text = (m.name ++ '(' :: m.blanks) ++ [')'] := by
  simp [Macro.text]

/-- No macro goes on behind a bracket that closes. -/
theorem Macro.prefix_of_bracket {m : Macro} {front back : List Char}
    (h : m.text <+: front ++ [')'] ++ back) : m.text <+: front ++ [')'] := by
  rcases List.prefix_or_prefix_of_prefix h (List.prefix_append _ _) with hin | ⟨more, hmore⟩
  · exact hin
  · rcases List.eq_nil_or_concat more with rfl | ⟨more, c, rfl⟩
    · rw [← hmore, List.append_nil]
    · rw [m.text_eq_concat, List.concat_eq_append, ← List.append_assoc] at hmore
      obtain ⟨hfront, -⟩ := List.append_inj' hmore rfl
      exact absurd (hfront ▸ by simp) m.bracket_not_mem

/-- A macro in a text that ends in a name and a bracket stands before the name: one that went on
into the name would have its first character among the blanks between its brackets. -/
theorem Macro.infix_of_name {m : Macro} {front name : List Char}
    (hchars : ∀ c ∈ name, isNameChar c = true) (hne : name ≠ [])
    (h : m.text <:+: front ++ (name ++ [')'])) : m.text <:+: front := by
  have hopened : '(' ∈ m.text := by simp [Macro.text]
  have hunopened : '(' ∉ name ++ [')'] := by
    intro hin
    rcases List.mem_append.1 hin with hin | hin
    · exact absurd (hchars '(' hin) (by decide)
    · exact absurd hin (by decide)
  rcases List.infix_append_iff.1 h with hin | hin | ⟨before, behind, htext, hbefore, hbehind⟩
  · exact hin
  · exact absurd (hin.subset hopened) hunopened
  cases behind with
  | nil =>
    rw [htext, List.append_nil]
    exact hbefore.isInfix
  | cons b behind =>
    have hb : isNameChar b = true := by
      obtain ⟨d, rest, hcons⟩ := List.exists_cons_of_ne_nil hne
      rw [hcons, List.cons_append] at hbehind
      obtain ⟨rfl, -⟩ := List.cons_prefix_cons.1 hbehind
      exact hchars b (hcons ▸ List.mem_cons_self)
    have hbetween : b ∉ m.blanks ++ [')'] := by
      intro hmem
      rcases List.mem_append.1 hmem with hmem | hmem
      · exact absurd (m.isBlank_blanks b hmem) (by simp [isBlank_eq_false_of_isNameChar hb])
      · obtain rfl := List.mem_singleton.1 hmem
        exact absurd hb (by decide)
    have hsplit : (m.name ++ ['(']) ++ (m.blanks ++ [')']) = before ++ b :: behind := by
      rw [← htext]
      simp [Macro.text]
    rcases List.append_eq_append_iff.1 hsplit with ⟨cs, -, hcs⟩ | ⟨cs, hcs, hbehind'⟩
    · exact absurd (hcs ▸ by simp) hbetween
    · rcases List.suffix_concat_iff.1 (⟨before, hcs.symm⟩ : cs <:+ m.name ++ ['(']) with
        rfl | ⟨ds, rfl, -⟩
      · exact absurd (hbehind' ▸ by simp) hbetween
      · exact absurd (hbehind.subset (hbehind' ▸ by simp)) hunopened

/-- The custom property of a token holds no macro, unless its prefix does. -/
theorem not_infix_variableCall {tokenPrefix : String} (hbegins : ¬HoldsMacro tokenPrefix)
    {piece : List Char} (hname : referencedName piece ≠ "") (m : Macro) :
    ¬m.text <:+: variableCall tokenPrefix piece := by
  intro h
  set name := (referencedName piece).toList.map fun c => if isNameChar c then c else '-' with hdef
  have hchars : ∀ c ∈ name, isNameChar c = true := by
    intro c hc
    obtain ⟨d, -, rfl⟩ := List.mem_map.1 hc
    split
    · next hd => exact hd
    · decide
  have hne : name ≠ [] := by
    rw [hdef]
    simpa using hname
  have hrest : ¬m.text <:+: tokenPrefix.toList ++ (name ++ [')']) := fun hin =>
    hbegins ⟨m, Macro.infix_of_name hchars hne hin⟩
  have hcall : variableCall tokenPrefix piece =
      "var(--".toList ++ (tokenPrefix.toList ++ (name ++ [')'])) := by
    simp [variableCall, tokenVariable, hdef]
  rw [hcall] at h
  rcases List.infix_append_iff.1 h with hin | hin | ⟨front, back, htext, hfront, hback⟩
  · have hclosed : ')' ∈ m.text := by simp [Macro.text]
    exact absurd (hin.subset hclosed) (by decide)
  · exact hrest hin
  · rcases List.suffix_concat_iff.1 (show front <:+ "var(-".toList ++ ['-'] from hfront) with
      rfl | ⟨ds, rfl, -⟩
    · rw [List.nil_append] at htext
      exact hrest (htext ▸ hback.isInfix)
    · -- the macro would hold a hyphen
      have hhyphen := m.isMacroChar_of_mem '-' (htext ▸ by simp)
      exact absurd hhyphen (by decide)

/-- No macro comes about when references are replaced. -/
theorem not_holdsMacro_substituteTokens {tokenPrefix value : String}
    (hbegins : ¬HoldsMacro tokenPrefix) (hvalue : ¬HoldsMacro value) :
    ¬HoldsMacro (substituteTokens tokenPrefix value) := by
  have hbreaks : BreaksMacros (variableCall tokenPrefix) := fun piece =>
    ⟨'v', "ar(".toList ++ ((tokenVariable tokenPrefix (referencedName piece)).toList ++ [')']),
      by simp [variableCall], by decide⟩
  rintro ⟨m, h⟩
  rw [substituteTokens, String.toList_ofList] at h
  rcases exists_of_macro_replaceFrom hbreaks h with
    ⟨rest, hsuffix, -, hfront⟩ | ⟨piece, front, back, hpiece, hne, hsuffix, hfront⟩
  · exact hvalue ⟨m, hfront.isInfix.trans hsuffix.isInfix⟩
  · obtain ⟨r, n, rfl, hr⟩ := exists_reference_of_piece_mem hpiece
    have hname : referencedName r.text ≠ "" := by
      simp [referencedName, hr, r.name_ne_nil]
    obtain ⟨call, hcall⟩ : ∃ call, variableCall tokenPrefix r.text = call ++ [')'] :=
      ⟨"var(".toList ++ (tokenVariable tokenPrefix (referencedName r.text)).toList,
        by simp [variableCall]⟩
    rw [hcall] at hsuffix
    rcases List.suffix_concat_iff.1 hsuffix with rfl | ⟨front, rfl, -⟩
    · exact hne rfl
    · refine not_infix_variableCall hbegins hname m ?_
      rw [hcall]
      exact (Macro.prefix_of_bracket hfront).isInfix.trans hsuffix.isInfix

end StyleLedger.Value
