import StyleLedger.Proofs.Store.Blobs

/-!
What a store holds in its structured texts is what was written there.

A definition, a list of declarations and a list of keyframes are each stored as one text. Whatever
characters their names and values have, the text is made of printable ASCII characters only: a
quote, a backslash and a control character are written by an escape, and a character beyond ASCII by
the codes of its one or two code units (`Json.isPrintable_encodeChar`). And the text is read back as
what it was written for.

* `Text.IsPrintable` — texts of printable ASCII characters.
* `Selector.ofText_toText`, `stored_texts_read_back` — the round trips.
-/

namespace StyleLedger

/-- Every character is a printable ASCII character. -/
def Text.IsPrintable (cs : List Char) : Prop :=
  ∀ c ∈ cs, 0x20 ≤ c.toNat ∧ c.toNat ≤ 0x7E

namespace Text.IsPrintable

theorem nil : IsPrintable [] := by
  intro c hc
  simp at hc

theorem cons {c : Char} {cs : List Char} (hc : 0x20 ≤ c.toNat ∧ c.toNat ≤ 0x7E)
    (hcs : IsPrintable cs) : IsPrintable (c :: cs) :=
  List.forall_mem_cons.2 ⟨hc, hcs⟩

theorem append {cs ds : List Char} (hcs : IsPrintable cs) (hds : IsPrintable ds) :
    IsPrintable (cs ++ ds) :=
  List.forall_mem_append.2 ⟨hcs, hds⟩

theorem ite {p : Prop} [Decidable p] {cs ds : List Char} (hcs : p → IsPrintable cs)
    (hds : ¬p → IsPrintable ds) : IsPrintable (if p then cs else ds) := by
  split
  · exact hcs ‹_›
  · exact hds ‹_›

end Text.IsPrintable

namespace Json

open Text (IsPrintable)

/-! ## 1. Written values are printable -/

theorem isPrintable_unitEscape {n : Nat} (h : n < 0x10000) : IsPrintable (unitEscape n) := by
  have hdigit : ∀ d : Fin 16,
      0x20 ≤ (Nat.digitChar d).toNat ∧ (Nat.digitChar d).toNat ≤ 0x7E := by decide
  rw [unitEscape, hexDigits_four h]
  refine .cons (by decide) (.cons (by decide) ?_)
  refine .cons (hdigit ⟨n / 4096, by omega⟩) (.cons (hdigit ⟨n / 256 % 16, by omega⟩) ?_)
  exact .cons (hdigit ⟨n / 16 % 16, by omega⟩) (.cons (hdigit ⟨n % 16, by omega⟩) .nil)

/-- A character is written by printable ones, whatever it is. -/
theorem isPrintable_encodeChar (c : Char) : IsPrintable (encodeChar c) := by
  have hshort : ∀ e : Char, 0x20 ≤ e.toNat ∧ e.toNat ≤ 0x7E → IsPrintable ['\\', e] :=
    fun e he => .cons (by decide) (.cons he .nil)
  dsimp only [encodeChar]
  refine .ite (fun _ => hshort '"' (by decide)) fun _ => ?_
  refine .ite (fun _ => hshort '\\' (by decide)) fun _ => ?_
  refine .ite (fun _ => hshort 'n' (by decide)) fun _ => ?_
  refine .ite (fun _ => hshort 'r' (by decide)) fun _ => ?_
  refine .ite (fun _ => hshort 't' (by decide)) fun _ => ?_
  refine .ite (fun _ => hshort 'b' (by decide)) fun _ => ?_
  refine .ite (fun _ => hshort 'f' (by decide)) fun _ => ?_
  refine .ite (fun hself => ?self) fun _ => .ite isPrintable_unitEscape fun hwide => ?wide
  case self =>
    simp only [Bool.and_eq_true, decide_eq_true_eq] at hself
    exact .cons hself .nil
  case wide =>
    obtain ⟨hhigh, hlow, -⟩ := halves_of_not_lt hwide
    exact (isPrintable_unitEscape hhigh).append (isPrintable_unitEscape hlow)

theorem isPrintable_encodeText (s : String) : IsPrintable (encodeText s) := by
  have hchars : IsPrintable (s.toList.flatMap encodeChar) := by
    intro c hc
    obtain ⟨d, -, hd⟩ := List.mem_flatMap.1 hc
    exact isPrintable_encodeChar d c hd
  exact (hchars.append (.cons (by decide) .nil)).cons (by decide)

mutual

theorem isPrintable_encode : ∀ {v : Json}, v.IsPlain → IsPrintable (encode v)
  | .text s, _ => isPrintable_encodeText s
  | .array [], _ => .cons (by decide) (.cons (by decide) .nil)
  | .array (_ :: _), h =>
    (isPrintable_encode h.1).append (isPrintable_encodeItems h.2) |>.cons (by decide)
  | .object [], _ => .cons (by decide) (.cons (by decide) .nil)
  | .object ((name, _) :: _), h => by
    have hname := (isPrintable_encodeText name).cons (c := '\x7b') (by decide)
    have hvalue := (isPrintable_encode h.2.1).cons (c := ' ') (by decide)
      |>.cons (c := ':') (by decide)
    exact (hname.append hvalue).append (isPrintable_encodeFields h.2.2)

theorem isPrintable_encodeItems : ∀ {vs : List Json}, ArePlain vs → IsPrintable (encodeItems vs)
  | [], _ => .cons (by decide) .nil
  | _ :: _, h =>
    ((isPrintable_encode h.1).append (isPrintable_encodeItems h.2)).cons (by decide)
      |>.cons (by decide)

theorem isPrintable_encodeFields : ∀ {fs : List (String × Json)}, HasPlain fs →
    IsPrintable (encodeFields fs)
  | [], _ => .cons (by decide) .nil
  | (name, _) :: _, h => by
    have hname := (isPrintable_encodeText name).cons (c := ' ') (by decide)
      |>.cons (c := ',') (by decide)
    have hvalue := (isPrintable_encode h.1).cons (c := ' ') (by decide)
      |>.cons (c := ':') (by decide)
    exact (hname.append hvalue).append (isPrintable_encodeFields h.2)

end

theorem isPrintable_write {v : Json} (h : v.IsPlain) : IsPrintable v.write.toList := by
  rw [write, String.toList_ofList]
  exact isPrintable_encode h

end Json

/-! ## 2. Stored texts -/

open Text (IsPrintable)

/-- A stored definition is read back from its text. -/
theorem Selector.ofText_toText {s : Selector} (h : s.IsPlain) : ofText s.toText = .ok s := by
  rw [ofText, toText, Json.ofText_write (toJson_isPlain h)]
  exact ofJson_toJson h

theorem StoredDeclaration.isPrintable_listToText {ds : List StoredDeclaration}
    (h : ∀ d ∈ ds, d.IsPlain) : IsPrintable (listToText ds).toList := by
  have hplain : (Json.array (ds.map toJson)).IsPlain :=
    Json.arePlain_map fun d hd => toJson_isPlain (h d hd)
  exact Json.isPrintable_write hplain

theorem StoredKeyframe.isPrintable_listToText {fs : List StoredKeyframe}
    (h : ∀ f ∈ fs, f.IsPlain) : IsPrintable (listToText fs).toList := by
  have hplain : (Json.array (fs.map toJson)).IsPlain :=
    Json.arePlain_map fun f hf => toJson_isPlain (h f hf)
  exact Json.isPrintable_write hplain

/-- What is stored as a text is read back from that text as it was, and the text is made of
printable characters: a definition, a list of declarations and a list of keyframes. -/
theorem stored_texts_read_back :
    (∀ s : Selector, s.IsPlain →
      Selector.ofText s.toText = .ok s ∧ IsPrintable s.toText.toList) ∧
    (∀ ds : List StoredDeclaration, (∀ d ∈ ds, d.IsPlain) →
      StoredDeclaration.listOfText (.text (StoredDeclaration.listToText ds)) = .ok ds ∧
        IsPrintable (StoredDeclaration.listToText ds).toList) ∧
    (∀ fs : List StoredKeyframe, (∀ f ∈ fs, f.IsPlain) →
      StoredKeyframe.listOfText (.text (StoredKeyframe.listToText fs)) = .ok fs ∧
        IsPrintable (StoredKeyframe.listToText fs).toList) := by
  refine ⟨?definitions, ?declarations, ?keyframes⟩
  case definitions =>
    intro s hs
    exact ⟨Selector.ofText_toText hs, Json.isPrintable_write (Selector.toJson_isPlain hs)⟩
  case declarations =>
    intro ds hds
    exact ⟨StoredDeclaration.listOfText_listToText hds,
      StoredDeclaration.isPrintable_listToText hds⟩
  case keyframes =>
    intro fs hfs
    exact ⟨StoredKeyframe.listOfText_listToText hfs, StoredKeyframe.isPrintable_listToText hfs⟩

/-- An attribute selector with a quote, a backslash and a line end in its name, a character beyond
the first plane as its value, and neither an operator nor a flag. -/
theorem stored_texts_read_back_attr :
    let s : Selector := .attr (.text "a\"\\\n\x7f") (.text "é😀") .null .null
    Selector.ofText s.toText = .ok s ∧
      s.toText = "\x7b\"kind\": \"Attr\", \"name\": \"a\\\"\\\\\\n\\u007f\", " ++
        "\"value\": \"\\u00e9\\ud83d\\ude00\"\x7d" := by
  intro s
  have hs : s.IsPlain := ⟨⟨_, rfl⟩, .inr ⟨_, rfl⟩, .inl rfl, .inl rfl⟩
  exact ⟨(stored_texts_read_back.1 s hs).1, by decide⟩

end StyleLedger
