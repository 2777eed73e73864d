import StyleLedger.Project
import StyleLedger.Proofs.Disk
import StyleLedger.Proofs.Json.Lines

/-!
Settings come back from the file they are written to.

A configuration file is written in the long form, in which every character is an ASCII one and none
is a carriage return (`Json.isFileSafe_encodeLines`); so the bytes of the file are its characters,
and no line end is replaced when they are read (`Text.ofFile_encode`). The fields are then checked
and completed one by one, which changes none that have been written: texts are texts, the setting
for semicolons is a truth value, and the layers are a list of texts. Only a forced spacing mode has
no field.

* `ProjectConfig.load_toText` — the settings in a text.
* `Project.loadConfig_of_write` — the settings on a disk.
-/

namespace StyleLedger

open Outcome

/-! ## 1. Texts that a file keeps -/

namespace Text

/-- An ASCII character that is not replaced as a line end. -/
def isFileSafe (c : Char) : Bool :=
  decide (c.toNat < 0x80) && c != '\r'

theorem decodeFrom_encode : ∀ {cs : List Char} (offset : Nat), (∀ c ∈ cs, isFileSafe c = true) →
    Utf8.decodeFrom offset 0 (cs.flatMap Utf8.encodeChar) = .ok cs
  | [], _, _ => rfl
  | c :: cs, offset, h => by
    obtain ⟨hc, hcs⟩ := List.forall_mem_cons.1 h
    obtain ⟨hascii, -⟩ := Bool.and_eq_true_iff.1 hc
    have hlt : c.toNat < 0x80 := of_decide_eq_true hascii
    have hbyte : c.toNat.toUInt8.toNat = c.toNat := by
      simp only [Nat.toUInt8_eq, UInt8.toNat_ofNat']
      omega
    have hfirst : ∀ bs, Utf8.decodeFirst c.toNat.toUInt8 bs = .ok (c, 1) := by
      intro bs
      unfold Utf8.decodeFirst
      rw [if_pos (UInt8.lt_iff_toNat_lt.2 (hbyte.symm ▸ hlt)), hbyte, Char.ofNat_toNat]
    have hrest := decodeFrom_encode (offset + 1) hcs
    simp only [List.flatMap_cons, Utf8.encodeChar, hlt, if_true, List.singleton_append,
      Utf8.decodeFrom, hfirst]
    rw [hrest]
    rfl

theorem unifyLineEnds_of_isFileSafe : ∀ {cs : List Char}, (∀ c ∈ cs, isFileSafe c = true) →
    unifyLineEnds cs = cs
  | [], _ => rfl
  | [c], h => by
    have hc : c ≠ '\r' := by
      rintro rfl
      simp [isFileSafe] at h
    simp [unifyLineEnds, hc]
  | c :: d :: cs, h => by
    obtain ⟨hc, hrest⟩ := List.forall_mem_cons.1 h
    have hne : c ≠ '\r' := by
      rintro rfl
      simp [isFileSafe] at hc
    simp [unifyLineEnds, hne, unifyLineEnds_of_isFileSafe hrest]

/-- A text of such characters is read from its file as it is. -/
theorem ofFile_encode {s : String} (h : ∀ c ∈ s.toList, isFileSafe c = true) :
    ofFile (Utf8.encode s) = .ok s := by
  simp only [ofFile, Utf8.decode, Utf8.encode, decodeFrom_encode 0 h, Except.map,
    unifyLineEnds_of_isFileSafe h, String.ofList_toList]

end Text

/-! ## 2. The long form -/

namespace Json

open Text (isFileSafe)

theorem isFileSafe_unitEscape {n : Nat} (h : n < 0x10000) :
    ∀ c ∈ unitEscape n, isFileSafe c = true := by
  have hdigit : ∀ d : Fin 16, isFileSafe (Nat.digitChar d) = true := by decide
  have hone : ∀ d, d < 16 → isFileSafe (Nat.digitChar d) = true := fun d hd => hdigit ⟨d, hd⟩
  rw [unitEscape, hexDigits_four h]
  simp only [List.forall_mem_cons, List.not_mem_nil, false_implies, implies_true, and_true]
  exact ⟨rfl, rfl, hone _ (by omega), hone _ (by omega), hone _ (by omega), hone _ (by omega)⟩

theorem isFileSafe_encodeChar (c : Char) : ∀ d ∈ encodeChar c, isFileSafe d = true := by
  dsimp only [encodeChar]
  split_ifs with hquote hslash hline hreturn htab hback hfeed hself hunit
  · exact List.all_eq_true.1 rfl
  · exact List.all_eq_true.1 rfl
  · exact List.all_eq_true.1 rfl
  · exact List.all_eq_true.1 rfl
  · exact List.all_eq_true.1 rfl
  · exact List.all_eq_true.1 rfl
  · exact List.all_eq_true.1 rfl
  · simp only [Bool.and_eq_true, decide_eq_true_eq] at hself
    simp only [List.mem_singleton, forall_eq, isFileSafe, Bool.and_eq_true, decide_eq_true_eq,
      bne_iff_ne]
    exact ⟨by omega, hreturn⟩
  · exact isFileSafe_unitEscape hunit
  · obtain ⟨hhigh, hlow, -⟩ := halves_of_not_lt hunit
    exact List.forall_mem_append.2 ⟨isFileSafe_unitEscape hhigh, isFileSafe_unitEscape hlow⟩

theorem isFileSafe_encodeText (s : String) : ∀ c ∈ encodeText s, isFileSafe c = true := by
  have htext : ∀ c ∈ s.toList.flatMap encodeChar, isFileSafe c = true := by
    intro c hc
    obtain ⟨d, -, hd⟩ := List.mem_flatMap.1 hc
    exact isFileSafe_encodeChar d c hd
  rw [encodeText, List.cons_append, List.forall_mem_cons, List.forall_mem_append]
  exact ⟨rfl, htext, List.all_eq_true.1 rfl⟩

theorem isFileSafe_newline (level : Nat) : ∀ c ∈ newline level, isFileSafe c = true := by
  rw [newline, List.forall_mem_cons]
  refine ⟨rfl, fun c hc => ?_⟩
  rw [List.eq_of_mem_replicate hc]
  rfl

mutual

/-- The long form of a value is the same in a file. -/
theorem isFileSafe_encodeLines : ∀ (level : Nat) {v : Json}, IsNumberless v →
    ∀ c ∈ encodeLines level v, isFileSafe c = true
  | _, .null, _ | _, .bool true, _ | _, .bool false, _ | _, .array [], _ | _, .object [], _ => by
    simp only [encodeLines, encode]
    exact List.all_eq_true.1 rfl
  | _, .text s, _ => by
    simp only [encodeLines, encode]
    exact isFileSafe_encodeText s
  | level, .array (v :: vs), hv => by
    have hvalue := isFileSafe_encodeLines (level + 1) hv.1
    have hitems := isFileSafe_itemLines (level + 1) hv.2
    simp only [encodeLines, List.cons_append, List.forall_mem_cons, List.forall_mem_append]
    exact ⟨rfl, ⟨⟨⟨isFileSafe_newline _, hvalue⟩, hitems⟩, isFileSafe_newline _⟩, rfl, by simp⟩
  | level, .object ((name, v) :: fs), hv => by
    have hvalue := isFileSafe_encodeLines (level + 1) hv.2.1
    have hfields := isFileSafe_fieldLines (level + 1) hv.2.2
    simp only [encodeLines, List.cons_append, List.forall_mem_cons, List.forall_mem_append]
    exact ⟨rfl, ⟨⟨⟨⟨isFileSafe_newline _, isFileSafe_encodeText _⟩, rfl, rfl, hvalue⟩, hfields⟩,
      isFileSafe_newline _⟩, rfl, by simp⟩

theorem isFileSafe_itemLines : ∀ (level : Nat) {vs : List Json}, AreNumberless vs →
    ∀ c ∈ itemLines level vs, isFileSafe c = true
  | _, [], _ => by simp [itemLines]
  | level, v :: vs, hv => by
    have hvalue := isFileSafe_encodeLines level hv.1
    have hitems := isFileSafe_itemLines level hv.2
    simp only [itemLines, List.cons_append, List.forall_mem_cons, List.forall_mem_append]
    exact ⟨rfl, ⟨isFileSafe_newline _, hvalue⟩, hitems⟩

theorem isFileSafe_fieldLines : ∀ (level : Nat) {fs : List (String × Json)}, HasNumberless fs →
    ∀ c ∈ fieldLines level fs, isFileSafe c = true
  | _, [], _ => by simp [fieldLines]
  | level, (name, v) :: fs, hv => by
    have hvalue := isFileSafe_encodeLines level hv.1
    have hfields := isFileSafe_fieldLines level hv.2
    simp only [fieldLines, List.cons_append, List.forall_mem_cons, List.forall_mem_append]
    exact ⟨rfl, ⟨⟨isFileSafe_newline _, isFileSafe_encodeText _⟩, rfl, rfl, hvalue⟩, hfields⟩

end

end Json

/-! ## 3. Settings -/

namespace ProjectConfig

/-- The settings as a value. -/
def fields (c : ProjectConfig) : List (String × Json) :=
  [("outFile", .text c.outFile), ("strictSemicolons", .bool c.strictSemicolons),
    ("defaultLayers", .array (c.compiler.defaultLayers.map .text)),
    ("tokenVarPrefix", .text c.compiler.tokenPrefix)]

theorem toText_eq (c : ProjectConfig) : c.toText = (Json.object c.fields).writeLines ++ "\n" := rfl

theorem isNumberless_fields (c : ProjectConfig) : (Json.object c.fields).IsNumberless := by
  have hlayers : ∀ layers : List String, Json.AreNumberless (layers.map .text) := by
    intro layers
    induction layers with
    | nil => trivial
    | cons layer layers ih => exact ⟨trivial, ih⟩
  have hnames : (c.fields.map (·.1)).Nodup := by
    show ["outFile", "strictSemicolons", "defaultLayers", "tokenVarPrefix"].Nodup
    decide
  exact ⟨hnames, trivial, trivial, hlayers _, trivial, trivial⟩

theorem textsOf?_texts (layers : List String) :
    textsOf? (.array (layers.map .text)) = some layers := by
  simp only [textsOf?, List.mapM_map, Function.comp_def]
  induction layers with
  | nil => rfl
  | cons layer layers ih => simp [List.mapM_cons, ih]

/-- Checking the fields and completing them changes nothing but a forced spacing mode. -/
theorem ofFields_fields (c : ProjectConfig) (env : Environment) : ofFields c.fields env =
    .ok { c with compiler := { c.compiler with forcedSpacing := none }.withEnvironment env } := by
  have houtFile : Json.field? "outFile" c.fields = some (.text c.outFile) := rfl
  have hstrict : Json.field? "strictSemicolons" c.fields = some (.bool c.strictSemicolons) := rfl
  have hlayers : Json.field? "defaultLayers" c.fields =
      some (.array (c.compiler.defaultLayers.map .text)) := rfl
  have hprefix : Json.field? "tokenVarPrefix" c.fields = some (.text c.compiler.tokenPrefix) := rfl
  simp only [ofFields, textSetting, houtFile, hstrict, hlayers, hprefix, Option.map_some,
    Option.getD_some, textsOf?_texts, Json.shown_text]
  rfl

/-- Settings are read from their own text, and then the environment is put over them. -/
theorem load_toText (c : ProjectConfig) (env : Environment) : load (some c.toText) env =
    .ok { c with compiler := { c.compiler with forcedSpacing := none }.withEnvironment env } := by
  have hread : Json.read c.toText = .ok (.object c.fields) :=
    Json.read_writeLines c.isNumberless_fields
  rw [load, hread]
  exact ofFields_fields c env

/-- An empty environment changes nothing. -/
theorem withEnvironment_nil (compiler : CompilerConfig) : compiler.withEnvironment [] = compiler :=
  rfl

/-- The text of settings is the same in a file. -/
theorem ofFile_toText (c : ProjectConfig) :
    Text.ofFile (Text.Utf8.encode c.toText) = .ok c.toText := by
  refine Text.ofFile_encode ?_
  rw [toText_eq, String.toList_append, List.forall_mem_append, Json.writeLines,
    String.toList_ofList]
  exact ⟨Json.isFileSafe_encodeLines 0 c.isNumberless_fields, List.all_eq_true.1 rfl⟩

end ProjectConfig

/-! ## 4. Files -/

namespace Project

/-- Settings without a forced spacing mode are loaded from the configuration file of a project after
their text has been written there, if nothing in the environment changes them: from the text itself,
and from any disk on which it could be written. -/
theorem loadConfig_of_write {c : ProjectConfig} (hc : c.compiler.forcedSpacing = none) :
    ProjectConfig.load (some c.toText) [] = .ok c ∧
      ∀ (p : Project) (disk next : Disk),
        disk.write p.configFile (Text.Utf8.encode c.toText) = .ok next →
          p.loadConfig next [] = .ok c := by
  have hload : ProjectConfig.load (some c.toText) [] = .ok c := by
    rw [ProjectConfig.load_toText, ProjectConfig.withEnvironment_nil, ← hc]
  refine ⟨hload, fun p disk next hwrite => ?_⟩
  have hlook := Disk.look_of_write hwrite
  have hthere : next.pathExists p.configFile = .ok true := Disk.test_of_look hlook
  have htext : next.readText p.configFile = .ok c.toText := by
    simp only [Disk.readText, bind_eq_ok, mapError_eq_ok]
    exact ⟨_, Disk.read_of_look hlook, c.ofFile_toText⟩
  simp only [loadConfig, bind_eq_ok, mapError_eq_ok]
  refine ⟨true, hthere, ?_⟩
  rw [if_pos rfl, htext, Except.mapError, bind_eq_ok]
  exact ⟨some c.toText, rfl, by rw [hload, Except.mapError]⟩

/-- Settings whose texts need every kind of escape. -/
def escapedConfig : ProjectConfig :=
  { outFile := "out/\"ü\" \\ 😀.css", strictSemicolons := true
    compiler := { defaultLayers := ["reset", "", "a\n\tb"], tokenPrefix := "--\r\x7f" } }

theorem loadConfig_of_write_escapedConfig : ∃ next,
    ({} : Disk).write ({} : Project).configFile (Text.Utf8.encode escapedConfig.toText) = .ok next ∧
      ({} : Project).loadConfig next [] = .ok escapedConfig := by
  obtain ⟨next, hwrite, -⟩ := exists_ok_of_any (p := fun _ => true)
    (x := ({} : Disk).write ({} : Project).configFile (Text.Utf8.encode escapedConfig.toText))
    (by decide +kernel)
  exact ⟨next, hwrite, (loadConfig_of_write rfl).2 {} {} next hwrite⟩

end Project

end StyleLedger
