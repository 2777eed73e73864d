import StyleLedger.Proofs.Config
import StyleLedger.Proofs.Directories
import StyleLedger.Proofs.Migration.Drained
import StyleLedger.Proofs.Moment
import StyleLedger.Proofs.Source.Commented

/-!
The names and the contents of new migrations.

The files of a new migration are named by a stamp and by what a title leaves of itself, and hold
nothing but comments. Nothing in a name can be taken for another part of it: the stamp has fourteen
digits, and what is left of a title has no dots, slashes or line ends. So the engine reads off a
name the identifier that went into it, a later call has a greater name, and no title ends the
comment it is put into.

* `Migration.Creation` — a call for a new migration.
* `Migration.Creation.idOf_fileName`, `Migration.Creation.fileName_lt` — its names.
* `Migration.Creation.parse_scaffold` — what its files hold.
-/

namespace StyleLedger.Migration

open Text

/-! ## 1. Names -/

theorem isSlugChar_of_mem_replaceFrom {skip : Nat} {cs : List Char} :
    ∀ c ∈ replaceFrom foreignExtent (fun _ => ['_']) skip cs, isSlugChar c = true := by
  induction cs generalizing skip with
  | nil => simp [replaceFrom]
  | cons c cs ih =>
    cases skip with
    | succ n => exact ih
    | zero =>
      rw [replaceFrom]
      split
      · next hnone =>
        -- a character that is kept does not begin a run of others
        have hc : isSlugChar c = true := by
          by_contra hforeign
          simp [foreignExtent, hforeign] at hnone
        exact List.forall_mem_cons.2 ⟨hc, ih⟩
      · exact List.forall_mem_cons.2 ⟨rfl, ih⟩

theorem isSlugChar_of_mem_slug {title : String} : ∀ c ∈ (slug title).toList, isSlugChar c = true := by
  rw [slug, String.toList_ofList]
  exact isSlugChar_of_mem_replaceFrom

theorem isSlugChar_of_mem_stamp {t : Moment} : ∀ c ∈ t.stamp.toList, isSlugChar c = true := by
  intro c hc
  have hdigit : isAsciiDigit c = true := Moment.isDigit_of_mem_stamp hc
  simp [isSlugChar, hdigit]

/-- What a slug keeps means nothing in a path or a comment, and is the same in a file. -/
theorem isFileSafe_of_isSlugChar {c : Char} (h : isSlugChar c = true) :
    isFileSafe c = true ∧ c ≠ '\n' ∧ c ≠ '/' ∧ c ≠ '\x00' := by
  simp only [isSlugChar, isAsciiLetter, isAsciiDigit, Bool.or_eq_true, Bool.and_eq_true,
    decide_eq_true_eq, beq_iff_eq, Char.le_def, UInt32.le_iff_toNat_le] at h
  have hrange : 45 ≤ c.toNat ∧ c.toNat ≤ 122 ∧ c.toNat ≠ 47 := by
    rcases h with (((h | h) | h) | rfl) | rfl
    · change 97 ≤ c.toNat ∧ c.toNat ≤ 122 at h
      omega
    · change 65 ≤ c.toNat ∧ c.toNat ≤ 90 at h
      omega
    · change 48 ≤ c.toNat ∧ c.toNat ≤ 57 at h
      omega
    · decide
    · decide
  have hne : ∀ d : Char, c.toNat ≠ d.toNat → c ≠ d := fun d hd heq => hd (congrArg Char.toNat heq)
  have hreturn : c ≠ '\r' := hne _ (by show _ ≠ 13; omega)
  refine ⟨?_, hne _ ?_, hne _ ?_, hne _ ?_⟩
  · simp [isFileSafe, hreturn, show c.toNat < 0x80 by omega]
  · show _ ≠ 10
    omega
  · exact hrange.2.2
  · show _ ≠ 0
    omega

/-- A call for a new migration: its title, and the time of the call. -/
structure Creation where
  title : String
  now : Moment
deriving Repr, DecidableEq, Inhabited

namespace Creation

variable {c d : Creation} {direction : Direction}

/-- Something is left of the title, and the time can be written in a stamp. -/
structure IsProper (c : Creation) : Prop where
  titled : slug c.title ≠ ""
  stamped : c.now.IsStampable

/-- The identifier of the migration. -/
def id (c : Creation) : String :=
  c.now.stamp ++ "__" ++ slug c.title

/-- The name of both files. -/
def fileName (c : Creation) : String :=
  newFileName (slug c.title) c.now

/-- What a file holds. -/
def scaffold (c : Creation) : Direction → String
  | .up => upScaffold (slug c.title) c.now.stamp
  | .down => downScaffold (slug c.title) c.now.stamp

theorem toList_fileName (c : Creation) : c.fileName.toList = c.id.toList ++ ending := by
  simp [fileName, newFileName, id, ending]

theorem ending_suffix (c : Creation) : ending <:+ c.fileName.toList :=
  ⟨c.id.toList, (toList_fileName c).symm⟩

theorem hasEnding_fileName (c : Creation) : hasEnding c.fileName = true := by
  have hlower : ending.map asciiLower = ending := by decide
  rw [hasEnding, List.isSuffixOf_iff_suffix, toList_fileName, List.map_append, hlower]
  exact List.suffix_append _ _

/-- The engine reads the identifier off the name. -/
theorem idOf_fileName (c : Creation) : idOf c.fileName = c.id := by
  rw [← String.toList_inj]
  exact List.append_cancel_right ((toList_idOf c.ending_suffix).trans c.toList_fileName)

theorem fileName_inj : c.fileName = d.fileName ↔ c.id = d.id := by
  constructor
  · intro h
    rw [← idOf_fileName, h, idOf_fileName]
  · intro h
    rw [← String.toList_inj, toList_fileName, toList_fileName, h]

/-- A later call has a greater name, whatever the titles are. -/
theorem fileName_lt (hc : c.IsProper) (hd : d.IsProper) (h : c.now.Precedes d.now) :
    c.fileName < d.fileName := by
  have hlength : c.now.stamp.toList.length = d.now.stamp.toList.length := by
    rw [hc.stamped.length_stamp, hd.stamped.length_stamp]
  have hlt := Moment.append_lt_append hlength (Moment.stamp_lt_stamp hc.stamped hd.stamped h)
    ("__".toList ++ (slug c.title).toList ++ ending)
    ("__".toList ++ (slug d.title).toList ++ ending)
  rw [String.lt_iff, toList_fileName, toList_fileName]
  simpa [id] using hlt

theorem getLast?_fileName (c : Creation) : c.fileName.toList.getLast? = some 'l' := by
  rw [toList_fileName, List.getLast?_append]
  rfl

theorem mem_fileName {x : Char} (h : x ∈ c.fileName.toList) : isSlugChar x = true ∨ x = '.' := by
  simp only [fileName, newFileName, String.toList_append, List.mem_append] at h
  rcases h with ((h | h) | h) | h
  · exact .inl (isSlugChar_of_mem_stamp x h)
  · obtain rfl : x = '_' := by simpa using h
    exact .inl rfl
  · exact .inl (isSlugChar_of_mem_slug x h)
  · have hcases : x = '.' ∨ x = 's' ∨ x = 'q' ∨ x = 'l' := by simpa using h
    rcases hcases with rfl | rfl | rfl | rfl
    · exact .inr rfl
    · exact .inl rfl
    · exact .inl rfl
    · exact .inl rfl

theorem isStep_fileName (c : Creation) : Path.isStep c.fileName = true := by
  have hlast := c.getLast?_fileName
  refine Path.isStep_of_not_mem (fun hnil => ?_) (fun hslash => ?_) (fun hstay => ?_)
  · simp [hnil] at hlast
  · rcases mem_fileName hslash with h | h
    · exact (isFileSafe_of_isSlugChar h).2.2.1 rfl
    · cases h
  · rw [hstay] at hlast
    exact absurd hlast (by decide)

/-! ## 2. Contents -/

/-- A character of a line. -/
def isLineChar (x : Char) : Bool :=
  isFileSafe x && x != '\n'

/-- What stands in front of the title in a file. -/
def heading : Direction → String
  | .up => " UP migration: "
  | .down => " DOWN migration: "

/-- The lines that are in every file. -/
def notes : Direction → List String
  | .up => [" Add forward style changes below", " Example:",
      " ALTER STYLE SELECTOR btn SET color = #fff;"]
  | .down => [" Revert the changes from the UP migration", " Example:",
      " DELETE FROM style_props WHERE selector = btn AND prop = 'color';"]

/-- The lines of a file, without the mark of a comment in front of each. -/
def remarks (c : Creation) (direction : Direction) : List (List Char) :=
  ((heading direction).toList ++ (slug c.title).toList ++ " @ ".toList ++ c.now.stamp.toList ++
    " (UTC)".toList) :: (notes direction).map String.toList

theorem toList_scaffold (c : Creation) (direction : Direction) : (c.scaffold direction).toList =
    (c.remarks direction).flatMap fun l => '-' :: '-' :: (l ++ ['\n']) := by
  cases direction with
  | up =>
    unfold scaffold upScaffold
    simp [remarks, heading, notes]
  | down =>
    unfold scaffold downScaffold
    simp [remarks, heading, notes]

theorem all_heading (direction : Direction) : (heading direction).toList.all isLineChar = true := by
  cases direction with
  | up => decide
  | down => decide

theorem all_notes (direction : Direction) :
    ((notes direction).all fun l => l.toList.all isLineChar) = true := by
  cases direction with
  | up => decide
  | down => decide

theorem isLineChar_of_isSlugChar {x : Char} (h : isSlugChar x = true) : isLineChar x = true := by
  obtain ⟨hsafe, hline, -⟩ := isFileSafe_of_isSlugChar h
  simp [isLineChar, hsafe, hline]

theorem isLineChar_of_mem_remarks : ∀ l ∈ c.remarks direction, ∀ x ∈ l, isLineChar x = true := by
  have hslug : ∀ x ∈ (slug c.title).toList, isLineChar x = true := fun x hx =>
    isLineChar_of_isSlugChar (isSlugChar_of_mem_slug x hx)
  have hstamp : ∀ x ∈ c.now.stamp.toList, isLineChar x = true := fun x hx =>
    isLineChar_of_isSlugChar (isSlugChar_of_mem_stamp x hx)
  have hnotes : ∀ l ∈ (notes direction).map String.toList, ∀ x ∈ l, isLineChar x = true := by
    intro l hl
    obtain ⟨line, hline, rfl⟩ := List.mem_map.1 hl
    exact List.all_eq_true.1 (List.all_eq_true.1 (all_notes direction) line hline)
  have hsigns : " @ ".toList.all isLineChar = true ∧ " (UTC)".toList.all isLineChar = true := by
    decide
  rw [remarks, List.forall_mem_cons]
  simp only [List.forall_mem_append]
  exact ⟨⟨⟨⟨⟨List.all_eq_true.1 (all_heading direction), hslug⟩, List.all_eq_true.1 hsigns.1⟩,
    hstamp⟩, List.all_eq_true.1 hsigns.2⟩, hnotes⟩

/-- A file holds no statement, whether semicolons may be left out or not. -/
theorem parse_scaffold (c : Creation) (direction : Direction) (strict : Bool) :
    Source.parse (c.scaffold direction) strict = .ok [] := by
  refine Source.parse_of_ignored ?_ strict
  rw [toList_scaffold]
  refine Source.ignored_remarks fun l hl hline => ?_
  have hsafe := isLineChar_of_mem_remarks l hl _ hline
  exact absurd hsafe (by decide)

/-- The text of a file is the same when it is read back. -/
theorem ofFile_scaffold (c : Creation) (direction : Direction) :
    ofFile (Utf8.encode (c.scaffold direction)) = .ok (c.scaffold direction) := by
  refine ofFile_encode fun x hx => ?_
  rw [toList_scaffold, List.mem_flatMap] at hx
  obtain ⟨l, hl, hx⟩ := hx
  have hsafe : ∀ x ∈ l, isFileSafe x = true := fun x hx =>
    (Bool.and_eq_true_iff.1 (isLineChar_of_mem_remarks l hl x hx)).1
  rcases List.mem_cons.1 hx with rfl | hx
  · rfl
  · rcases List.mem_cons.1 hx with rfl | hx
    · rfl
    · rcases List.mem_append.1 hx with hx | hx
      · exact hsafe x hx
      · rw [List.mem_singleton.1 hx]
        rfl

end Creation

end StyleLedger.Migration
