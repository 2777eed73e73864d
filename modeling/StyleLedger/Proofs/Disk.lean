import StyleLedger.Disk
import StyleLedger.Proofs.Outcome
import StyleLedger.Proofs.Table

/-!
What is found on a disk, and what a written file changes.

Whether a path can be followed is decided by its text and by the directories on its way. The text is
the same on every disk, so a path that leads somewhere on one of them is too long on none
(`look_ne_nameTooLong`). A file is never written where a directory stands, so the directories on the
way to it are what they were, and the path leads to the new content (`look_of_write`).
-/

namespace StyleLedger

open Outcome

/-- The content of a file, if there is one at a path. -/
def Disk.content? (disk : Disk) (path : Path) : Option Text.Bytes :=
  (disk.read path).toOption

namespace Disk

variable {disk : Disk} {path : Path}

/-! ## 1. What is found -/

theorem test_of_look {kind : DiskEntry → Bool} {entry : DiskEntry}
    (h : disk.look path = .ok entry) : disk.test kind path = .ok (kind entry) := by
  rw [test, h]

theorem test_of_fault {kind : DiskEntry → Bool} {fault : FileFault}
    (h : disk.look path = .error fault) (hfault : fault ≠ .nameTooLong) :
    disk.test kind path = .ok false := by
  rw [test, h]
  cases fault with
  | nameTooLong => exact absurd rfl hfault
  | _ => rfl

theorem read_of_look {content : Text.Bytes} (h : disk.look path = .ok (.file content)) :
    disk.read path = .ok content := by
  rw [read, h]

theorem read_of_directory (h : disk.look path = .ok .directory) :
    disk.read path = .error ⟨.isDirectory, path⟩ := by
  rw [read, h]

theorem read_of_fault {fault : FileFault} (h : disk.look path = .error fault) :
    disk.read path = .error ⟨fault, path⟩ := by
  rw [read, h]

theorem look_of_read {content : Text.Bytes} (h : disk.read path = .ok content) :
    disk.look path = .ok (.file content) := by
  unfold read at h
  split at h
  · next hlook => rw [hlook, Except.ok.inj h]
  · cases h
  · cases h

/-- A path can be followed if its text is no fault and its steps can. -/
theorem locate_eq_ok_iff {place : Place} : disk.locate path = .ok place ↔
    '\x00' ∉ path.text.toList ∧ path.text.utf8ByteSize < pathLimit ∧
      disk.walk (Path.origin path.start) path.steps = .ok place := by
  simp only [locate, follow, List.contains_iff_mem]
  split
  · next hnull => simp [hnull]
  · next hnull =>
    split
    · next hlength => simp [Nat.not_lt.2 hlength]
    · next hlength => simp [hnull, Nat.not_le.1 hlength]

/-- A name in a directory is one step, and leads to its place. -/
theorem nameInside?_eq_some {directory place : Place} {name : String}
    (h : nameInside? directory place = some name) :
    directory ++ [name] = place ∧ Path.isStep name = true := by
  unfold nameInside? at h
  split at h
  · split at h
    · next hinside =>
      obtain rfl := Option.some.inj h
      simpa using hinside
    · simp at h
  · simp at h

/-! ## 2. Paths on several disks -/

/-- Steps that lead somewhere on one disk are too long on none. -/
theorem walk_ne_nameTooLong (other : Disk) : ∀ {steps : List String} {place there : Place},
    disk.walk place steps = .ok there → other.walk place steps ≠ .error .nameTooLong
  | [], place, _, _ => by simp [walk]
  | s :: steps, place, there, h => by
    simp only [walk] at h ⊢
    split at h
    · split at h
      · cases h
      · next hlength =>
        split
        · rw [if_neg hlength]
          exact walk_ne_nameTooLong other h
        · simp
        · simp
    · cases h
    · cases h

theorem look_ne_nameTooLong (other : Disk) {entry : DiskEntry} (h : disk.look path = .ok entry) :
    other.look path ≠ .error .nameTooLong := by
  obtain ⟨place, hplace, -⟩ := bind_eq_ok.1 h
  obtain ⟨hnull, hlength, hwalk⟩ := locate_eq_ok_iff.1 hplace
  have hother := walk_ne_nameTooLong other hwalk
  simp only [look, locate, follow, List.contains_iff_mem]
  rw [if_neg hnull, if_neg (Nat.not_le.2 hlength)]
  cases hthere : other.walk (Path.origin path.start) path.steps with
  | error fault =>
    rw [hthere] at hother
    simpa [bind, Except.bind] using hother
  | ok there =>
    show other.entryAt there ≠ _
    unfold entryAt
    split
    · simp
    · simp

/-! ## 3. Written files -/

variable {place there : Place}

theorem entry?_put_of_ne (h : there ≠ place) (entry : DiskEntry) :
    Disk.entry? { entries := disk.entries.put place entry } there = disk.entry? there := by
  have hget := Table.get?_put disk.entries place there entry
  rw [if_neg (show ¬ Keyed.key there = Keyed.key place from h)] at hget
  unfold entry?
  rw [hget]

/-- Where no directory has been, the new entry is found. -/
theorem entry?_put_self (h : disk.entry? place ≠ some .directory) (entry : DiskEntry) :
    Disk.entry? { entries := disk.entries.put place entry } place = some entry := by
  have hget := Table.get?_put disk.entries place place entry
  rw [if_pos rfl] at hget
  unfold entry? at h ⊢
  split at h
  · exact absurd rfl h
  · next habove => rw [if_neg habove, hget]

/-- The directories that steps lead through are still there. -/
theorem walk_put (h : disk.entry? place ≠ some .directory) (entry : DiskEntry) :
    ∀ {steps : List String} {start : Place}, disk.walk start steps = .ok there →
      ({ entries := disk.entries.put place entry } : Disk).walk start steps = .ok there
  | [], _, hwalk => hwalk
  | s :: steps, start, hwalk => by
    simp only [walk] at hwalk ⊢
    split at hwalk
    · next hstart =>
      have hne : start ≠ place := by
        rintro rfl
        exact h hstart
      rw [entry?_put_of_ne hne, hstart]
      split at hwalk
      · cases hwalk
      · next hlength =>
        simp only [hlength, if_false]
        exact walk_put h entry hwalk
    · cases hwalk
    · cases hwalk

/-- A path leads to what has been written there. -/
theorem look_of_write {next : Disk} {content : Text.Bytes}
    (h : disk.write path content = .ok next) : next.look path = .ok (.file content) := by
  unfold write at h
  split at h
  · cases h
  · next place hplace =>
    have hfree : disk.entry? place ≠ some .directory ∧
        next = { entries := disk.entries.put place (.file content) } := by
      split at h
      · cases h
      · next hother => exact ⟨hother, (Except.ok.inj h).symm⟩
    obtain ⟨hfree, rfl⟩ := hfree
    obtain ⟨hnull, hlength, hwalk⟩ := locate_eq_ok_iff.1 hplace
    rw [look, bind_eq_ok]
    refine ⟨place, locate_eq_ok_iff.2 ⟨hnull, hlength, walk_put hfree _ hwalk⟩, ?_⟩
    rw [entryAt, entry?_put_self hfree]

end Disk

end StyleLedger
