import StyleLedger.Proofs.Disk
import StyleLedger.Proofs.Selector.Lists

/-!
Making directories.

A directory is made together with those that lead to it, the outermost first, and one that is there
is left alone. The way to it ends for good where it leads through a file or has too long a name
(`Disk.IsBlocked`), and then it is blocked further down as well (`IsBlocked.below`); a step that is
merely missing is made. So after an attempt the path leads to a directory or is blocked, and a
second attempt has the same outcome and changes nothing, although the first may have made some of
the directories before it failed.

New entries stand behind those that were there (`Disk.Grows`), and what was found is still found.

* `DiskChange.attempted_ensureSteps` — one directory and those that lead to it.
* `DiskChange.forM_ensureAll_cases` — several directories, and what a second attempt does.
-/

namespace StyleLedger

open Outcome

/-! ## 1. Paths to an entry -/

namespace Path

/-- The path to what is one step further. -/
def below (p : Path) (s : String) : Path :=
  { p with steps := p.steps ++ [s] }

variable {p : Path} {s : String}

theorem child_eq (h : isStep s = true) (p : Path) : p.child s = p.below s := by
  have hs : ofText s = { steps := [s] } := by simpa [isStep] using h
  simp [child, hs, join, below]

theorem take_succ {n : Nat} (h : n < p.steps.length) :
    p.take (n + 1) = (p.take n).below p.steps[n] := by
  rw [take, take, below, List.take_add_one, List.getElem?_eq_getElem h]
  rfl

theorem take_length (p : Path) : p.take p.steps.length = p := by
  rw [take, List.take_length]

theorem not_mem_steps_below {t : String} (h : t ∉ p.steps) (hs : t ≠ s) :
    t ∉ (p.below s).steps := by
  simpa [below] using ⟨h, hs⟩

theorem place_below (p : Path) (s : String) : (p.below s).place = step p.place s := by
  simp [place, below]

/-- A name without slashes that does not mean to stay is a step. -/
theorem isStep_of_not_mem (hne : s.toList ≠ []) (hslash : '/' ∉ s.toList) (hstay : s ≠ stay) :
    isStep s = true := by
  have hstart : startOf s.toList = .workingDirectory := by
    cases hs : s.toList with
    | nil => rfl
    | cons c cs =>
      have hc : c ≠ '/' := fun hc => hslash (by simp [hs, hc])
      rw [startOf, List.takeWhile_cons_of_neg (by simpa using hc)]
      rfl
  have hlast : s.toList.getLast? ≠ some '/' := fun h => hslash (List.mem_of_getLast? h)
  have hsteps : stepsOf s.toList = [s] := by
    simp [stepsOf, Text.splitAt_of_not_mem hslash, hne, hlast]
  rw [isStep, decide_eq_true_eq, ofText, hstart, hsteps, List.filter_cons_of_pos (by simpa using hstay)]
  rfl

theorem ne_of_isStep {t : String} (hs : isStep s = true) (ht : isStep t = false) : s ≠ t := by
  rintro rfl
  exact absurd hs (by simp [ht])

/-- A step leads into a directory, unless it leads out of one. -/
theorem step_of_isStep (hs : isStep s = true) (hup : s ≠ up) (place : Place) :
    step place s = place ++ [s] := by
  rw [step, if_neg hup, if_neg (ne_of_isStep hs rfl)]

/-- Steps that do not lead out of a directory lead to what is in it. -/
theorem prefix_foldl_step : ∀ {steps : List String} (place : Place), up ∉ steps →
    place <+: steps.foldl step place
  | [], place, _ => List.prefix_refl place
  | s :: steps, place, h => by
    obtain ⟨hup, hsteps⟩ := not_or.1 (List.mem_cons.not.1 h)
    have hfirst : place <+: step place s := by
      rw [step, if_neg (Ne.symm hup)]
      split
      · exact List.prefix_refl place
      · exact List.prefix_append place [s]
    exact hfirst.trans (prefix_foldl_step (step place s) hsteps)

theorem place_take_prefix (h : up ∉ p.steps) (n : Nat) : (p.take n).place <+: p.place := by
  have hrest : up ∉ p.steps.drop n := fun hup => h (List.mem_of_mem_drop hup)
  have hsplit : p.place = (p.steps.drop n).foldl step (p.take n).place := by
    simp only [place, take]
    rw [← List.foldl_append, List.take_append_drop]
  rw [hsplit]
  exact prefix_foldl_step _ hrest

/-- The text of a path that goes one step further. -/
theorem text_below (p : Path) (s : String) :
    (p.below s).text = if p.steps = [] then p.start.text ++ s else p.text ++ "/" ++ s := by
  split
  · next hnil => simp [text, below, hnil]
  · next hne =>
    simp [text, below, hne, String.intercalate_append_of_ne_nil hne, String.append_assoc]

/-- The text of a path is a text of a path, and short enough. -/
def IsPassable (p : Path) : Prop :=
  '\x00' ∉ p.text.toList ∧ p.text.utf8ByteSize < Disk.pathLimit

theorem isPassable_of_nil (h : p.steps = []) : p.IsPassable := by
  obtain ⟨start, steps⟩ := p
  obtain rfl : steps = [] := h
  cases start <;> exact ⟨by decide, by decide⟩

/-- The way to an entry is not longer than the way to what is behind it. -/
theorem IsPassable.of_below (h : (p.below s).IsPassable) : p.IsPassable := by
  by_cases hnil : p.steps = []
  · exact isPassable_of_nil hnil
  · obtain ⟨hnull, hlength⟩ := h
    rw [text_below, if_neg hnil] at hnull hlength
    rw [String.utf8ByteSize_append, String.utf8ByteSize_append] at hlength
    simp only [String.toList_append, List.mem_append, not_or] at hnull
    exact ⟨hnull.1.1, by omega⟩

end Path

/-! ## 2. What stands one step further -/

namespace Disk

variable {disk next : Disk} {path : Path} {s : String}

theorem locate_of_isPassable (h : path.IsPassable) :
    disk.locate path = disk.walk (Path.origin path.start) path.steps := by
  simp only [locate, follow, List.contains_iff_mem]
  rw [if_neg h.1, if_neg (Nat.not_le.2 h.2)]

theorem walk_concat (disk : Disk) (s : String) : ∀ (place : Place) (steps : List String),
    disk.walk place (steps ++ [s]) = disk.walk place steps >>= fun there => disk.walk there [s]
  | _, [] => rfl
  | place, t :: steps => by
    rw [List.cons_append, walk, walk]
    split
    · split
      · rfl
      · exact walk_concat disk s _ steps
    · rfl
    · rfl

theorem eq_of_walk : ∀ {steps : List String} {place there : Place},
    disk.walk place steps = .ok there → there = steps.foldl Path.step place
  | [], _, _, h => (Except.ok.inj h).symm
  | s :: steps, place, there, h => by
    rw [walk] at h
    split at h
    · split at h
      · cases h
      · rw [List.foldl_cons]
        exact eq_of_walk h
    · cases h
    · cases h

theorem eq_place_of_locate {there : Place} (h : disk.locate path = .ok there) :
    there = path.place :=
  eq_of_walk (locate_eq_ok_iff.1 h).2.2

theorem look_eq_ok_iff {entry : DiskEntry} : disk.look path = .ok entry ↔
    disk.locate path = .ok path.place ∧ disk.entry? path.place = some entry := by
  rw [look, bind_eq_ok]
  constructor
  · rintro ⟨there, hthere, hentry⟩
    obtain rfl := eq_place_of_locate hthere
    refine ⟨hthere, ?_⟩
    unfold entryAt at hentry
    split at hentry
    · next hsome => rw [hsome, Except.ok.inj hentry]
    · cases hentry
  · rintro ⟨hthere, hentry⟩
    exact ⟨_, hthere, by rw [entryAt, hentry]⟩

theorem look_of_entry?_eq_none (hlocate : disk.locate path = .ok path.place)
    (hfree : disk.entry? path.place = none) : disk.look path = .error .missing := by
  rw [look, hlocate]
  show disk.entryAt path.place = _
  rw [entryAt, hfree]

/-- What is behind an entry can be found if the entry is a directory and the name is not too
long. -/
theorem locate_below (disk : Disk) (h : (path.below s).IsPassable) :
    disk.locate (path.below s) = disk.look path >>= fun
      | .directory =>
        if nameLimit < s.utf8ByteSize then .error .nameTooLong else .ok (Path.step path.place s)
      | .file _ => .error .notDirectory := by
  rw [look, locate_of_isPassable h, locate_of_isPassable h.of_below]
  show disk.walk (Path.origin path.start) (path.steps ++ [s]) = _
  rw [walk_concat]
  cases hwalk : disk.walk (Path.origin path.start) path.steps with
  | error fault => rfl
  | ok there =>
    have hplace : there = path.place := eq_of_walk hwalk
    rw [← hplace]
    show disk.walk there [s] = disk.entryAt there >>= _
    rw [walk, entryAt]
    cases disk.entry? there with
    | none => rfl
    | some entry =>
      cases entry with
      | directory => rfl
      | file content => rfl

/-! ## 3. Disks that grow -/

/-- The entries of a disk are the first ones of another. -/
def Grows (disk next : Disk) : Prop :=
  disk.entries.entries <+: next.entries.entries

namespace Grows

theorem refl (disk : Disk) : disk.Grows disk :=
  List.prefix_refl _

theorem trans {last : Disk} (h : disk.Grows next) (h' : next.Grows last) : disk.Grows last :=
  List.IsPrefix.trans h h'

/-- What is at a place stays there. -/
theorem entry?_eq_some (h : disk.Grows next) {place : Place} {entry : DiskEntry}
    (hentry : disk.entry? place = some entry) : next.entry? place = some entry := by
  unfold entry? at hentry ⊢
  split
  · next habove => rwa [if_pos habove] at hentry
  · next hbelow =>
    rw [if_neg hbelow, Table.get?] at hentry
    obtain ⟨more, hmore⟩ := h
    rw [Table.get?, ← hmore, Table.lookup_append, hentry, Option.some_or]

theorem walk_eq_ok (h : disk.Grows next) : ∀ {steps : List String} {place there : Place},
    disk.walk place steps = .ok there → next.walk place steps = .ok there
  | [], _, _, hwalk => hwalk
  | s :: steps, place, there, hwalk => by
    rw [walk] at hwalk ⊢
    split at hwalk
    · next hplace =>
      rw [h.entry?_eq_some hplace]
      split at hwalk
      · cases hwalk
      · next hlength =>
        simp only [hlength, if_false]
        exact h.walk_eq_ok hwalk
    · cases hwalk
    · cases hwalk

/-- What a path leads to is still there. -/
theorem look_eq_ok (h : disk.Grows next) {entry : DiskEntry} (hlook : disk.look path = .ok entry) :
    next.look path = .ok entry := by
  obtain ⟨hlocate, hentry⟩ := look_eq_ok_iff.1 hlook
  obtain ⟨hnull, hlength, hwalk⟩ := locate_eq_ok_iff.1 hlocate
  exact look_eq_ok_iff.2 ⟨locate_eq_ok_iff.2 ⟨hnull, hlength, h.walk_eq_ok hwalk⟩,
    h.entry?_eq_some hentry⟩

end Grows

/-- What is put where nothing is stands behind all other entries. -/
theorem put_of_entry?_eq_none {place : Place} (h : disk.entry? place = none) (entry : DiskEntry) :
    disk.entries.put place entry = ⟨disk.entries.entries ++ [(place, entry)]⟩ := by
  have hget : disk.entries.get? place = none := by
    unfold entry? at h
    split at h
    · cases h
    · exact h
  refine Table.put_of_not_mem fun there hthere heq => ?_
  obtain ⟨e, he, rfl⟩ := List.mem_map.1 hthere
  have hsome := Table.isSome_get?_iff.2 ⟨e, he, heq⟩
  simp [hget] at hsome

/-! ## 4. Names in a directory -/

theorem nameInside?_concat (hs : Path.isStep s = true) (directory place : Place) :
    nameInside? directory (place ++ [s]) = if directory = place then some s else none := by
  simp [nameInside?, hs]

theorem entry?_concat (hs : Path.isStep s = true) (hup : s ≠ Path.up) (place : Place) :
    disk.entry? (place ++ [s]) = disk.entries.get? (place ++ [s]) := by
  have hroot : place ++ [s] ≠ Path.rootPlace := by
    intro h
    have hlast := congrArg List.getLast? h
    rw [List.getLast?_concat] at hlast
    exact Path.ne_of_isStep hs (t := "/") rfl (Option.some.inj hlast)
  unfold entry?
  rw [if_neg]
  simp [hup, hroot]

/-- Nothing has a name that is not in the directory. -/
theorem entry?_of_not_mem_names (hs : Path.isStep s = true) (hup : s ≠ Path.up)
    (h : s ∉ disk.names path) : disk.entry? (path.place ++ [s]) = none := by
  rw [entry?_concat hs hup, ← Option.not_isSome_iff_eq_none]
  intro hsome
  obtain ⟨e, he, hkey⟩ := Table.isSome_get?_iff.1 hsome
  have hplace : e.1 = path.place ++ [s] := hkey
  have hinside : nameInside? path.place e.1 = some s := by
    rw [hplace, nameInside?_concat hs, if_pos rfl]
  exact h (List.mem_filterMap.2 ⟨_, Table.mem_keys_of_mem he, hinside⟩)

/-- A new entry is one more name in its own directory, and changes no other. -/
theorem names_concat (hs : Path.isStep s = true) (directory : Path) (place : Place)
    (entry : DiskEntry) :
    Disk.names { entries := ⟨disk.entries.entries ++ [(place ++ [s], entry)]⟩ } directory =
      disk.names directory ++ if directory.place = place then [s] else [] := by
  simp only [names, Table.keys, List.map_append, List.filterMap_append, List.map_cons, List.map_nil]
  rw [List.filterMap_cons, nameInside?_concat hs]
  split
  · next hnone =>
    split at hnone
    · cases hnone
    · next hne => simp [hne]
  · next name hsome =>
    split at hsome
    · next heq =>
      cases hsome
      simp [heq]
    · cases hsome

theorem Grows.names_prefix (h : disk.Grows next) (directory : Path) :
    disk.names directory <+: next.names directory := by
  obtain ⟨more, hmore⟩ := h
  simp only [names, Table.keys, ← hmore, List.map_append, List.filterMap_append]
  exact List.prefix_append _ _

/-- A file that was not there is written behind all other entries. -/
theorem write_of_entry?_eq_none (hlocate : disk.locate path = .ok path.place)
    (hfree : disk.entry? path.place = none) (content : Text.Bytes) : disk.write path content =
      .ok { entries := ⟨disk.entries.entries ++ [(path.place, .file content)]⟩ } := by
  rw [write, hlocate, ← put_of_entry?_eq_none hfree]
  simp only [hfree]

/-! ## 5. Blocked paths -/

/-- No directory can be made at a path: a file is there, or the way to it ends for another reason
than that something is missing. -/
def IsBlocked (disk : Disk) (path : Path) : Prop :=
  (∃ content, disk.look path = .ok (.file content)) ∨
    ∃ fault, fault ≠ .missing ∧ disk.look path = .error fault

theorem look_of_locate_error {fault : FileFault} (h : disk.locate path = .error fault) :
    disk.look path = .error fault := by
  rw [look, h]
  rfl

/-- Behind a blocked path everything is blocked. -/
theorem IsBlocked.below (h : disk.IsBlocked path) (s : String) : disk.IsBlocked (path.below s) := by
  by_cases hpass : (path.below s).IsPassable
  · have hlocate := locate_below disk hpass
    rcases h with ⟨content, hlook⟩ | ⟨fault, hfault, hlook⟩
    · rw [hlook] at hlocate
      exact .inr ⟨.notDirectory, by decide, look_of_locate_error hlocate⟩
    · rw [hlook] at hlocate
      exact .inr ⟨fault, hfault, look_of_locate_error hlocate⟩
  · have hlocate : disk.locate (path.below s) = .error .embeddedNull ∨
        disk.locate (path.below s) = .error .nameTooLong := by
      simp only [locate, follow, List.contains_iff_mem]
      split
      · exact .inl rfl
      · next hnull =>
        rw [if_pos (Nat.le_of_not_lt fun hlength => hpass ⟨hnull, hlength⟩)]
        exact .inr rfl
    rcases hlocate with hlocate | hlocate
    · exact .inr ⟨_, by decide, look_of_locate_error hlocate⟩
    · exact .inr ⟨_, by decide, look_of_locate_error hlocate⟩

/-- Behind a directory nothing is missing on the way. -/
theorem locate_below_ne_missing (h : disk.look path = .ok .directory) (s : String) :
    disk.locate (path.below s) ≠ .error .missing := by
  by_cases hpass : (path.below s).IsPassable
  · rw [locate_below disk hpass, h]
    show (if nameLimit < s.utf8ByteSize then _ else _) ≠ _
    split <;> simp
  · simp only [locate, follow, List.contains_iff_mem]
    split
    · simp
    · next hnull =>
      rw [if_pos (Nat.le_of_not_lt fun hlength => hpass ⟨hnull, hlength⟩)]
      simp

theorem makeDirectory_of_look {entry : DiskEntry} (h : disk.look path = .ok entry) :
    disk.makeDirectory path = .error ⟨.alreadyThere, path⟩ := by
  obtain ⟨hlocate, hentry⟩ := look_eq_ok_iff.1 h
  rw [makeDirectory, hlocate]
  simp only [hentry]

theorem makeDirectory_of_locate {fault : FileFault} (h : disk.locate path = .error fault) :
    disk.makeDirectory path = .error ⟨fault, path⟩ := by
  rw [makeDirectory, h]

/-- Only the entry itself can be missing where the way to it does not end. -/
theorem locate_of_look_error {fault : FileFault} (h : disk.look path = .error fault)
    (hfault : fault ≠ .missing) : disk.locate path = .error fault := by
  unfold look at h
  cases hlocate : disk.locate path with
  | error fault' =>
    rw [hlocate] at h
    exact congrArg Except.error (Except.error.inj h)
  | ok there =>
    rw [hlocate] at h
    change disk.entryAt there = .error fault at h
    unfold entryAt at h
    split at h
    · cases h
    · cases h
      exact absurd rfl hfault

/-- Where only the entry itself is missing, a directory can be made. -/
theorem exists_makeDirectory (hlocate : disk.locate path ≠ .error .missing)
    (hlook : disk.look path = .error .missing) : ∃ next, disk.makeDirectory path = .ok next ∧
      disk.Grows next ∧ next.look path = .ok .directory := by
  unfold look at hlook
  cases hthere : disk.locate path with
  | error fault =>
    rw [hthere] at hlook hlocate
    cases hlook
    exact absurd rfl hlocate
  | ok there =>
    obtain rfl := eq_place_of_locate hthere
    have hnone : disk.entry? path.place = none := by
      cases hentry : disk.entry? path.place with
      | none => rfl
      | some entry =>
        have hsome := look_eq_ok_iff.2 ⟨hthere, hentry⟩
        rw [look, hlook] at hsome
        cases hsome
    let next : Disk := { entries := disk.entries.put path.place .directory }
    have hgrows : disk.Grows next := by
      show _ <+: (disk.entries.put path.place .directory).entries
      rw [put_of_entry?_eq_none hnone]
      exact List.prefix_append _ _
    obtain ⟨hnull, hlength, hwalk⟩ := locate_eq_ok_iff.1 hthere
    refine ⟨next, ?_, hgrows, look_eq_ok_iff.2 ⟨?_, ?_⟩⟩
    · rw [makeDirectory, hthere]
      simp only [hnone]
      rfl
    · exact locate_eq_ok_iff.2 ⟨hnull, hlength, hgrows.walk_eq_ok hwalk⟩
    · exact entry?_put_self (by simp [hnone]) _

end Disk

/-! ## 6. Directories that are made -/

namespace DiskChange

open Disk

variable {disk next : Disk} {path : Path}

theorem ofAction_single (change : Disk → Except FileError Disk) (disk : Disk) :
    ofAction (single change) disk = match change disk with
      | .ok next => (.ok (), next)
      | .error e => (.error e, disk) := by
  have hrun : ofAction (single change) disk = ofAction (match change disk with
      | .ok next => set next
      | .error e => throw e) disk := rfl
  rw [hrun]
  cases change disk with
  | ok next => rfl
  | error e => rfl

theorem ofAction_ensure (path : Path) (disk : Disk) : ofAction (ensure path) disk =
    match disk.makeDirectory path with
    | .ok next => (.ok (), next)
    | .error e =>
      if e.fault = .missing || e.fault = .embeddedNull then (.error e, disk)
      else
        match disk.isDirectory path with
        | .ok true => (.ok (), disk)
        | .ok false => (.error e, disk)
        | .error e => (.error e, disk) := by
  have hrun : ofAction (ensure path) disk = ofAction (match disk.makeDirectory path with
      | .ok disk => set disk
      | .error e => do
        if e.fault = .missing || e.fault = .embeddedNull then throw e
        match (← get).isDirectory path with
        | .ok true => return
        | .ok false => throw e
        | .error e => throw e) disk := rfl
  rw [hrun]
  cases disk.makeDirectory path with
  | ok next => rfl
  | error e =>
    dsimp only
    split
    · rfl
    · next hfault =>
      show ofAction (match disk.isDirectory path with
        | .ok true => return
        | .ok false => throw e
        | .error e => throw e) disk = _
      rcases disk.isDirectory path with e' | (_ | _)
      · rfl
      · rfl
      · rfl

theorem ofAction_ensureSteps_succ (path : Path) (n : Nat) (disk : Disk) :
    ofAction (ensureSteps path (n + 1)) disk =
      if lacksParent disk (path.take (n + 1)) then
        ofAction (ensureSteps path n >>= fun _ => ensure (path.take (n + 1))) disk
      else ofAction (ensure (path.take (n + 1))) disk := by
  have hrun : ofAction (ensureSteps path (n + 1)) disk = ofAction (do
      if lacksParent disk (path.take (n + 1)) then ensureSteps path n
      ensure (path.take (n + 1))) disk := rfl
  rw [hrun]
  split
  · rfl
  · rfl

/-- A directory that is there is left alone. -/
theorem ensure_of_look (h : disk.look path = .ok .directory) :
    ofAction (ensure path) disk = (.ok (), disk) := by
  rw [ofAction_ensure, makeDirectory_of_look h, isDirectory, test_of_look h]
  rfl

/-- At a blocked path no directory is made. -/
theorem exists_ensure_of_isBlocked (h : disk.IsBlocked path) :
    ∃ e, ofAction (ensure path) disk = (.error e, disk) := by
  rw [ofAction_ensure]
  rcases h with ⟨content, hlook⟩ | ⟨fault, hfault, hlook⟩
  · rw [makeDirectory_of_look hlook, isDirectory, test_of_look hlook]
    exact ⟨_, rfl⟩
  · rw [makeDirectory_of_locate (locate_of_look_error hlook hfault)]
    dsimp only
    split
    · exact ⟨_, rfl⟩
    · rw [isDirectory, test, hlook]
      cases fault <;> exact ⟨_, rfl⟩

/-- An attempt to make a directory changes nothing that was there. Afterwards the path leads to a
directory, or it is blocked. -/
def Attempted (disk : Disk) (path : Path) (after : Except FileError Unit × Disk) : Prop :=
  disk.Grows after.2 ∧
    (after.1 = .ok () ∧ after.2.look path = .ok .directory ∨
      (∃ e, after.1 = .error e) ∧ after.2.IsBlocked path)

/-- A directory is made where nothing but its own entry is missing. -/
theorem attempted_ensure (h : disk.locate path ≠ .error .missing) :
    Attempted disk path (ofAction (ensure path) disk) := by
  cases hlook : disk.look path with
  | ok entry =>
    cases entry with
    | directory =>
      rw [ensure_of_look hlook]
      exact ⟨.refl disk, .inl ⟨rfl, hlook⟩⟩
    | file content =>
      have hblocked : disk.IsBlocked path := .inl ⟨content, hlook⟩
      obtain ⟨e, he⟩ := exists_ensure_of_isBlocked hblocked
      rw [he]
      exact ⟨.refl disk, .inr ⟨⟨e, rfl⟩, hblocked⟩⟩
  | error fault =>
    by_cases hfault : fault = .missing
    · subst hfault
      obtain ⟨next, hnext, hgrows, hthere⟩ := exists_makeDirectory h hlook
      rw [ofAction_ensure, hnext]
      exact ⟨hgrows, .inl ⟨rfl, hthere⟩⟩
    · have hblocked : disk.IsBlocked path := .inr ⟨fault, hfault, hlook⟩
      obtain ⟨e, he⟩ := exists_ensure_of_isBlocked hblocked
      rw [he]
      exact ⟨.refl disk, .inr ⟨⟨e, rfl⟩, hblocked⟩⟩

theorem lacksParent_iff : lacksParent disk path = true ↔ disk.locate path = .error .missing := by
  unfold lacksParent
  cases hlocate : disk.locate path with
  | error fault =>
    rw [makeDirectory_of_locate hlocate]
    simp
  | ok there =>
    rw [Disk.makeDirectory, hlocate]
    dsimp only
    cases disk.entry? there with
    | none => simp
    | some entry => simp

theorem not_lacksParent_of_look {entry : DiskEntry} (h : disk.look path = .ok entry) :
    ¬lacksParent disk path = true := by
  rw [lacksParent_iff, (look_eq_ok_iff.1 h).1]
  simp

theorem not_lacksParent_of_isBlocked (h : disk.IsBlocked path) :
    ¬lacksParent disk path = true := by
  rcases h with ⟨content, hlook⟩ | ⟨fault, hfault, hlook⟩
  · exact not_lacksParent_of_look hlook
  · rw [lacksParent_iff, locate_of_look_error hlook hfault]
    simpa using hfault

/-- An attempt to make a directory and all that lead to it. -/
theorem attempted_ensureSteps {n : Nat} (hn : n ≤ path.steps.length) (disk : Disk) :
    Attempted disk (path.take n) (ofAction (ensureSteps path n) disk) := by
  induction n generalizing disk with
  | zero =>
    refine attempted_ensure ?_
    rw [locate_of_isPassable (Path.isPassable_of_nil rfl)]
    simp [Path.take, walk]
  | succ n ih =>
    have htake := Path.take_succ (Nat.lt_of_succ_le hn)
    rw [ofAction_ensureSteps_succ]
    split
    · obtain ⟨hgrows, hafter⟩ := ih (Nat.le_of_succ_le hn) disk
      rw [ofAction_bind]
      rcases hsteps : ofAction (ensureSteps path n) disk with ⟨e | u, middle⟩
      · rw [hsteps] at hgrows hafter
        refine ⟨hgrows, .inr ⟨⟨e, rfl⟩, ?_⟩⟩
        rcases hafter with ⟨hok, -⟩ | ⟨-, hblocked⟩
        · cases hok
        · rw [htake]
          exact hblocked.below _
      · rw [hsteps] at hgrows hafter
        rcases hafter with ⟨-, hthere⟩ | ⟨⟨e, he⟩, -⟩
        · have hway : middle.locate (path.take (n + 1)) ≠ .error .missing := by
            rw [htake]
            exact locate_below_ne_missing hthere _
          obtain ⟨hgrows', hafter⟩ := attempted_ensure hway
          exact ⟨hgrows.trans hgrows', hafter⟩
        · cases he
    · next hway => exact attempted_ensure (mt lacksParent_iff.2 hway)

/-- A directory that is there is left alone with all that lead to it. -/
theorem ensureSteps_of_look {n : Nat} (h : disk.look (path.take n) = .ok .directory) :
    ofAction (ensureSteps path n) disk = (.ok (), disk) := by
  cases n with
  | zero => exact ensure_of_look h
  | succ n =>
    rw [ofAction_ensureSteps_succ, if_neg (not_lacksParent_of_look h)]
    exact ensure_of_look h

theorem exists_ensureSteps_of_isBlocked {n : Nat} (h : disk.IsBlocked (path.take n)) :
    ∃ e, ofAction (ensureSteps path n) disk = (.error e, disk) := by
  cases n with
  | zero => exact exists_ensure_of_isBlocked h
  | succ n =>
    rw [ofAction_ensureSteps_succ, if_neg (not_lacksParent_of_isBlocked h)]
    exact exists_ensure_of_isBlocked h

/-- Nothing is made but what a path leads to. -/
theorem mem_keys_ensure {there : Place}
    (h : there ∈ (ofAction (ensure path) disk).2.entries.keys) :
    there ∈ disk.entries.keys ∨ there = path.place := by
  rw [ofAction_ensure] at h
  cases hmake : disk.makeDirectory path with
  | error e =>
    rw [hmake] at h
    dsimp only at h
    split at h
    · exact .inl h
    · split at h
      · exact .inl h
      · exact .inl h
      · exact .inl h
  | ok next =>
    rw [hmake] at h
    unfold Disk.makeDirectory at hmake
    split at hmake
    · cases hmake
    · next place hplace =>
      obtain rfl := eq_place_of_locate hplace
      split at hmake
      · cases hmake
      · cases hmake
        have hkeys : there ∈ (disk.entries.put path.place .directory).keys := h
        rw [Table.keys_put] at hkeys
        split at hkeys
        · exact .inl hkeys
        · simpa using hkeys

/-- Nothing is made but what stands on the way. -/
theorem mem_keys_ensureSteps {there : Place} {n : Nat}
    (h : there ∈ (ofAction (ensureSteps path n) disk).2.entries.keys) :
    there ∈ disk.entries.keys ∨ ∃ k, there = (path.take k).place := by
  induction n generalizing disk with
  | zero => exact (mem_keys_ensure h).imp_right fun hthere => ⟨0, hthere⟩
  | succ n ih =>
    rw [ofAction_ensureSteps_succ] at h
    split at h
    · rw [ofAction_bind] at h
      rcases hsteps : ofAction (ensureSteps path n) disk with ⟨e | u, middle⟩
      · rw [hsteps] at h
        exact ih (by rw [hsteps]; exact h)
      · rw [hsteps] at h
        rcases mem_keys_ensure h with hmiddle | hthere
        · exact ih (by rw [hsteps]; exact hmiddle)
        · exact .inr ⟨n + 1, hthere⟩
    · exact (mem_keys_ensure h).imp_right fun hthere => ⟨n + 1, hthere⟩

theorem attempted_ensureAll (path : Path) (disk : Disk) :
    Attempted disk path (ofAction (ensureAll path) disk) := by
  have h := attempted_ensureSteps (Nat.le_refl path.steps.length) disk
  rwa [Path.take_length] at h

theorem ensureAll_of_look (h : disk.look path = .ok .directory) :
    ofAction (ensureAll path) disk = (.ok (), disk) :=
  ensureSteps_of_look (by rwa [Path.take_length])

theorem exists_ensureAll_of_isBlocked (h : disk.IsBlocked path) :
    ∃ e, ofAction (ensureAll path) disk = (.error e, disk) :=
  exists_ensureSteps_of_isBlocked (by rwa [Path.take_length])

/-! ## 7. Several directories -/

theorem forM_cons (path : Path) (paths : List Path) (disk : Disk) :
    ofAction ((path :: paths).forM ensureAll) disk =
      ofAction (ensureAll path >>= fun _ => paths.forM ensureAll) disk := rfl

/-- Directories that are there are left alone. -/
theorem forM_ensureAll_of_look : ∀ {paths : List Path},
    (∀ path ∈ paths, disk.look path = .ok .directory) →
      ofAction (paths.forM ensureAll) disk = (.ok (), disk)
  | [], _ => rfl
  | path :: paths, h => by
    obtain ⟨hpath, hpaths⟩ := List.forall_mem_cons.1 h
    rw [forM_cons, ofAction_bind, ensureAll_of_look hpath]
    exact forM_ensureAll_of_look hpaths

theorem mem_keys_forM {there : Place} {paths : List Path}
    (h : there ∈ (ofAction (paths.forM ensureAll) disk).2.entries.keys) :
    there ∈ disk.entries.keys ∨ ∃ path ∈ paths, ∃ k, there = (path.take k).place := by
  induction paths generalizing disk with
  | nil => exact .inl h
  | cons path paths ih =>
    have hfirst : ∀ {there}, there ∈ (ofAction (ensureAll path) disk).2.entries.keys →
        there ∈ disk.entries.keys ∨ ∃ path' ∈ path :: paths, ∃ k, there = (path'.take k).place :=
      fun hthere => (mem_keys_ensureSteps hthere).imp_right fun hway =>
        ⟨path, List.mem_cons_self, hway⟩
    rw [forM_cons, ofAction_bind] at h
    rcases hmade : ofAction (ensureAll path) disk with ⟨e | u, middle⟩
    · rw [hmade] at h
      exact hfirst (by rw [hmade]; exact h)
    · rw [hmade] at h
      rcases ih h with hmiddle | ⟨path', hpath, hway⟩
      · exact hfirst (by rw [hmade]; exact hmiddle)
      · exact .inr ⟨path', List.mem_cons_of_mem _ hpath, hway⟩

/-- After an attempt to make some directories nothing that was there is changed. Either all of them
are there, or a second attempt fails as well and changes nothing at all. -/
theorem forM_ensureAll_cases (paths : List Path) (disk : Disk) : ∃ outcome next,
    ofAction (paths.forM ensureAll) disk = (outcome, next) ∧ disk.Grows next ∧
      (outcome = .ok () ∧ (∀ path ∈ paths, next.look path = .ok .directory) ∨
        (∃ e, outcome = .error e) ∧
          ∃ e, ofAction (paths.forM ensureAll) next = (.error e, next)) := by
  induction paths generalizing disk with
  | nil => exact ⟨.ok (), disk, rfl, .refl disk, .inl ⟨rfl, by simp⟩⟩
  | cons path paths ih =>
    obtain ⟨hgrows, hafter⟩ := attempted_ensureAll path disk
    rw [forM_cons, ofAction_bind]
    rcases hfirst : ofAction (ensureAll path) disk with ⟨e | u, middle⟩
    · rw [hfirst] at hgrows hafter
      refine ⟨.error e, middle, rfl, hgrows, .inr ⟨⟨e, rfl⟩, ?_⟩⟩
      rcases hafter with ⟨hok, -⟩ | ⟨-, hblocked⟩
      · cases hok
      · obtain ⟨e, he⟩ := exists_ensureAll_of_isBlocked hblocked
        exact ⟨e, by rw [forM_cons, ofAction_bind, he]⟩
    · rw [hfirst] at hgrows hafter
      rcases hafter with ⟨-, hthere⟩ | ⟨⟨e, he⟩, -⟩
      · obtain ⟨outcome, next, hrest, hgrows', hnext⟩ := ih middle
        refine ⟨outcome, next, hrest, hgrows.trans hgrows', ?_⟩
        have hstays := hgrows'.look_eq_ok hthere
        rcases hnext with ⟨hok, hall⟩ | ⟨herror, e, he⟩
        · exact .inl ⟨hok, List.forall_mem_cons.2 ⟨hstays, hall⟩⟩
        · refine .inr ⟨herror, e, ?_⟩
          rw [forM_cons, ofAction_bind, ensureAll_of_look hstays]
          exact he
      · cases he

end DiskChange

end StyleLedger
