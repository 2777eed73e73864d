import StyleLedger.Proofs.Migration.Named

/-!
New migrations, made one after the other.

A call for a new migration makes the directories of the project and writes two files, one to apply
changes and one to revert them. It fails if the directories cannot be made, or if the name or the
path of a file is too long for a disk; it has written no file then, and the calls after it are not
affected (`exists_create`). So a disk comes to hold the migrations of the calls that succeed, in
their order (`Holds`), and the engine finds all of them.

* `Migration.createEach` — calls one after the other.
* `Migration.createEach_of_holds` — which of them succeed, and what they leave on the disk.
* `Migration.created_fit_engine` — what the engine finds there.
-/

namespace StyleLedger

open Outcome

/-! ## 1. The places of a project -/

namespace Project

variable {p : Project} {disk : Disk}

/-- The directories of a project that is laid out. -/
def layout (p : Project) : List Path :=
  [p.databaseDirectory, p.upDirectory, p.downDirectory]

theorem directory_mem_layout (p : Project) (d : Direction) : p.directory d ∈ p.layout := by
  cases d with
  | up => exact List.mem_cons_of_mem _ List.mem_cons_self
  | down => exact List.mem_cons_of_mem _ (List.mem_cons_of_mem _ List.mem_cons_self)

theorem home_eq (p : Project) : p.home = p.root.below "icbincss" :=
  Path.child_eq rfl _

theorem databaseDirectory_eq (p : Project) : p.databaseDirectory = p.home.below "db" :=
  Path.child_eq rfl _

theorem directory_eq (p : Project) (d : Direction) :
    p.directory d = (p.home.below "migrations").below d.name := by
  have hmigrations : p.home.child "migrations" = p.home.below "migrations" := Path.child_eq rfl _
  rw [← hmigrations]
  cases d with
  | up => exact Path.child_eq (s := "up") rfl _
  | down => exact Path.child_eq (s := "down") rfl _

theorem place_directory (p : Project) (d : Direction) :
    (p.directory d).place = p.home.place ++ ["migrations", d.name] := by
  have hstep : Path.isStep d.name = true ∧ d.name ≠ Path.up := by
    cases d with
    | up => exact ⟨rfl, by decide⟩
    | down => exact ⟨rfl, by decide⟩
  rw [directory_eq, Path.place_below, Path.place_below, Path.step_of_isStep hstep.1 hstep.2,
    Path.step_of_isStep rfl (by decide), List.append_assoc]
  rfl

theorem place_directory_inj {d e : Direction} :
    (p.directory d).place = (p.directory e).place ↔ d = e := by
  rw [place_directory, place_directory, List.append_cancel_left_eq]
  cases d <;> cases e <;> decide

/-- Nothing is in the directories of the migrations when they are made. -/
def IsEmptyOn (p : Project) (disk : Disk) : Prop :=
  ∀ d, (ofAction p.makeLayout disk).2.names (p.directory d) = []

/-- The directories of a project are at most two steps below its own. -/
theorem layout_below (hroot : Path.up ∉ p.root.steps) : ∀ path ∈ p.layout,
    Path.up ∉ path.steps ∧ path.place.length ≤ p.home.place.length + 2 := by
  have hhome : Path.up ∉ p.home.steps := by
    rw [home_eq]
    exact Path.not_mem_steps_below hroot (by decide)
  have hdatabase : Path.up ∉ p.databaseDirectory.steps ∧
      p.databaseDirectory.place.length ≤ p.home.place.length + 2 := by
    rw [databaseDirectory_eq, Path.place_below, Path.step_of_isStep rfl (by decide)]
    exact ⟨Path.not_mem_steps_below hhome (by decide), by simp⟩
  have hmigrations : ∀ d, Path.up ∉ (p.directory d).steps ∧
      (p.directory d).place.length ≤ p.home.place.length + 2 := by
    intro d
    have hname : Path.up ≠ d.name := by
      cases d with
      | up => decide
      | down => decide
    rw [place_directory, directory_eq]
    have hdirectory := Path.not_mem_steps_below (s := "migrations") hhome (by decide)
    exact ⟨Path.not_mem_steps_below hdirectory hname, by simp⟩
  exact List.forall_mem_cons.2 ⟨hdatabase, List.forall_mem_cons.2 ⟨hmigrations .up,
    List.forall_mem_cons.2 ⟨hmigrations .down, by simp⟩⟩⟩

/-- Where nothing was in the directories before, nothing is when they are made, if the way to the
project does not lead through them. -/
theorem isEmptyOn_of_names (hnames : ∀ d, disk.names (p.directory d) = [])
    (hroot : Path.up ∉ p.root.steps) : p.IsEmptyOn disk := by
  intro d
  refine List.filterMap_eq_nil_iff.2 fun there hthere => ?_
  rcases DiskChange.mem_keys_forM hthere with hold | ⟨path, hpath, k, rfl⟩
  · exact List.filterMap_eq_nil_iff.1 (hnames d) there hold
  · -- what stands on the way is not as deep as what is in a directory of the migrations
    obtain ⟨hup, hlength⟩ := layout_below hroot path hpath
    have hprefix := (Path.place_take_prefix hup k).length_le
    refine Option.eq_none_iff_forall_ne_some.2 fun name hname => ?_
    have hplace := congrArg List.length (Disk.nameInside?_eq_some hname).1
    rw [place_directory, List.length_append, List.length_append] at hplace
    simp only [List.length_cons, List.length_nil] at hplace
    omega

end Project

/-! ## 2. The files of a call -/

namespace Migration

namespace Creation

variable {c : Creation} {p : Project} {d e : Direction} {disk : Disk}

/-- The path of a file. -/
def path (c : Creation) (p : Project) (d : Direction) : Path :=
  (p.directory d).child c.fileName

/-- The name and the path of a file are short enough. -/
def fitsIn (c : Creation) (p : Project) (d : Direction) : Bool :=
  c.fileName.utf8ByteSize ≤ Disk.nameLimit &&
    (c.path p d).text.utf8ByteSize < Disk.pathLimit

/-- Both files can be named. -/
def fits (c : Creation) (p : Project) : Bool :=
  c.fitsIn p .up && c.fitsIn p .down

theorem path_eq (c : Creation) (p : Project) (d : Direction) :
    c.path p d = (p.directory d).below c.fileName :=
  Path.child_eq c.isStep_fileName _

theorem name_path (c : Creation) (p : Project) (d : Direction) : (c.path p d).name = c.fileName :=
  Path.name_child c.isStep_fileName _

theorem fileName_ne_up (c : Creation) : c.fileName ≠ Path.up := by
  intro h
  have hlast := c.getLast?_fileName
  rw [h] at hlast
  exact absurd hlast (by decide)

theorem place_path (c : Creation) (p : Project) (d : Direction) :
    (c.path p d).place = (p.directory d).place ++ [c.fileName] := by
  rw [path_eq, Path.place_below, Path.step_of_isStep c.isStep_fileName c.fileName_ne_up]

/-- The way to a file ends early only if the file cannot be named. -/
theorem locate_path (h : disk.look (p.directory d) = .ok .directory) : disk.locate (c.path p d) =
    if c.fitsIn p d then .ok (c.path p d).place else .error .nameTooLong := by
  have hnull : '\x00' ∉ (c.path p d).text.toList := by
    obtain ⟨hdirectory, -⟩ := Disk.locate_eq_ok_iff.1 (Disk.look_eq_ok_iff.1 h).1
    have hne : (p.directory d).steps ≠ [] := by
      rw [p.directory_eq d]
      simp [Path.below]
    rw [path_eq, Path.text_below, if_neg hne]
    simp only [String.toList_append, List.mem_append, not_or]
    refine ⟨⟨hdirectory, by decide⟩, fun hmem => ?_⟩
    rcases mem_fileName hmem with hslug | hdot
    · exact (isFileSafe_of_isSlugChar hslug).2.2.2 rfl
    · cases hdot
  by_cases hlength : (c.path p d).text.utf8ByteSize < Disk.pathLimit
  · have hpass : ((p.directory d).below c.fileName).IsPassable := by
      rw [← path_eq]
      exact ⟨hnull, hlength⟩
    have hlocate := Disk.locate_below disk hpass
    rw [h, ← path_eq, ← Path.place_below, ← path_eq] at hlocate
    by_cases hname : c.fileName.utf8ByteSize ≤ Disk.nameLimit
    · rw [hlocate]
      simp [fitsIn, hname, hlength, bind, Except.bind]
    · rw [hlocate]
      simp [fitsIn, hname, Nat.not_le.1 hname, bind, Except.bind]
  · simp only [Disk.locate, Disk.follow, List.contains_iff_mem]
    rw [if_neg hnull, if_pos (Nat.le_of_not_lt hlength)]
    simp [fitsIn, hlength]

theorem entry?_of_new (hnew : c.fileName ∉ disk.names (p.directory d)) :
    disk.entry? (c.path p d).place = none := by
  rw [place_path]
  exact Disk.entry?_of_not_mem_names c.isStep_fileName c.fileName_ne_up hnew

/-- A file that is new can be written if it can be named. It is one more name in its directory, and
everything else is as it was. -/
theorem exists_write (h : disk.look (p.directory d) = .ok .directory) (hfits : c.fitsIn p d = true)
    (hnew : c.fileName ∉ disk.names (p.directory d)) (content : Text.Bytes) : ∃ next,
      disk.write (c.path p d) content = .ok next ∧ disk.Grows next ∧
        next.look (c.path p d) = .ok (.file content) ∧
        ∀ e, next.names (p.directory e) =
          disk.names (p.directory e) ++ if e = d then [c.fileName] else [] := by
  have hlocate := locate_path (c := c) h
  rw [if_pos hfits] at hlocate
  have hwrite := Disk.write_of_entry?_eq_none hlocate (entry?_of_new hnew) content
  refine ⟨_, hwrite, List.prefix_append _ _, Disk.look_of_write hwrite, fun e => ?_⟩
  rw [place_path, Disk.names_concat c.isStep_fileName]
  simp only [Project.place_directory_inj]

/-- A file that is new is not found, and is looked for in vain if it cannot be named. -/
theorem pathExists_path (h : disk.look (p.directory d) = .ok .directory)
    (hnew : c.fileName ∉ disk.names (p.directory d)) : disk.pathExists (c.path p d) =
      if c.fitsIn p d then .ok false else .error ⟨.nameTooLong, c.path p d⟩ := by
  have hlocate := locate_path (c := c) h
  by_cases hfits : c.fitsIn p d = true
  · rw [if_pos hfits] at hlocate ⊢
    have hlook := Disk.look_of_entry?_eq_none hlocate (entry?_of_new hnew)
    exact Disk.test_of_fault hlook (by decide)
  · rw [if_neg hfits] at hlocate ⊢
    rw [Disk.pathExists, Disk.test, Disk.look_of_locate_error hlocate]

end Creation

/-! ## 3. One call -/

open Creation

variable {c : Creation} {p : Project} {d : Direction} {disk next : Disk} {made calls : List Creation}

/-- A disk holds some migrations, in their order and no others. -/
structure Holds (p : Project) (made : List Creation) (disk : Disk) : Prop where
  laid : ∀ path ∈ p.layout, disk.look path = .ok .directory
  names : ∀ d, disk.names (p.directory d) = made.map fileName
  files : ∀ c ∈ made, ∀ d,
    disk.look (c.path p d) = .ok (.file (Text.Utf8.encode (c.scaffold d)))

theorem Holds.directory (h : Holds p made disk) (d : Direction) :
    disk.look (p.directory d) = .ok .directory :=
  h.laid _ (p.directory_mem_layout d)

/-- The steps of a call that has a title. -/
theorem ofAction_create (htitle : slug c.title ≠ "") (disk : Disk) :
    ofAction (create p c.title c.now) disk = match ofAction p.makeLayout disk with
      | (.error e, laid) => (.error (.ofFile e), laid)
      | (.ok (), laid) =>
        match isTaken laid (c.path p .up) (c.path p .down) with
        | .error e => (.error (.ofFile e), laid)
        | .ok true => (.error (.migration (.timestampTaken c.now.stamp)), laid)
        | .ok false =>
          match ofAction (writePair (c.path p .up) (c.path p .down) (slug c.title) c.now.stamp)
            laid with
          | (.error e, last) => (.error (.ofFile e), last)
          | (.ok (), last) => (.ok (c.path p .up, c.path p .down), last) := by
  have htitled : ¬(slug c.title).isEmpty = true := by simpa using htitle
  have hup : p.upDirectory.child (newFileName (slug c.title) c.now) = c.path p .up := rfl
  have hdown : p.downDirectory.child (newFileName (slug c.title) c.now) = c.path p .down := rfl
  unfold create
  dsimp only
  rw [if_neg htitled, hup, hdown, ofAction_bind, ofAction_adapt]
  -- from here on it does not matter what the paths are
  generalize c.path p .up = up, c.path p .down = down
  rcases ofAction p.makeLayout disk with ⟨e | ⟨⟩, laid⟩
  · rfl
  · show ofAction (match isTaken laid up down with
      | .error e => throw (Failure.ofFile e)
      | .ok true => throw (Failure.migration (.timestampTaken c.now.stamp))
      | .ok false => do
        (writePair up down (slug c.title) c.now.stamp).adapt Failure.ofFile
        return (up, down)) laid = _
    dsimp only
    rcases isTaken laid up down with e | (_ | _)
    · rfl
    · dsimp only
      rw [ofAction_bind, ofAction_adapt]
      rcases ofAction (writePair up down (slug c.title) c.now.stamp) laid with ⟨e | ⟨⟩, last⟩
      · rfl
      · rfl
    · rfl

theorem makeLayout_of_laid (h : ∀ path ∈ p.layout, disk.look path = .ok .directory) :
    ofAction p.makeLayout disk = (.ok (), disk) :=
  DiskChange.forM_ensureAll_of_look h

theorem pathExists_of_holds (h : Holds p made disk) (hnew : c.fileName ∉ made.map fileName)
    (d : Direction) : disk.pathExists (c.path p d) =
      if c.fitsIn p d then .ok false else .error ⟨.nameTooLong, c.path p d⟩ :=
  pathExists_path (h.directory d) (by rwa [h.names d])

/-- New files take the place of no others. -/
theorem isTaken_of_fits (h : Holds p made disk) (hnew : c.fileName ∉ made.map fileName)
    (hfits : c.fits p = true) : isTaken disk (c.path p .up) (c.path p .down) = .ok false := by
  obtain ⟨hup, hdown⟩ := Bool.and_eq_true_iff.1 hfits
  rw [isTaken, pathExists_of_holds h hnew, pathExists_of_holds h hnew, hup, hdown]
  rfl

/-- Whether a file that cannot be named is there cannot be found out. -/
theorem exists_isTaken_of_not_fits (h : Holds p made disk) (hnew : c.fileName ∉ made.map fileName)
    (hfits : c.fits p = false) :
    ∃ e, isTaken disk (c.path p .up) (c.path p .down) = .error e := by
  rw [isTaken, pathExists_of_holds h hnew, pathExists_of_holds h hnew]
  rcases Bool.and_eq_false_iff.1 hfits with hup | hdown
  · rw [hup]
    exact ⟨_, rfl⟩
  · rw [hdown]
    cases c.fitsIn p .up with
    | false => exact ⟨_, rfl⟩
    | true => exact ⟨_, rfl⟩

/-- Two new files are one more migration. -/
theorem exists_writePair (h : Holds p made disk) (hfits : c.fits p = true)
    (hnew : c.fileName ∉ made.map fileName) : ∃ last,
      ofAction (writePair (c.path p .up) (c.path p .down) (slug c.title) c.now.stamp) disk =
          (.ok (), last) ∧
        Holds p (made ++ [c]) last := by
  obtain ⟨hup, hdown⟩ := Bool.and_eq_true_iff.1 hfits
  have hfree : ∀ d, c.fileName ∉ disk.names (p.directory d) := fun d => by rwa [h.names d]
  obtain ⟨middle, hfirst, hgrows, hupFile, hnames⟩ := exists_write (h.directory .up) hup
    (hfree .up) (Text.Utf8.encode (c.scaffold .up))
  have hfree' : c.fileName ∉ middle.names (p.directory .down) := by
    rw [hnames .down]
    simpa using hfree .down
  obtain ⟨last, hsecond, hgrows', hdownFile, hnames'⟩ :=
    exists_write (hgrows.look_eq_ok (h.directory .down)) hdown hfree'
      (Text.Utf8.encode (c.scaffold .down))
  refine ⟨last, ?_, ?_⟩
  · have hpair : writePair (c.path p .up) (c.path p .down) (slug c.title) c.now.stamp =
        (DiskChange.write (c.path p .up) (Text.Utf8.encode (c.scaffold .up)) >>= fun _ =>
          DiskChange.write (c.path p .down) (Text.Utf8.encode (c.scaffold .down))) := rfl
    rw [hpair, ofAction_bind, DiskChange.write, DiskChange.ofAction_single, hfirst]
    dsimp only
    rw [DiskChange.write, DiskChange.ofAction_single, hsecond]
  · have hall := hgrows.trans hgrows'
    constructor
    · exact fun path hpath => hall.look_eq_ok (h.laid path hpath)
    · intro d
      rw [hnames' d, hnames d, h.names d]
      cases d with
      | up => simp
      | down => simp
    · intro b hb d
      rcases List.mem_append.1 hb with hb | hb
      · exact hall.look_eq_ok (h.files b hb d)
      · rw [List.mem_singleton.1 hb]
        cases d with
        | up => exact hgrows'.look_eq_ok hupFile
        | down => exact hdownFile

/-- What a call says, by whether it succeeds: where the new files are, or that the disk is at
fault. -/
inductive Answers (p : Project) (c : Creation) : Bool → Except Failure (Path × Path) → Prop
  | created : Answers p c true (.ok (c.path p .up, c.path p .down))
  | failed (e : FileError) : Answers p c false (.error (.ofFile e))

/-- A call adds its migration if its files can be named, and changes nothing otherwise. -/
theorem exists_create (h : Holds p made disk) (htitle : slug c.title ≠ "")
    (hnew : c.fileName ∉ made.map fileName) : ∃ outcome next,
      ofAction (create p c.title c.now) disk = (outcome, next) ∧ Answers p c (c.fits p) outcome ∧
        Holds p (made ++ [c].filter (·.fits p)) next := by
  have hcreate := ofAction_create (p := p) htitle disk
  rw [makeLayout_of_laid h.laid] at hcreate
  dsimp only at hcreate
  cases hfits : c.fits p with
  | true =>
    obtain ⟨last, hpair, hlast⟩ := exists_writePair h hfits hnew
    rw [isTaken_of_fits h hnew hfits, hpair] at hcreate
    refine ⟨_, last, hcreate, .created, ?_⟩
    simpa [hfits] using hlast
  | false =>
    obtain ⟨e, he⟩ := exists_isTaken_of_not_fits h hnew hfits
    rw [he] at hcreate
    refine ⟨_, disk, hcreate, .failed e, ?_⟩
    simpa [hfits] using h

/-! ## 4. Calls one after the other -/

/-- Calls one after the other: what each of them says, and the disk after the last one. -/
def createEach (p : Project) : List Creation → Disk → List (Except Failure (Path × Path)) × Disk
  | [], disk => ([], disk)
  | c :: calls, disk =>
    let first := ofAction (create p c.title c.now) disk
    let rest := createEach p calls first.2
    (first.1 :: rest.1, rest.2)

/-- The migrations of the calls whose files can be named are added in the order of the calls. -/
theorem createEach_of_holds (h : Holds p made disk) (htitles : ∀ c ∈ calls, slug c.title ≠ "")
    (hnew : ((made ++ calls).map fileName).Nodup) : ∃ outcomes last,
      createEach p calls disk = (outcomes, last) ∧
        List.Forall₂ (fun c => Answers p c (c.fits p)) calls outcomes ∧
        Holds p (made ++ calls.filter (·.fits p)) last := by
  induction calls generalizing made disk with
  | nil => exact ⟨[], disk, rfl, .nil, by simpa using h⟩
  | cons c calls ih =>
    obtain ⟨htitle, htitles⟩ := List.forall_mem_cons.1 htitles
    have hfirst : c.fileName ∉ made.map fileName := by
      intro hmem
      rw [List.map_append, List.map_cons, List.nodup_middle] at hnew
      exact (List.nodup_cons.1 hnew).1 (List.mem_append_left _ hmem)
    obtain ⟨outcome, next, hcreate, hanswers, hnext⟩ := exists_create h htitle hfirst
    have hrest : ((made ++ [c].filter (·.fits p) ++ calls).map fileName).Nodup := by
      refine hnew.sublist (List.Sublist.map fileName ?_)
      rw [List.append_assoc]
      exact (List.Sublist.refl made).append
        (List.Sublist.append (List.filter_sublist (l := [c])) (List.Sublist.refl calls))
    obtain ⟨outcomes, last, hlater, hall, hlast⟩ := ih hnext htitles hrest
    refine ⟨outcome :: outcomes, last, ?_, .cons hanswers hall, ?_⟩
    · simp only [createEach, hcreate, hlater]
    · rw [List.append_assoc, ← List.filter_append] at hlast
      exact hlast

/-- Where the directories of the project cannot be made, every call fails and changes nothing. -/
theorem createEach_of_blocked {e : FileError} (h : ofAction p.makeLayout disk = (.error e, disk))
    (htitles : ∀ c ∈ calls, slug c.title ≠ "") : ∃ outcomes,
      createEach p calls disk = (outcomes, disk) ∧
        List.Forall₂ (fun c => Answers p c false) calls outcomes := by
  induction calls with
  | nil => exact ⟨[], rfl, .nil⟩
  | cons c calls ih =>
    obtain ⟨htitle, htitles⟩ := List.forall_mem_cons.1 htitles
    obtain ⟨outcomes, hlater, hall⟩ := ih htitles
    have hcreate := ofAction_create (p := p) htitle disk
    rw [h] at hcreate
    refine ⟨.error (.ofFile e) :: outcomes, ?_, .cons (.failed e) hall⟩
    simp only [createEach, hcreate, hlater]

/-- An attempt to make the directories that has failed may have made some of them, but later ones
fail as well. -/
theorem createEach_of_fault {e e' : FileError}
    (hfirst : ofAction p.makeLayout disk = (.error e, next))
    (hagain : ofAction p.makeLayout next = (.error e', next))
    (htitles : ∀ c ∈ calls, slug c.title ≠ "") : ∃ outcomes last,
      createEach p calls disk = (outcomes, last) ∧
        List.Forall₂ (fun c => Answers p c false) calls outcomes := by
  cases calls with
  | nil => exact ⟨[], disk, rfl, .nil⟩
  | cons c calls =>
    obtain ⟨htitle, htitles⟩ := List.forall_mem_cons.1 htitles
    obtain ⟨outcomes, hlater, hall⟩ := createEach_of_blocked hagain htitles
    have hcreate := ofAction_create (p := p) htitle disk
    rw [hfirst] at hcreate
    refine ⟨.error (.ofFile e) :: outcomes, next, ?_, .cons (.failed e) hall⟩
    simp only [createEach, hcreate, hlater]

/-- Only the first call makes the directories of the project. -/
theorem createEach_of_makeLayout (hfirst : ofAction p.makeLayout disk = (.ok (), next))
    (hagain : ofAction p.makeLayout next = (.ok (), next))
    (htitles : ∀ c ∈ calls, slug c.title ≠ "") (hcalls : calls ≠ []) :
    createEach p calls disk = createEach p calls next := by
  cases calls with
  | nil => exact absurd rfl hcalls
  | cons c calls =>
    have htitle := htitles c List.mem_cons_self
    have hsame : ofAction (create p c.title c.now) disk =
        ofAction (create p c.title c.now) next := by
      rw [ofAction_create htitle, ofAction_create htitle, hfirst, hagain]
    rw [createEach, createEach, hsame]

/-! ## 5. What the engine finds -/

/-- The files of the migrations are listed in the order in which the disk came to hold them. -/
theorem Holds.filesIn (h : Holds p made disk) (hsorted : (made.map fileName).Pairwise (· < ·))
    (d : Direction) : filesIn disk (p.directory d) = .ok (made.map fileName) := by
  have hdirectory : disk.isDirectory (p.directory d) = .ok true :=
    Disk.test_of_look (h.directory d)
  have hfiles : (disk.names (p.directory d)).filterM
      (fun name => disk.isFile ((p.directory d).child name)) = .ok (made.map fileName) := by
    rw [h.names d]
    refine filterM_eq_ok fun name hname => ?_
    obtain ⟨c, hc, rfl⟩ := List.mem_map.1 hname
    exact Disk.test_of_look (h.files c hc d)
  have hall : (made.map fileName).filter hasEnding = made.map fileName := by
    refine List.filter_eq_self.2 fun name hname => ?_
    obtain ⟨c, -, rfl⟩ := List.mem_map.1 hname
    exact c.hasEnding_fileName
  rw [filesIn_of_sorted hdirectory hfiles (hsorted.imp Std.le_of_lt), hall]

theorem Holds.readText (h : Holds p made disk) (hc : c ∈ made) (d : Direction) :
    disk.readText (c.path p d) = .ok (c.scaffold d) := by
  simp only [Disk.readText, bind_eq_ok, mapError_eq_ok]
  exact ⟨_, Disk.read_of_look (h.files c hc d), c.ofFile_scaffold d⟩

/-- No file holds a statement, and no semicolon is missing in one. -/
theorem Holds.parseFile (h : Holds p made disk) (hc : c ∈ made) (d : Direction) (strict : Bool) :
    Source.parseFile disk (c.path p d) strict = .ok [] := by
  rw [Source.parseFile, h.readText hc d]
  show (Source.parse (c.scaffold d) strict).mapError Failure.parse = .ok []
  rw [c.parse_scaffold d strict]
  rfl

/-- An identifier is found in the names of its own files only. -/
theorem find?_fileName (hc : c ∈ made) :
    (made.map fileName).find? (fun name => idOf name = c.id) = some c.fileName := by
  cases hfound : (made.map fileName).find? (fun name => idOf name = c.id) with
  | none =>
    have hnone := List.find?_eq_none.1 hfound _ (List.mem_map_of_mem hc)
    simp [idOf_fileName] at hnone
  | some name =>
    obtain ⟨b, -, rfl⟩ := List.mem_map.1 (List.mem_of_find?_eq_some hfound)
    have hid : idOf b.fileName = c.id := by simpa using List.find?_some hfound
    rw [idOf_fileName] at hid
    rw [fileName_inj.2 hid]

/-- A migration is reverted by the file that was made with it. -/
theorem Holds.downFile? (h : Holds p made disk) (hsorted : (made.map fileName).Pairwise (· < ·))
    (hc : c ∈ made) : downFile? p disk c.id = .ok (some (c.path p .down)) := by
  have hlist : Migration.filesIn disk p.downDirectory = .ok (made.map fileName) :=
    h.filesIn hsorted .down
  rw [Migration.downFile?, hlist]
  show Except.ok (((made.map fileName).find? fun name => idOf name = c.id).map _) = _
  rw [find?_fileName hc]
  rfl

/-- Later calls have greater names. -/
theorem pairwise_fileName (hproper : ∀ c ∈ calls, c.IsProper)
    (hlater : calls.Pairwise fun a b => a.now.Precedes b.now) :
    (calls.map fileName).Pairwise (· < ·) :=
  List.pairwise_map.2 <| hlater.imp_of_mem fun ha hb h => fileName_lt (hproper _ ha) (hproper _ hb) h

theorem nodup_id (hsorted : (calls.map fileName).Pairwise (· < ·)) :
    (calls.map Creation.id).Nodup := by
  rw [List.pairwise_map] at hsorted
  exact List.pairwise_map.2 (hsorted.imp fun hlt hid => Std.ne_of_lt hlt (fileName_inj.2 hid))

/-- A call succeeds if the directories of the project can be made and both files can be named. -/
def Creation.succeeds (c : Creation) (p : Project) (disk : Disk) : Bool :=
  (ofAction p.makeLayout disk).1.isOk && c.fits p

theorem succeeds_eq {outcome : Except FileError Unit}
    (h : ofAction p.makeLayout disk = (outcome, next)) (c : Creation) :
    c.succeeds p disk = (outcome.isOk && c.fits p) := by
  rw [Creation.succeeds, h]

/-- Before the directories of a new project are made, nothing is listed. -/
theorem filesIn_of_empty (hgrows : disk.Grows next) (hnext : Holds p [] next) (d : Direction) :
    filesIn disk (p.directory d) = .ok [] := by
  have hnames : disk.names (p.directory d) = [] := by
    have hprefix := hgrows.names_prefix (p.directory d)
    rw [hnext.names d] at hprefix
    exact List.prefix_nil.1 hprefix
  have hlook := Disk.look_ne_nameTooLong disk (hnext.directory d)
  have hdirectory : ∃ b, disk.isDirectory (p.directory d) = .ok b := by
    cases h : disk.look (p.directory d) with
    | ok entry => exact ⟨_, Disk.test_of_look h⟩
    | error fault => exact ⟨_, Disk.test_of_fault h fun hfault => hlook (hfault ▸ h)⟩
  obtain ⟨_ | _, hb⟩ := hdirectory
  · rw [filesIn, hb]
    rfl
  · exact filesIn_of_sorted hb (by rw [hnames]; rfl) .nil

/-- Calls in a new project. -/
theorem createEach_of_empty (hlayout : ofAction p.makeLayout disk = (.ok (), next))
    (hgrows : disk.Grows next) (hnext : Holds p [] next)
    (htitles : ∀ c ∈ calls, slug c.title ≠ "") (hsorted : (calls.map fileName).Pairwise (· < ·)) :
    let made := calls.filter (·.fits p)
    ∃ outcomes last, createEach p calls disk = (outcomes, last) ∧
      List.Forall₂ (fun c => Answers p c (c.fits p)) calls outcomes ∧
      (∀ d, filesIn last (p.directory d) = .ok (made.map fileName)) ∧
      ∀ c ∈ made, Holds p made last := by
  intro made
  by_cases hcalls : calls = []
  · subst hcalls
    exact ⟨[], disk, rfl, .nil, filesIn_of_empty hgrows hnext, by simp [made]⟩
  · obtain ⟨outcomes, last, hrun, hanswers, hlast⟩ :=
      createEach_of_holds hnext htitles (hsorted.imp Std.ne_of_lt)
    have hagain := makeLayout_of_laid hnext.laid
    have hkept : (made.map fileName).Pairwise (· < ·) :=
      hsorted.sublist (List.Sublist.map fileName List.filter_sublist)
    refine ⟨outcomes, last, ?_, hanswers, hlast.filesIn hkept, fun c _ => hlast⟩
    rw [createEach_of_makeLayout hlayout hagain htitles hcalls, hrun]

/-- Let a project be empty, and let calls with titles that leave something for a name come at later
and later seconds of years with four digits. A call fails, with an error of the disk, exactly if the
directories of the project cannot be made or a file cannot be named. No two calls have one
identifier. The files of the calls that succeed are listed in the order of the calls; both have the
identifier of the call in their names and hold no statement, whether semicolons may be left out or
not; and the file that reverts a migration is the one that was made with it. -/
theorem created_fit_engine (hempty : p.IsEmptyOn disk) (hproper : ∀ c ∈ calls, c.IsProper)
    (hlater : calls.Pairwise fun a b => a.now.Precedes b.now) :
    let made := calls.filter (·.succeeds p disk)
    ∃ outcomes last, createEach p calls disk = (outcomes, last) ∧
      List.Forall₂ (fun c => Answers p c (c.succeeds p disk)) calls outcomes ∧
      (calls.map Creation.id).Nodup ∧
      ((ofAction p.makeLayout disk).1.isOk →
        ∀ d, filesIn last (p.directory d) = .ok (made.map fileName)) ∧
      ∀ c ∈ made,
        (∀ d, idOf (c.path p d).name = c.id ∧ last.readText (c.path p d) = .ok (c.scaffold d) ∧
          ∀ strict, Source.parseFile last (c.path p d) strict = .ok []) ∧
        downFile? p last c.id = .ok (some (c.path p .down)) := by
  intro made
  have htitles : ∀ c ∈ calls, slug c.title ≠ "" := fun c hc => (hproper c hc).titled
  have hsorted := pairwise_fileName hproper hlater
  have hids := nodup_id hsorted
  obtain ⟨outcome, laid, hlayout, hgrows, hafter⟩ := DiskChange.forM_ensureAll_cases p.layout disk
  change ofAction p.makeLayout disk = (outcome, laid) at hlayout
  rcases hafter with ⟨rfl, hlaid⟩ | ⟨⟨e, rfl⟩, e', hagain⟩
  · have hsucceeds : ∀ c : Creation, c.succeeds p disk = c.fits p := fun c =>
      (succeeds_eq hlayout c).trans (Bool.true_and _)
    have hmade : made = calls.filter (·.fits p) := List.filter_congr fun c _ => hsucceeds c
    have hnone : Holds p [] laid := by
      refine ⟨hlaid, fun d => ?_, by simp⟩
      have hnames := hempty d
      rwa [hlayout] at hnames
    obtain ⟨outcomes, last, hrun, hanswers, hlist, hlast⟩ :=
      createEach_of_empty hlayout hgrows hnone htitles hsorted
    rw [← hmade] at hlist hlast
    have hkept : (made.map fileName).Pairwise (· < ·) :=
      hsorted.sublist (List.Sublist.map fileName List.filter_sublist)
    refine ⟨outcomes, last, hrun, ?_, hids, fun _ => hlist, fun c hc => ⟨fun d => ?_, ?_⟩⟩
    · exact hanswers.imp fun c outcome h => by rwa [hsucceeds c]
    · exact ⟨by rw [name_path, idOf_fileName], (hlast c hc).readText hc d,
        (hlast c hc).parseFile hc d⟩
    · exact (hlast c hc).downFile? hkept hc
  · have hsucceeds : ∀ c : Creation, c.succeeds p disk = false := fun c =>
      (succeeds_eq hlayout c).trans (Bool.false_and _)
    have hmade : made = [] := List.filter_eq_nil_iff.2 fun c _ => by simp [hsucceeds c]
    obtain ⟨outcomes, last, hrun, hanswers⟩ := createEach_of_fault hlayout hagain htitles
    refine ⟨outcomes, last, hrun, ?_, hids, fun hok => ?_, by simp [hmade]⟩
    · exact hanswers.imp fun c outcome h => by rwa [hsucceeds c]
    · rw [hlayout] at hok
      cases hok

/-- A call at a second of one minute. -/
def callAt (second : Nat) (title : String) : Creation :=
  { title, now := { date := ⟨2024, 3, 5⟩, hour := 14, minute := 30, second } }

theorem isProper_callAt {second : Nat} {title : String} (hsecond : second < 60)
    (htitle : slug title ≠ "") : (callAt second title).IsProper :=
  ⟨htitle, rfl, (by decide : 1000 ≤ 2024), (by decide : 14 < 24), (by decide : 30 < 60), hsecond⟩

/-- A title that is too long for a name. -/
@[irreducible]
def longTitle : String := String.ofList (List.replicate 300 'x')

theorem slug_longTitle : slug longTitle = longTitle := by
  have hkept : Text.replaceAll foreignExtent (fun _ => ['_'])
      (withoutEnding (Text.trim (List.replicate 300 'x'))) = List.replicate 300 'x' := by
    decide +kernel
  unfold slug longTitle
  rw [String.toList_ofList, hkept]

theorem fits_longTitle : (callAt 10 longTitle).fits {} = false := by
  have hname : ¬(callAt 10 longTitle).fileName.utf8ByteSize ≤ Disk.nameLimit := by
    rw [fileName, callAt, slug_longTitle]
    decide +kernel
  rw [fits, fitsIn, decide_eq_false hname, Bool.false_and, Bool.false_and]

/-- Of three calls the second one fails, and the others are not affected. -/
theorem created_fit_engine_callAt :
    let card := callAt 9 " add card.sql"
    let accent := callAt 11 "é/x"
    ∃ e last,
      createEach {} [card, callAt 10 longTitle, accent] {} =
        ([.ok (card.path {} .up, card.path {} .down), .error (.ofFile e),
          .ok (accent.path {} .up, accent.path {} .down)], last) ∧
      (∀ d, filesIn last (({} : Project).directory d) =
        .ok ["20240305143009__add_card.sql", "20240305143011___x.sql"]) ∧
      (∀ d strict, Source.parseFile last (card.path {} d) strict = .ok []) ∧
      downFile? {} last "20240305143011___x" = .ok (some (accent.path {} .down)) := by
  intro card accent
  have hempty : ({} : Project).IsEmptyOn {} := Project.isEmptyOn_of_names (fun _ => rfl) (by decide)
  have hlong : slug longTitle ≠ "" := by
    rw [slug_longTitle]
    decide +kernel
  have hproper : ∀ c ∈ [card, callAt 10 longTitle, accent], c.IsProper :=
    List.forall_mem_cons.2 ⟨isProper_callAt (by decide) (by decide +kernel),
      List.forall_mem_cons.2 ⟨isProper_callAt (by decide) hlong,
        List.forall_mem_cons.2 ⟨isProper_callAt (by decide) (by decide +kernel), by simp⟩⟩⟩
  have hlater : [card, callAt 10 longTitle, accent].Pairwise fun a b => a.now.Precedes b.now := by
    decide
  have hlayout : (ofAction ({} : Project).makeLayout {}).1.isOk = true := by decide +kernel
  have hcard : card.succeeds {} {} = true := by decide +kernel
  have hfails : (callAt 10 longTitle).succeeds {} {} = false := by
    rw [Creation.succeeds, fits_longTitle, Bool.and_false]
  have haccent : accent.succeeds {} {} = true := by decide +kernel
  have hmade : [card, callAt 10 longTitle, accent].filter (·.succeeds {} {}) = [card, accent] := by
    simp [hcard, hfails, haccent]
  have hnames : [card, accent].map fileName =
      ["20240305143009__add_card.sql", "20240305143011___x.sql"] := by decide +kernel
  have hid : accent.id = "20240305143011___x" := by decide +kernel
  obtain ⟨outcomes, last, hrun, hanswers, -, hlist, hfound⟩ :=
    created_fit_engine hempty hproper hlater
  rw [hmade] at hlist hfound
  obtain _ | ⟨hfirst, _ | ⟨hsecond, _ | ⟨hthird, _ | _⟩⟩⟩ := hanswers
  rw [hcard] at hfirst
  rw [hfails] at hsecond
  rw [haccent] at hthird
  cases hfirst
  cases hthird
  cases hsecond with
  | failed e =>
    refine ⟨e, last, hrun, fun d => ?_, fun d strict => ?_, ?_⟩
    · rw [hlist hlayout d, hnames]
    · exact ((hfound card (by simp)).1 d).2.2 strict
    · rw [← hid]
      exact (hfound accent (by simp)).2

end Migration

end StyleLedger
