import StyleLedger.Proofs.Digest
import StyleLedger.Proofs.Migration.Atomic

/-!
Going up until nothing is pending, and going down until nothing is applied.

What is pending is worked out anew from the log at every call, and by identifiers, not by names. So
a file would be passed over if another one had its identifier. An identifier is cut out of a name in
two ways, but where a name has the ending in small letters both leave out the ending and nothing
else (`toList_idOf`), and names that differ have identifiers that differ. From there on each call
applies the first of the files that are left, and the stack is the identifiers of those before it.

* `Engine.applyEach` — files applied one after the other, each at its time.
* `Engine.Drain` — calls in one direction until one finds nothing.
* `Engine.up_drains_and_down_restores` — both directions.
-/

namespace StyleLedger

open Outcome

/-! ## 1. Identifiers of names with the ending -/

namespace Migration

theorem append_ending_of_stampedId? {cs id : List Char} (hending : ending <:+ cs)
    (h : stampedId? cs = some id) : id ++ ending = cs := by
  unfold stampedId? at h
  dsimp only at h
  split at h
  · next rest hrest =>
    split at h
    · next hfit =>
      obtain rfl := Option.some.inj h
      have hsplit : cs.takeWhile Text.isDecimal ++ '_' :: '_' ::
          (rest.takeWhile (· != '.') ++ rest.dropWhile (· != '.')) = cs := by
        rw [List.takeWhile_append_dropWhile, ← hrest, List.takeWhile_append_dropWhile]
      simp only [Bool.and_eq_true, Bool.or_eq_true, beq_iff_eq] at hfit
      rcases hfit.2 with htail | htail
      · simpa [htail] using hsplit
      · -- the ending would end in a line feed
        rw [htail] at hsplit
        have hlast := congrArg List.getLast? hsplit
        obtain ⟨front, rfl⟩ := hending
        simp [ending, List.getLast?_append, List.getLast?_cons] at hlast
    · simp at h
  · simp at h

/-- A name with the ending is its identifier and the ending. -/
theorem toList_idOf {name : String} (h : ending <:+ name.toList) :
    (idOf name).toList ++ ending = name.toList := by
  rw [idOf, String.toList_ofList]
  cases hstamped : stampedId? name.toList with
  | some id => exact append_ending_of_stampedId? h hstamped
  | none =>
    rw [Option.getD_none, withoutEnding, if_pos (List.isSuffixOf_iff_suffix.2 h)]
    obtain ⟨front, hfront⟩ := h
    rw [← hfront]
    simp

theorem idOf_inj {a b : String} (ha : ending <:+ a.toList) (hb : ending <:+ b.toList)
    (h : idOf a = idOf b) : a = b := by
  rw [← String.toList_inj, ← toList_idOf ha, ← toList_idOf hb, h]

/-! ## 2. The files of a directory -/

variable {disk : Disk} {directory : Path} {files : List String}

theorem nodup_names (hdisk : disk.entries.keys.Nodup) (directory : Path) :
    (disk.names directory).Nodup := by
  refine hdisk.filterMap fun place place' name hname hname' => ?_
  rw [← (Disk.nameInside?_eq_some hname).1, ← (Disk.nameInside?_eq_some hname').1]

/-- The files of a directory come in the order of their names, each once. -/
theorem pairwise_of_filesIn (hdisk : disk.entries.keys.Nodup)
    (h : filesIn disk directory = .ok files) : files.Pairwise (· < ·) := by
  obtain ⟨kept, hkept, rfl⟩ := exists_of_filesIn h
  have hsorted : ((kept.filter hasEnding).mergeSort fun a b => a ≤ b).Pairwise (· ≤ ·) := by
    have htrans : ∀ a b c : String, decide (a ≤ b) → decide (b ≤ c) → decide (a ≤ c) := by
      simpa using fun a b c => String.le_trans
    have htotal : ∀ a b : String, decide (a ≤ b) || decide (b ≤ a) := by
      simpa using String.le_total
    exact (List.pairwise_mergeSort htrans htotal _).imp of_decide_eq_true
  have hnodup : ((kept.filter hasEnding).mergeSort fun a b => a ≤ b).Nodup :=
    (List.mergeSort_perm _ _).nodup_iff.2
      (((nodup_names hdisk directory).sublist hkept).filter _)
  exact hsorted.imp₂ (fun a b hle hne => Std.lt_of_le_of_ne hle hne) hnodup

/-- Where the files are found in the order of their names, they stay in it. -/
theorem filesIn_of_sorted (hdirectory : disk.isDirectory directory = .ok true)
    (hfiles : (disk.names directory).filterM (fun name => disk.isFile (directory.child name)) =
      .ok files)
    (hsorted : files.Pairwise (· ≤ ·)) : filesIn disk directory = .ok (files.filter hasEnding) := by
  rw [filesIn, bind_eq_ok]
  refine ⟨true, hdirectory, ?_⟩
  rw [if_pos rfl, bind_eq_ok]
  refine ⟨files, hfiles, ?_⟩
  have hkept : (files.filter hasEnding).Pairwise (fun a b => decide (a ≤ b) = true) :=
    (hsorted.filter _).imp fun h => decide_eq_true h
  exact congrArg Except.ok (List.mergeSort_of_pairwise hkept)

/-- Files behind those that are applied are pending, if no identifier occurs twice. -/
theorem pendingFiles_append {done rest : List String} (h : ((done ++ rest).map idOf).Nodup) :
    pendingFiles (done ++ rest) (done.map idOf) = rest := by
  rw [List.map_append, List.nodup_append] at h
  obtain ⟨-, -, hdiffer⟩ := h
  have hdone : done.filter (fun name => !(done.map idOf).contains (idOf name)) = [] := by
    rw [List.filter_eq_nil_iff]
    intro name hname
    simpa using ⟨name, hname, rfl⟩
  have hrest : rest.filter (fun name => !(done.map idOf).contains (idOf name)) = rest := by
    rw [List.filter_eq_self]
    intro name hname
    rw [Bool.not_eq_true', ← Bool.not_eq_true, List.contains_iff_mem]
    exact fun hmem => hdiffer _ hmem _ (List.mem_map_of_mem hname) rfl
  rw [pendingFiles, List.filter_append, hdone, hrest, List.nil_append]

end Migration

/-! ## 3. Calls until nothing is found -/

namespace Engine

open Migration

/-- The engine when the clock shows a time. -/
def atTime (engine : Engine) (time : String) : Engine :=
  { engine with clock := .ok time }

/-- The store after some files, applied one after the other, each at its time. -/
def applyEach (engine : Engine) (disk : Disk) (d : Direction) (store : Store)
    (steps : List (Path × String)) : Except Failure Store :=
  steps.foldlM (fun store step =>
    Prod.fst <$> (engine.atTime step.2).applyFile disk store step.1 d) store

/-- Calls in one direction at some times, the last of which finds nothing to do: the store that they
lead to, and the entries that they add. -/
inductive Drain (engine : Engine) (disk : Disk) (d : Direction) :
    List String → Store → List LogEntry → Store → Prop
  | done {time : String} {store : Store}
      (h : (engine.atTime time).migrate disk store d = .ok none) :
      Drain engine disk d [time] store [] store
  | call {time : String} {times : List String} {store next last : Store} {e : LogEntry}
      {entries : List LogEntry}
      (h : (engine.atTime time).migrate disk store d = .ok (some (next, e)))
      (hrest : Drain engine disk d times next entries last) :
      Drain engine disk d (time :: times) store (e :: entries) last

variable {engine : Engine} {disk : Disk} {files : List String}

theorem pending_eq (hfiles : filesIn disk engine.project.upDirectory = .ok files) (store : Store) :
    engine.pending disk store = .ok ((pendingFiles files (appliedStack store.log)).map
      engine.project.upDirectory.child) := by
  rw [pending, hfiles]
  rfl

/-- What is to be done next does not depend on the time. -/
theorem nextFile_atTime (time : String) (store : Store) (d : Direction) :
    (engine.atTime time).nextFile disk store d = engine.nextFile disk store d := by
  cases d with
  | up => rfl
  | down => rfl

theorem migrate_of_none (time : String) {store : Store} {d : Direction}
    (h : engine.nextFile disk store d = .ok none) :
    (engine.atTime time).migrate disk store d = .ok none := by
  rw [migrate_eq, nextFile_atTime, h]
  rfl

theorem migrate_of_some {time : String} {store : Store} {d : Direction} {path : Path}
    {next : Store × LogEntry} (h : engine.nextFile disk store d = .ok (some path))
    (happly : (engine.atTime time).applyFile disk store path d = .ok next) :
    (engine.atTime time).migrate disk store d = .ok (some next) := by
  rw [migrate_eq, nextFile_atTime, h]
  exact some_map_eq_ok.2 happly

theorem nextFile_up {store : Store} {paths : List Path}
    (h : engine.pending disk store = .ok paths) :
    engine.nextFile disk store .up = .ok paths.head? := by
  rw [nextFile, h]
  rfl

theorem nextFile_down {store : Store} {top : String} {path : Path}
    (htop : (appliedStack store.log).getLast? = some top)
    (h : downFile? engine.project disk top = .ok (some path)) :
    engine.nextFile disk store .down = .ok (some path) := by
  rw [nextFile, htop]
  simp only [h]
  rfl

theorem name_of_downFile? {p : Project} {id : String} {path : Path}
    (h : downFile? p disk id = .ok (some path)) : idOf path.name = id := by
  simp only [downFile?, bind_eq_ok, pure_eq_ok] at h
  obtain ⟨names, hnames, h⟩ := h
  obtain ⟨name, hname, rfl⟩ := Option.map_eq_some_iff.1 h
  rw [Path.name_child (isStep_of_filesIn hnames name (List.mem_of_find?_eq_some hname))]
  simpa using List.find?_some hname

/-- The first of some steps that all succeed. -/
theorem exists_of_applyEach {d : Direction} {step : Path × String} {steps : List (Path × String)}
    {store last : Store} (h : engine.applyEach disk d store (step :: steps) = .ok last) :
    ∃ next e, (engine.atTime step.2).applyFile disk store step.1 d = .ok (next, e) ∧
      engine.applyEach disk d next steps = .ok last := by
  rw [applyEach, List.foldlM_cons] at h
  obtain ⟨next, hnext, hrest⟩ := bind_eq_ok.1 h
  obtain ⟨⟨next, e⟩, happly, rfl⟩ := map_eq_ok.1 hnext
  exact ⟨next, e, happly, hrest⟩

/-- Going up from where the files in front are on the stack applies the others in their order. -/
theorem drain_up (hfiles : filesIn disk engine.project.upDirectory = .ok files)
    (hids : (files.map idOf).Nodup) {done rest : List String} (hsplit : files = done ++ rest)
    {steps : List (Path × String)}
    (hsteps : steps.map (·.1) = rest.map engine.project.upDirectory.child) {store last : Store}
    (hstack : appliedStack store.log = done.map idOf)
    (happly : engine.applyEach disk .up store steps = .ok last) :
    ∃ entries, (∀ time, engine.Drain disk .up (steps.map (·.2) ++ [time]) store entries last) ∧
      last.log = store.log ++ entries ∧ appliedStack last.log = files.map idOf ∧
      List.Forall₂ (fun name e =>
        e.direction = Direction.up.name ∧ e.filename = name ∧ e.migrationId = idOf name)
        rest entries := by
  have hpending := pending_eq hfiles store
  rw [hstack, hsplit, pendingFiles_append (hsplit ▸ hids)] at hpending
  induction rest generalizing done steps store with
  | nil =>
    obtain rfl : steps = [] := by simpa using hsteps
    obtain rfl : store = last := pure_eq_ok.1 happly
    exact ⟨[], fun time => .done (migrate_of_none time (nextFile_up hpending)), by simp,
      by simpa [hsplit] using hstack, .nil⟩
  | cons name rest ih =>
    rw [List.map_cons, List.map_eq_cons_iff] at hsteps
    obtain ⟨step, steps, rfl, hstep, hsteps⟩ := hsteps
    obtain ⟨next, e, hfirst, hrest⟩ := exists_of_applyEach happly
    have hname : step.1.name = name := by
      rw [hstep]
      exact Path.name_child (isStep_of_filesIn hfiles name (by simp [hsplit])) _
    obtain ⟨hfile, hid, hdirection, -⟩ := Operation.entry_of_applyFile hfirst
    obtain ⟨hlog, -⟩ := Operation.log_applyFile hfirst
    rw [hname] at hfile hid
    have hsplit' : files = (done ++ [name]) ++ rest := by simpa using hsplit
    have hstack' : appliedStack next.log = (done ++ [name]).map idOf := by
      rw [hlog, appliedStack_concat, replay_up hdirection, hstack, hid]
      simp
    have hpending' := pending_eq hfiles next
    rw [hstack', hsplit', pendingFiles_append (hsplit' ▸ hids)] at hpending'
    obtain ⟨entries, hdrain, hlast, hstacked, hentries⟩ :=
      ih hsplit' hsteps hstack' hrest hpending'
    have hcall : (engine.atTime step.2).migrate disk store .up = .ok (some (next, e)) :=
      migrate_of_some (nextFile_up hpending) (hstep ▸ hfirst)
    exact ⟨e :: entries, fun time => .call hcall (hdrain time), by simp [hlast, hlog], hstacked,
      .cons ⟨hdirection, hfile, hid⟩ hentries⟩

/-- Going down from a stack takes off everything, the top first. -/
theorem drain_down {ids : List String} {steps : List (Path × String)}
    (hsteps : List.Forall₂ (fun id step =>
      downFile? engine.project disk id = .ok (some step.1)) ids steps) {store last : Store}
    (hstack : appliedStack store.log = ids.reverse)
    (happly : engine.applyEach disk .down store steps = .ok last) :
    ∃ entries, (∀ time, engine.Drain disk .down (steps.map (·.2) ++ [time]) store entries last) ∧
      last.log = store.log ++ entries ∧ appliedStack last.log = [] ∧
      List.Forall₂ (fun id e => e.direction = Direction.down.name ∧ e.migrationId = id)
        ids entries := by
  induction hsteps generalizing store with
  | nil =>
    obtain rfl : store = last := pure_eq_ok.1 happly
    have hnone : engine.nextFile disk store .down = .ok none :=
      nextFile_eq_none_iff.2 (.inr ⟨rfl, hstack⟩)
    exact ⟨[], fun time => .done (migrate_of_none time hnone), by simp, hstack, .nil⟩
  | @cons id step ids steps hstep _ ih =>
    obtain ⟨next, e, hfirst, hrest⟩ := exists_of_applyEach happly
    have htop : (appliedStack store.log).getLast? = some id := by simp [hstack]
    obtain ⟨-, hid, hdirection, -⟩ := Operation.entry_of_applyFile hfirst
    obtain ⟨hlog, -⟩ := Operation.log_applyFile hfirst
    rw [name_of_downFile? hstep] at hid
    have hstack' : appliedStack next.log = ids.reverse := by
      rw [hlog, appliedStack_concat, replay_down hdirection, hstack]
      simp
    obtain ⟨entries, hdrain, hlast, hstacked, hentries⟩ := ih hstack' hrest
    have hcall : (engine.atTime step.2).migrate disk store .down = .ok (some (next, e)) :=
      migrate_of_some (nextFile_down htop hstep) hfirst
    exact ⟨e :: entries, fun time => .call hcall (hdrain time), by simp [hlast, hlog], hstacked,
      .cons ⟨hdirection, hid⟩ hentries⟩

/-- Let the names of all files have the ending in small letters, and let the files apply in the
order of their names to a store with an empty log. Then as many calls to go up as there are files
succeed and the next one finds nothing: each file has one entry, in the order of the names, and the
stack is their identifiers in this order. If then each migration has a file to revert it and these
apply, as many calls to go down succeed and the next one finds nothing: they take the same
identifiers off in the opposite order, and every file is pending again. -/
theorem up_drains_and_down_restores {store last : Store} (hlog : store.log = [])
    (hdisk : disk.entries.keys.Nodup)
    (hfiles : filesIn disk engine.project.upDirectory = .ok files)
    (hending : ∀ name ∈ files, ending <:+ name.toList) {ups : List (Path × String)}
    (hups : ups.map (·.1) = files.map engine.project.upDirectory.child)
    (happly : engine.applyEach disk .up store ups = .ok last) :
    files.Pairwise (· < ·) ∧ ∃ applied,
      (∀ time, engine.Drain disk .up (ups.map (·.2) ++ [time]) store applied last) ∧
      last.log = applied ∧ appliedStack last.log = files.map idOf ∧
      List.Forall₂ (fun name e =>
        e.direction = Direction.up.name ∧ e.filename = name ∧ e.migrationId = idOf name)
        files applied ∧
      ∀ (downs : List (Path × String)) (first : Store),
        List.Forall₂ (fun name step =>
          downFile? engine.project disk (idOf name) = .ok (some step.1)) files.reverse downs →
        engine.applyEach disk .down last downs = .ok first →
        ∃ reverted,
          (∀ time, engine.Drain disk .down (downs.map (·.2) ++ [time]) last reverted first) ∧
          first.log = applied ++ reverted ∧ appliedStack first.log = [] ∧
          List.Forall₂ (fun name e =>
            e.direction = Direction.down.name ∧ e.migrationId = idOf name) files.reverse reverted ∧
          engine.pending disk first = .ok (files.map engine.project.upDirectory.child) := by
  have hsorted := pairwise_of_filesIn hdisk hfiles
  have hids : (files.map idOf).Nodup := by
    refine List.Nodup.map_on (fun a ha b hb => idOf_inj (hending a ha) (hending b hb)) ?_
    exact hsorted.imp fun hlt => Std.ne_of_lt hlt
  have hstart : appliedStack store.log = [].map idOf := by simp [hlog, appliedStack]
  have hsplit : files = [] ++ files := rfl
  obtain ⟨applied, hdrain, hlast, hstack, happlied⟩ :=
    drain_up hfiles hids hsplit hups hstart happly
  rw [hlog, List.nil_append] at hlast
  refine ⟨hsorted, applied, hdrain, hlast, hstack, happlied, fun downs first hdowns hdown => ?_⟩
  have hreversed : appliedStack last.log = (files.reverse.map idOf).reverse := by
    rw [hstack, List.map_reverse, List.reverse_reverse]
  obtain ⟨reverted, hdrain, hfirst, hempty, hreverted⟩ :=
    drain_down (List.forall₂_map_left_iff.2 hdowns) hreversed hdown
  refine ⟨reverted, hdrain, hlast ▸ hfirst, hempty, List.forall₂_map_left_iff.1 hreverted, ?_⟩
  have hpending : pendingFiles files [] = files := @pendingFiles_append [] files hids
  rw [pending_eq hfiles, hempty, hpending]

/-- A disk with two migrations, of which only the second is named by its stamp. -/
def pairDisk : Disk :=
  { entries := ⟨[
    (["icbincss"], .directory), (["icbincss", "migrations"], .directory),
    (["icbincss", "migrations", "up"], .directory),
    (["icbincss", "migrations", "down"], .directory),
    (["icbincss", "migrations", "up", "20240101__a.b.sql"], .file (Text.Utf8.encode "")),
    (["icbincss", "migrations", "up", "20240101__a.sql"], .file (Text.Utf8.encode "RAW 'x';")),
    (["icbincss", "migrations", "down", "20240101__a.b.sql"], .file (Text.Utf8.encode "")),
    (["icbincss", "migrations", "down", "20240101__a.sql"], .file (Text.Utf8.encode ""))]⟩ }

/-- The store when both are applied. -/
def pairStore : Store :=
  { content := {
      rawBlocks := [⟨[
        ("id", .text "a3eb4ed1-4351-5071-b44b-7a7b2c5dd413"), ("css", .text "x"),
        ("sequence", .number (.integer 0)),
        ("origin_file", .text "icbincss/migrations/up/20240101__a.sql"),
        ("migration_id", .text "20240101__a")]⟩]
      migrations := [
        { migrationId := "20240101__a.b", filename := "20240101__a.b.sql", direction := "up"
          checksum := "da39a3ee5e6b4b0d3255bfef95601890afd80709", appliedAt := "T1"
          seq := some 1 },
        { migrationId := "20240101__a", filename := "20240101__a.sql", direction := "up"
          checksum := "7235175c37895426a77af7732a73deee436b385f", appliedAt := "T2"
          seq := some 2 }] }
    lastNumber := 2 }

/-- Both directories have the same files. -/
theorem filesIn_pairDisk (d : Direction) : filesIn pairDisk (({} : Project).directory d) =
    .ok ["20240101__a.b.sql", "20240101__a.sql"] := by
  have hfound : pairDisk.isDirectory (({} : Project).directory d) = .ok true ∧
      (pairDisk.names (({} : Project).directory d)).filterM
        (fun name => pairDisk.isFile ((({} : Project).directory d).child name)) =
          .ok ["20240101__a.b.sql", "20240101__a.sql"] := by
    cases d with
    | up => exact ⟨eq_ok_of_toOption (by decide +kernel), eq_ok_of_toOption (by decide +kernel)⟩
    | down => exact ⟨eq_ok_of_toOption (by decide +kernel), eq_ok_of_toOption (by decide +kernel)⟩
  exact filesIn_of_sorted hfound.1 hfound.2 (by decide +kernel)

theorem up_drains_and_down_restores_pairDisk :
    let files := ["20240101__a.b.sql", "20240101__a.sql"]
    ∃ applied reverted first,
      Drain {} pairDisk .up ["T1", "T2", "T3"] {} applied pairStore ∧
      pairStore.log = applied ∧ appliedStack pairStore.log = files.map idOf ∧
      Drain {} pairDisk .down ["T4", "T5", "T6"] pairStore reverted first ∧
      first.log = applied ++ reverted ∧ appliedStack first.log = [] ∧
      pending {} pairDisk first = .ok (files.map ({} : Project).upDirectory.child) := by
  intro files
  let ups := (files.map ({} : Project).upDirectory.child).zip ["T1", "T2"]
  let downs := (files.reverse.map ({} : Project).downDirectory.child).zip ["T4", "T5"]
  have hup : applyEach {} pairDisk .up {} ups = .ok pairStore := eq_ok_of_toOption (by
    unfold applyEach applyFile applyTo statementsOf checksum Digest.sha1Hex Snapshot.ofCascade
      Snapshot.rawRow
    rw [Source.parse_eq, Digest.sha1_eq, Identity.entityId_eq]
    decide +kernel)
  obtain ⟨first, hdown, -⟩ := exists_ok_of_any (p := fun _ => true)
    (x := applyEach {} pairDisk .down pairStore downs) (by decide +kernel)
  have hdowns : List.Forall₂ (fun name step =>
      downFile? {} pairDisk (idOf name) = .ok (some step.1)) files.reverse downs := by
    have hfind : ∀ id, downFile? {} pairDisk id =
        .ok ((files.find? fun name => idOf name = id).map ({} : Project).downDirectory.child) := by
      intro id
      rw [downFile?, bind_eq_ok]
      exact ⟨files, filesIn_pairDisk .down, rfl⟩
    simp only [hfind]
    exact .cons (by decide +kernel) (.cons (by decide +kernel) .nil)
  have hstart : ({} : Store).log = [] := rfl
  have hfiles : filesIn pairDisk ({} : Engine).project.upDirectory = .ok files :=
    filesIn_pairDisk .up
  obtain ⟨-, applied, hdrain, hlog, hstack, -, hrest⟩ := up_drains_and_down_restores hstart
    (by decide +kernel) hfiles (by decide +kernel) (by decide +kernel) hup
  obtain ⟨reverted, hback, hfirst, hempty, -, hpending⟩ := hrest downs first hdowns hdown
  exact ⟨applied, reverted, first, hdrain "T3", hlog, hstack, hback "T6", hfirst, hempty, hpending⟩

end Engine

end StyleLedger
