import Mathlib.Data.List.Induction
import StyleLedger.Proofs.Disk
import StyleLedger.Proofs.Migration.Atomic

/-!
Drift is found exactly where a file is no longer what it was when its entry was written.

The search for drift does not follow the stack of applied migrations. It goes through the whole log
and keeps the last entry that went up for each of them. In an orderly log this is the entry that has
put the migration on the stack: had a later one put it there again, it would have been taken off in
between, and so would the earlier one. What these entries have kept is the checksum of the content
that was read when they were written, so the search compares with the right content however often a
migration was reverted and applied again.

The search takes any entry at the path of a file for the file. Where a directory has come to stand
there it fails, and reports nothing of the other files either.

* `Migration.appliedEntries` — the stack, entry by entry.
* `Migration.driftFrom` — what is to be reported of an entry and the content of its file.
* `Engine.findDrift_visits` — what the search finds after any run.
-/

namespace StyleLedger

open Outcome

/-! ## 1. The entries on the stack -/

namespace Migration

/-- The entries that have put the applied migrations on the stack, the top last. -/
def appliedEntries (log : List LogEntry) : List LogEntry :=
  log.foldl (fun stack e => move stack e e.direction) []

variable {log : List LogEntry}

theorem appliedEntries_concat (log : List LogEntry) (e : LogEntry) :
    appliedEntries (log ++ [e]) = move (appliedEntries log) e e.direction := by
  simp [appliedEntries]

theorem move_up {α : Type} (stack : List α) (x : α) :
    move stack x Direction.up.name = stack ++ [x] := rfl

theorem move_down {α : Type} (stack : List α) (x : α) :
    move stack x Direction.down.name = stack.dropLast := rfl

theorem map_move {α β : Type} (f : α → β) (stack : List α) (x : α) (direction : String) :
    (move stack x direction).map f = move (stack.map f) (f x) direction := by
  unfold move
  split
  · simp
  · exact List.map_dropLast
  · rfl

/-- The stack is the migrations of these entries. -/
theorem map_appliedEntries (log : List LogEntry) :
    (appliedEntries log).map (·.migrationId) = appliedStack log := by
  induction log using List.reverseRecOn with
  | nil => rfl
  | append_singleton log e ih =>
    rw [appliedEntries_concat, appliedStack_concat, replay, map_move, ih]

/-- Nothing but this entry itself is found for the migration of an entry at the end. -/
theorem latestUp?_concat {e : LogEntry} {id : String} :
    latestUp? (log ++ [e]) id =
      if e.direction = Direction.up.name ∧ e.migrationId = id then some e
      else latestUp? log id := by
  by_cases he : e.direction = Direction.up.name ∧ e.migrationId = id
  · simp [latestUp?, he]
  · rw [if_neg he, latestUp?, List.reverse_append, List.reverse_singleton, List.singleton_append,
      List.find?_cons_of_neg (by simpa using he)]
    rfl

/-- The last entry that went up for a migration of the stack is the one that has put it there. -/
theorem IsOrderly.latestUp?_of_mem (h : IsOrderly log) :
    ∀ e ∈ appliedEntries log, latestUp? log e.migrationId = some e := by
  induction h with
  | nil => simp [appliedEntries]
  | @concat log x _ d hd hadmits ih =>
    intro e he
    rw [appliedEntries_concat, hd] at he
    rw [latestUp?_concat, hd]
    cases d with
    | up =>
      rw [move_up, List.mem_append, List.mem_singleton] at he
      rcases he with he | rfl
      · have hother : x.migrationId ≠ e.migrationId := by
          intro hid
          refine hadmits ?_
          rw [hid, ← map_appliedEntries]
          exact List.mem_map_of_mem he
        rw [if_neg (fun h => hother h.2)]
        exact ih e he
      · rw [if_pos ⟨rfl, rfl⟩]
    | down =>
      rw [move_down] at he
      rw [if_neg (fun h => absurd h.1 (by decide))]
      exact ih e (List.dropLast_subset _ he)

theorem nodup_latestUps (log : List LogEntry) : (latestUps log).Nodup := by
  let ups := log.filter fun e =>
    e.direction = Direction.up.name && (appliedStack log).contains e.migrationId
  let table := Table.ofList (ups.map fun e => (e.migrationId, e))
  have hcanonical : table.IsCanonical := Table.isCanonical_ofList fun _ _ => key_string _
  have hname : ∀ entry ∈ table.entries, entry.2.migrationId = entry.1 := by
    intro entry hentry
    have hget := (hcanonical.get?_eq_some_iff (key_string entry.1)).2 hentry
    rw [Table.get?_ofList, ← List.map_reverse, Table.lookup_map_self] at hget
    simpa using List.find?_some hget
  refine List.Nodup.map_on (fun a ha b hb hab => ?_) (List.Nodup.of_map _ hcanonical.distinct)
  exact Prod.ext (by rw [← hname a ha, ← hname b hb, hab]) hab

/-- Drift is looked for in the entries that have put the migrations on the stack. -/
theorem IsOrderly.latestUps_perm (h : IsOrderly log) :
    (latestUps log).Perm (appliedEntries log) := by
  have hnodup : (appliedEntries log).Nodup := by
    refine List.Nodup.of_map (·.migrationId) ?_
    rw [map_appliedEntries]
    exact h.nodup
  refine (List.perm_ext_iff_of_nodup (nodup_latestUps log) hnodup).2 fun e => ?_
  rw [mem_latestUps, ← map_appliedEntries]
  constructor
  · rintro ⟨hid, he⟩
    obtain ⟨x, hx, hname⟩ := List.mem_map.1 hid
    have hlatest := h.latestUp?_of_mem x hx
    rw [hname, he] at hlatest
    exact Option.some.inj hlatest ▸ hx
  · intro he
    exact ⟨List.mem_map_of_mem he, h.latestUp?_of_mem e he⟩

/-! ## 2. The drift of an entry -/

/-- What is to be reported of an entry whose file has a content now, or is gone. -/
def driftFrom (e : LogEntry) : Option Text.Bytes → Option Drift
  | none => some { file := e.filename, appliedAt := e.appliedAt, expected := e.checksum }
  | some content =>
    if Digest.sha1Hex content = e.checksum then none
    else some { file := e.filename, appliedAt := e.appliedAt, expected := e.checksum
                current := some (Digest.sha1Hex content) }

/-- Where no directory stands in the place of the file, its content decides on the drift. -/
theorem driftOf_eq_ok_iff {p : Project} {disk : Disk} {e : LogEntry} {drift? : Option Drift}
    (hname : disk.look (p.upDirectory.child e.filename) ≠ .error .nameTooLong) :
    driftOf p disk e = .ok drift? ↔
      disk.isDirectory (p.upDirectory.child e.filename) ≠ .ok true ∧
        driftFrom e (disk.content? (p.upDirectory.child e.filename)) = drift? := by
  rw [driftOf, Disk.pathExists, checksum, Disk.isDirectory, Disk.content?, bind_eq_ok]
  cases hlook : disk.look (p.upDirectory.child e.filename) with
  | ok entry =>
    rw [Disk.test_of_look hlook, Disk.test_of_look hlook]
    cases entry with
    | directory =>
      rw [Disk.read_of_directory hlook]
      simp [DiskEntry.isDirectory, Except.map]
    | file content =>
      rw [Disk.read_of_look hlook]
      simp [DiskEntry.isDirectory, Except.map, Except.toOption, driftFrom]
  | error fault =>
    have hfault : fault ≠ .nameTooLong := by
      rintro rfl
      exact hname hlook
    rw [Disk.test_of_fault hlook hfault, Disk.test_of_fault hlook hfault,
      Disk.read_of_fault hlook]
    simp [pure_eq_ok, Except.toOption, driftFrom]

section Search

variable {p : Project} {disk : Disk} {log : List LogEntry} (h : IsOrderly log)
  (hname : ∀ e ∈ appliedEntries log,
    disk.look (p.upDirectory.child e.filename) ≠ .error .nameTooLong)

include h hname

/-- The search fails exactly where a directory stands in the place of a file. -/
theorem IsOrderly.exists_findDrift_iff : (∃ drift, findDrift p disk log = .ok drift) ↔
    ∀ e ∈ appliedEntries log, disk.isDirectory (p.upDirectory.child e.filename) ≠ .ok true := by
  have hsearch : (∃ drift, findDrift p disk log = .ok drift) ↔
      ∃ drift?s, (latestUps log).mapM (driftOf p disk) = .ok drift?s := by
    simp only [findDrift, bind_eq_ok, pure_eq_ok]
    constructor
    · rintro ⟨_, drift?s, hall, -⟩
      exact ⟨drift?s, hall⟩
    · rintro ⟨drift?s, hall⟩
      exact ⟨_, drift?s, hall, rfl⟩
  rw [hsearch, exists_mapM_iff]
  refine ⟨fun hall e he => ?_, fun hall e he => ?_⟩
  · obtain ⟨drift?, hdrift⟩ := hall e (h.latestUps_perm.symm.subset he)
    exact ((driftOf_eq_ok_iff (hname e he)).1 hdrift).1
  · have happlied := h.latestUps_perm.subset he
    exact ⟨_, (driftOf_eq_ok_iff (hname e happlied)).2 ⟨hall e happlied, rfl⟩⟩

/-- What the search finds is the drift of each entry on the stack. -/
theorem IsOrderly.findDrift_perm {drift : List Drift} (hdrift : findDrift p disk log = .ok drift) :
    drift.Perm ((appliedEntries log).filterMap fun e =>
      driftFrom e (disk.content? (p.upDirectory.child e.filename))) := by
  let drift? (e : LogEntry) : Option Drift :=
    driftFrom e (disk.content? (p.upDirectory.child e.filename))
  rw [findDrift, bind_eq_ok] at hdrift
  obtain ⟨drift?s, hall, hdrift⟩ := hdrift
  obtain rfl := pure_eq_ok.1 hdrift
  have hmap : (latestUps log).mapM (driftOf p disk) = .ok ((latestUps log).map drift?) := by
    refine mapM_eq_ok_iff.2 (List.forall₂_map_right_iff.2 (List.forall₂_same.2 fun e he => ?_))
    obtain ⟨found, hfound⟩ := exists_of_mapM hall e he
    obtain ⟨-, rfl⟩ := (driftOf_eq_ok_iff (hname e (h.latestUps_perm.subset he))).1 hfound
    exact hfound
  obtain rfl := Except.ok.inj (hmap.symm.trans hall)
  rw [List.filterMap_map, Function.id_comp]
  exact h.latestUps_perm.filterMap _

end Search

end Migration

/-! ## 3. Runs -/

namespace Engine

open Migration

/-- One of some requests to a store has written an entry after reading a content in the file that it
names. -/
def Logged (store : Store) (vs : List Visit) (e : LogEntry) (content : Text.Bytes) : Prop :=
  ∃ before v after next, vs = before ++ v :: after ∧ v.request = .move .up ∧
    v.engine.up v.disk (visits store before) = .ok (some (next, e)) ∧
    v.disk.read (v.engine.project.upDirectory.child e.filename) = .ok content

theorem Logged.concat {store : Store} {vs : List Visit} {e : LogEntry} {content : Text.Bytes}
    (h : Logged store vs e content) (v : Visit) : Logged store (vs ++ [v]) e content := by
  obtain ⟨before, w, after, next, rfl, h⟩ := h
  exact ⟨before, w, after ++ [v], next, by simp, h⟩

theorem visits_concat (store : Store) (vs : List Visit) (v : Visit) :
    visits store (vs ++ [v]) = act (visits store vs) v := by
  simp [visits]

/-- What a request adds to the log. -/
theorem log_act_cases (store : Store) (v : Visit) : (act store v).log = store.log ∨
    ∃ d next e, v.request = .move d ∧ v.engine.migrate v.disk store d = .ok (some (next, e)) ∧
      (act store v).log = store.log ++ [e] := by
  unfold act
  split
  · next d hrequest =>
    unfold attempt
    split
    · next next e hmigrate =>
      exact .inr ⟨d, next, e, hrequest, hmigrate, (log_migrate hmigrate).1⟩
    · exact .inl rfl
    · exact .inl rfl
  · split
    · next next s hrebuild => exact .inl (log_rebuild hrebuild)
    · exact .inl rfl

/-- An entry that went up keeps the checksum of what its file held then. -/
theorem read_of_up {engine : Engine} {disk : Disk} {store next : Store} {e : LogEntry}
    (h : engine.up disk store = .ok (some (next, e))) : ∃ content,
      disk.read (engine.project.upDirectory.child e.filename) = .ok content ∧
        e.checksum = Digest.sha1Hex content := by
  obtain ⟨name, hname, -, happly⟩ := exists_file_of_migrate (d := .up) h
  obtain ⟨hfile, -, -, hsum⟩ := Operation.entry_of_applyFile happly
  rw [Path.name_child hname] at hfile
  rw [hfile]
  obtain ⟨content, hread, hsum⟩ := Outcome.map_eq_ok.1 hsum
  exact ⟨content, hread, hsum.symm⟩

theorem Logged.checksum_eq {store : Store} {vs : List Visit} {e : LogEntry} {content : Text.Bytes}
    (h : Logged store vs e content) : e.checksum = Digest.sha1Hex content := by
  obtain ⟨before, v, after, next, -, -, hup, hread⟩ := h
  obtain ⟨same, hsame, hsum⟩ := read_of_up hup
  rw [hread] at hsame
  rw [hsum, Except.ok.inj hsame]

/-- Every entry on the stack has been written by one of the requests. -/
theorem exists_logged {store : Store} (hlog : store.log = []) (vs : List Visit) :
    ∀ e ∈ appliedEntries (visits store vs).log, ∃ content, Logged store vs e content := by
  induction vs using List.reverseRecOn with
  | nil => simp [visits, hlog, appliedEntries]
  | append_singleton vs v ih =>
    have hkept : ∀ e ∈ appliedEntries (visits store vs).log, ∃ content,
        Logged store (vs ++ [v]) e content := by
      intro e he
      obtain ⟨content, hlogged⟩ := ih e he
      exact ⟨content, hlogged.concat v⟩
    rw [visits_concat]
    rcases log_act_cases (visits store vs) v with hsame | ⟨d, next, x, hrequest, hmigrate, hmore⟩
    · rw [hsame]
      exact hkept
    · rw [hmore, appliedEntries_concat, (log_migrate hmigrate).2.1]
      cases d with
      | up =>
        rw [move_up, List.forall_mem_append]
        refine ⟨hkept, fun e he => ?_⟩
        obtain rfl := List.mem_singleton.1 he
        obtain ⟨content, hread, -⟩ := read_of_up hmigrate
        exact ⟨content, vs, v, [], next, rfl, hrequest, hmigrate, hread⟩
      | down =>
        rw [move_down]
        exact fun e he => hkept e (List.dropLast_subset _ he)

/-- After any requests to a store with an empty log, with whatever is on the disk at each of them,
the entries that have put the applied migrations on the stack are one for each, and each keeps the
checksum of the content that its file had when a request wrote it. The search for drift fails
exactly if a directory stands in the place of one of these files now. Otherwise it finds what is to
be reported of each of these entries and the content of its file, and nothing else; so it finds
nothing if all these files have the content that they had then. -/
theorem findDrift_visits {store : Store} (hlog : store.log = []) {p : Project} {vs : List Visit}
    (hproject : ∀ v ∈ vs, v.engine.project = p) (disk : Disk) :
    (appliedEntries (visits store vs).log).map (·.migrationId) =
      appliedStack (visits store vs).log ∧
    (appliedStack (visits store vs).log).Nodup ∧
    (∀ e ∈ appliedEntries (visits store vs).log, ∃ content, Logged store vs e content ∧
      e.checksum = Digest.sha1Hex content) ∧
    ((∃ drift, findDrift p disk (visits store vs).log = .ok drift) ↔
      ∀ e ∈ appliedEntries (visits store vs).log,
        disk.isDirectory (p.upDirectory.child e.filename) ≠ .ok true) ∧
    (∀ drift, findDrift p disk (visits store vs).log = .ok drift →
      drift.Perm ((appliedEntries (visits store vs).log).filterMap fun e =>
        driftFrom e (disk.content? (p.upDirectory.child e.filename)))) ∧
    ((∀ e ∈ appliedEntries (visits store vs).log, ∃ content, Logged store vs e content ∧
        disk.read (p.upDirectory.child e.filename) = .ok content) →
      findDrift p disk (visits store vs).log = .ok []) := by
  have horderly : IsOrderly (visits store vs).log := IsOrderly.visits (hlog ▸ .nil) vs
  have hlogged := exists_logged hlog vs
  have hname : ∀ e ∈ appliedEntries (visits store vs).log,
      disk.look (p.upDirectory.child e.filename) ≠ .error .nameTooLong := by
    intro e he
    obtain ⟨content, before, v, after, next, hsplit, -, -, hread⟩ := hlogged e he
    rw [hproject v (by simp [hsplit])] at hread
    exact Disk.look_ne_nameTooLong disk (Disk.look_of_read hread)
  have hexists := horderly.exists_findDrift_iff hname
  have hperm : ∀ drift, findDrift p disk (visits store vs).log = .ok drift → _ :=
    fun drift => horderly.findDrift_perm hname
  refine ⟨map_appliedEntries _, horderly.nodup, fun e he => ?_, hexists, hperm, fun hsame => ?_⟩
  · obtain ⟨content, hwritten⟩ := hlogged e he
    exact ⟨content, hwritten, hwritten.checksum_eq⟩
  · obtain ⟨drift, hdrift⟩ := hexists.2 fun e he => by
      obtain ⟨content, -, hread⟩ := hsame e he
      rw [Disk.isDirectory, Disk.test_of_look (Disk.look_of_read hread)]
      simp [DiskEntry.isDirectory]
    have hnone : (appliedEntries (visits store vs).log).filterMap (fun e =>
        driftFrom e (disk.content? (p.upDirectory.child e.filename))) = [] := by
      refine List.filterMap_eq_nil_iff.2 fun e he => ?_
      obtain ⟨content, hwritten, hread⟩ := hsame e he
      have hcontent : disk.content? (p.upDirectory.child e.filename) = some content := by
        rw [Disk.content?, hread, Except.toOption]
      rw [hcontent, driftFrom, if_pos hwritten.checksum_eq.symm]
    have hempty := hperm drift hdrift
    rw [hnone] at hempty
    rw [hdrift, hempty.eq_nil]

/-- The run leaves one migration applied. -/
theorem appliedEntries_smallRun : ∃ e,
    appliedEntries (visits {} smallRun).log = [e] ∧ e.filename = "20240101__a.sql" := by
  obtain ⟨e, hlog, hup, -, hfile⟩ := log_smallRun
  refine ⟨e, ?_, hfile⟩
  have hone : appliedEntries [e] = move [] e e.direction := rfl
  rw [hlog, hone, hup, move_up, List.nil_append]

/-- Where all files are gone the one that is applied is reported, and where they are as they were
nothing is. -/
theorem findDrift_visits_smallRun : ∃ e,
    appliedEntries (visits {} smallRun).log = [e] ∧
      findDrift {} {} (visits {} smallRun).log =
        .ok [{ file := e.filename, appliedAt := e.appliedAt, expected := e.checksum }] ∧
      findDrift {} smallDisk (visits {} smallRun).log = .ok [] := by
  have hlog : ({} : Store).log = [] := rfl
  have hproject : ∀ v ∈ smallRun, v.engine.project = {} := by simp [smallRun]
  have hdisk : ∀ v ∈ smallRun, v.request = .move .up → v.disk = smallDisk := by simp [smallRun]
  obtain ⟨e, hstack, hfile⟩ := appliedEntries_smallRun
  obtain ⟨-, -, -, hexists, hperm, -⟩ := findDrift_visits hlog hproject {}
  obtain ⟨-, -, hlogged, -, -, hsame⟩ := findDrift_visits hlog hproject smallDisk
  refine ⟨e, hstack, ?_, hsame fun e he => ?_⟩
  · obtain ⟨drift, hdrift⟩ := hexists.2 (by
      rw [hstack, List.forall_mem_singleton, hfile]
      decide +kernel)
    have hgone : ({} : Disk).content? (({} : Project).upDirectory.child e.filename) = none := by
      rw [hfile]
      decide +kernel
    have hfound := hperm drift hdrift
    rw [hstack, List.filterMap_cons, hgone, driftFrom, List.filterMap_nil] at hfound
    rw [hdrift, List.perm_singleton.1 hfound]
  · obtain ⟨content, hwritten, -⟩ := hlogged e he
    refine ⟨content, hwritten, ?_⟩
    obtain ⟨before, v, after, next, hsplit, hrequest, -, hread⟩ := hwritten
    have hv : v ∈ smallRun := by simp [hsplit]
    rw [hdisk v hv hrequest, hproject v hv] at hread
    exact hread

/-- The disk of the run with a directory in the place of the file that is applied. -/
def blockedDisk : Disk :=
  { entries := ⟨[
    (["icbincss"], .directory), (["icbincss", "migrations"], .directory),
    (["icbincss", "migrations", "up"], .directory),
    (["icbincss", "migrations", "up", "20240101__a.sql"], .directory)]⟩ }

/-- The file of an applied migration is gone, and the search reports nothing because a directory
stands in its place. -/
theorem not_findDrift_visits : ∃ e,
    appliedEntries (visits {} smallRun).log = [e] ∧
      blockedDisk.isFile (({} : Project).upDirectory.child e.filename) = .ok false ∧
      ¬ ∃ drift, findDrift {} blockedDisk (visits {} smallRun).log = .ok drift := by
  obtain ⟨e, hstack, hfile⟩ := appliedEntries_smallRun
  have hlook : blockedDisk.look (({} : Project).upDirectory.child e.filename) = .ok .directory := by
    rw [hfile]
    decide +kernel
  have hlog : IsOrderly ({} : Store).log := .nil
  have horderly : IsOrderly (visits {} smallRun).log := IsOrderly.visits hlog smallRun
  refine ⟨e, hstack, Disk.test_of_look hlook, ?_⟩
  rw [horderly.exists_findDrift_iff, hstack, List.forall_mem_singleton]
  · exact fun hnot => hnot (Disk.test_of_look hlook)
  · rw [hstack, List.forall_mem_singleton, hlook]
    simp

end Engine

end StyleLedger
