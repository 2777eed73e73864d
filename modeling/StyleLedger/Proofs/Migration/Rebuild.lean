import StyleLedger.Migration.Engine
import StyleLedger.Proofs.Disk
import StyleLedger.Proofs.Source.Evaluation
import StyleLedger.Proofs.Source.Plain
import StyleLedger.Proofs.Store.Typed

/-!
A store that is rebuilt from its log is the store that was there.

Migrations reach a store one at a time: it is loaded, a file is applied, and the rows are saved with
an entry of the log. Rebuilding starts from nothing instead, brings the catalogs in and follows the
whole log. Both ways go through `Engine.applyTo`, and a migrated store is *reproducible*: following
its log leads to the rows it holds, and these are held as they are (`IsReproducible`). A successful
attempt to go up or down keeps this (`IsReproducible.applyFile`), a failed one leaves the store as
it is, so a run of any length keeps it.

* `Engine.attempt`, `Engine.attempts` — the store after attempts to go up or down.
* `Engine.IsReproducible` — following the log leads to the rows.
-/

namespace StyleLedger

open Outcome

/-! ## 1. Attempts -/

namespace Engine

/-- Goes one migration up or down, if there is one. -/
def migrate (engine : Engine) (disk : Disk) (store : Store) :
    Direction → Except Failure (Option (Store × LogEntry))
  | .up => engine.up disk store
  | .down => engine.down disk store

/-- The store after an attempt to go up or down; one that fails changes nothing. -/
def attempt (engine : Engine) (disk : Disk) (store : Store) (d : Direction) : Store :=
  match engine.migrate disk store d with
  | .ok (some (store, _)) => store
  | .ok none | .error _ => store

/-- The store after some attempts. -/
def attempts (engine : Engine) (disk : Disk) (store : Store) (ds : List Direction) : Store :=
  ds.foldl (engine.attempt disk) store

end Engine

/-- The directory of the migrations that go in a direction. -/
def Project.directory (p : Project) : Direction → Path
  | .up => p.upDirectory
  | .down => p.downDirectory

/-! ## 2. Files -/

theorem Path.name_child {name : String} (h : Path.isStep name) (p : Path) :
    (p.child name).name = name := by
  have hname : ofText name = { steps := [name] } := by simpa [isStep] using h
  simp [child, hname, join, Path.name]

namespace Migration

/-- A migration can go in a direction: one that goes up is not on the stack of applied migrations,
one that goes down is its top. -/
def Admits (stack : List String) (id : String) : Direction → Prop
  | .up => id ∉ stack
  | .down => stack.getLast? = some id

/-- The files of a directory are some of the names in it, in their order. -/
theorem exists_of_filesIn {disk : Disk} {directory : Path} {files : List String}
    (h : filesIn disk directory = .ok files) : ∃ kept : List String,
      kept.Sublist (disk.names directory) ∧
        files = (kept.filter hasEnding).mergeSort fun a b => a ≤ b := by
  simp only [filesIn, bind_eq_ok] at h
  obtain ⟨isDirectory, -, h⟩ := h
  split at h
  · simp only [bind_eq_ok, pure_eq_ok] at h
    obtain ⟨kept, hkept, rfl⟩ := h
    exact ⟨kept, sublist_of_filterM hkept, rfl⟩
  · obtain rfl := pure_eq_ok.1 h
    exact ⟨[], List.nil_sublist _, by simp⟩

theorem isStep_of_filesIn {disk : Disk} {directory : Path} {files : List String}
    (h : filesIn disk directory = .ok files) : ∀ name ∈ files, Path.isStep name = true := by
  intro name hname
  obtain ⟨kept, hkept, rfl⟩ := exists_of_filesIn h
  have hmem := hkept.subset (List.mem_of_mem_filter (List.mem_mergeSort.1 hname))
  obtain ⟨place, -, hplace⟩ := List.mem_filterMap.1 hmem
  exact (Disk.nameInside?_eq_some hplace).2

end Migration

namespace Engine

variable {engine : Engine} {disk : Disk}

/-- A pending file is one of the directory for going up, and its migration is not applied. -/
theorem exists_name_of_pending {store : Store} {paths : List Path}
    (h : engine.pending disk store = .ok paths) {path : Path} (hpath : path ∈ paths) :
    ∃ name, Path.isStep name = true ∧
      Migration.idOf name ∉ Migration.appliedStack store.log ∧
      path = engine.project.upDirectory.child name := by
  simp only [pending, bind_eq_ok, pure_eq_ok] at h
  obtain ⟨names, hnames, rfl⟩ := h
  obtain ⟨name, hname, rfl⟩ := List.mem_map.1 hpath
  obtain ⟨hmem, hnew⟩ := List.mem_filter.1 hname
  exact ⟨name, Migration.isStep_of_filesIn hnames name hmem, by simpa using hnew, rfl⟩

/-- A migration goes in its direction by a file of the directory for it, and only if the stack
admits it. -/
theorem exists_file_of_migrate {store : Store} {d : Direction} {next : Store × LogEntry}
    (h : engine.migrate disk store d = .ok (some next)) :
    ∃ name, Path.isStep name = true ∧
      Migration.Admits (Migration.appliedStack store.log) (Migration.idOf name) d ∧
      engine.applyFile disk store ((engine.project.directory d).child name) d = .ok next := by
  cases d with
  | up =>
    simp only [migrate, up, bind_eq_ok, mapError_eq_ok] at h
    obtain ⟨paths, hpending, h⟩ := h
    split at h
    · simp [pure, Except.pure] at h
    · next path rest =>
      obtain ⟨name, hname, hnew, rfl⟩ := exists_name_of_pending hpending List.mem_cons_self
      exact ⟨name, hname, hnew, some_map_eq_ok.1 h⟩
  | down =>
    simp only [migrate, down] at h
    split at h
    · simp [pure, Except.pure] at h
    · next top htop =>
      simp only [bind_eq_ok, mapError_eq_ok] at h
      obtain ⟨path?, hpath, h⟩ := h
      simp only [Migration.downFile?, bind_eq_ok, pure_eq_ok] at hpath
      obtain ⟨names, hnames, rfl⟩ := hpath
      cases hfind : names.find? fun name => Migration.idOf name = top with
      | none => simp [hfind, throw, throwThe, MonadExceptOf.throw] at h
      | some name =>
        simp only [hfind, Option.map_some] at h
        have hid : Migration.idOf name = top := by simpa using List.find?_some hfind
        exact ⟨name, Migration.isStep_of_filesIn hnames name (List.mem_of_find?_eq_some hfind),
          htop.trans (congrArg some hid.symm), some_map_eq_ok.1 h⟩

/-- The entry of a file leads back to the file. -/
theorem fileOf_eq {p : Project} {d : Direction} {name : String} (hname : Path.isStep name = true)
    {e : LogEntry} (hd : e.direction = d.name)
    (hfile : e.filename = ((p.directory d).child name).name) :
    fileOf p e = (p.directory d).child name := by
  rw [Path.name_child hname] at hfile
  cases d with
  | up => simp [fileOf, hd, hfile, Direction.name, Project.directory]
  | down => simp [fileOf, hd, hfile, Project.directory]

/-- A file that could be read is there. -/
theorem pathExists_of_statementsOf {path : Path} {stmts : List Statement}
    (h : engine.statementsOf disk path = .ok stmts) : disk.pathExists path = .ok true := by
  simp only [statementsOf, bind_eq_ok, mapError_eq_ok] at h
  obtain ⟨source, hsource, -⟩ := h
  simp only [Disk.readText, bind_eq_ok, mapError_eq_ok] at hsource
  obtain ⟨content, hcontent, -⟩ := hsource
  unfold Disk.read at hcontent
  unfold Disk.pathExists Disk.test
  split at hcontent
  · next hlook => rw [hlook]
  · simp at hcontent
  · simp at hcontent

/-! ## 3. One file -/

/-- The statements of a file are plain. -/
theorem isPlain_of_statementsOf {path : Path} {stmts : List Statement}
    (h : engine.statementsOf disk path = .ok stmts) : ∀ stmt ∈ stmts, stmt.IsPlain := by
  simp only [statementsOf, bind_eq_ok, mapError_eq_ok] at h
  obtain ⟨source, -, hparse⟩ := h
  exact Source.isPlain_of_parse hparse

/-- What applying a file comes to. -/
theorem applyTo_eq_ok {s t : Snapshot} {path : Path} {id : String} :
    engine.applyTo disk s path id = .ok t ↔ ∃ stmts before after,
      engine.statementsOf disk path = .ok stmts ∧ s.toCascade = .ok before ∧
      Cascade.buildAt engine.clock
        { migrationId := id, originFile := some (engine.project.relative path) } before stmts =
          .ok after ∧
      Snapshot.checkCascade after = .ok () ∧ Snapshot.ofCascade after s.migrations = t := by
  simp only [applyTo, bind_eq_ok, mapError_eq_ok, pure_eq_ok]
  constructor
  · rintro ⟨stmts, hstmts, before, hbefore, after, hafter, ⟨⟩, hcheck, rfl⟩
    exact ⟨stmts, before, after, hstmts, hbefore, hafter, hcheck, rfl⟩
  · rintro ⟨stmts, before, after, hstmts, hbefore, hafter, hcheck, rfl⟩
    exact ⟨stmts, hstmts, before, hbefore, after, hafter, (), hcheck, rfl⟩

/-- The log beside the rows has no part in what a file does to them. -/
theorem applyTo_withLog {s t : Snapshot} {path : Path} {id : String}
    (h : engine.applyTo disk s path id = .ok t) (log : List LogEntry) :
    engine.applyTo disk { s with migrations := log } path id =
      .ok { t with migrations := log } := by
  obtain ⟨stmts, before, after, hstmts, hbefore, hafter, hcheck, rfl⟩ := applyTo_eq_ok.1 h
  exact applyTo_eq_ok.2 ⟨stmts, before, after, hstmts, hbefore, hafter, hcheck, rfl⟩

/-- Rows that fit still fit when a file was applied. -/
theorem fits_applyTo {s t : Snapshot} (hs : s.Fits) {path : Path} {id : String}
    (h : engine.applyTo disk s path id = .ok t) : t.Fits := by
  obtain ⟨stmts, before, after, hstmts, hbefore, hafter, -, rfl⟩ := applyTo_eq_ok.1 h
  have htyped := (hs.isTyped hbefore).buildAt (isPlain_of_statementsOf hstmts) hafter
  exact Snapshot.fits_ofCascade htyped _

theorem seed_withLog {s t : Snapshot} (h : engine.seed disk s = .ok t) (log : List LogEntry) :
    engine.seed disk { s with migrations := log } = .ok { t with migrations := log } := by
  simp only [seed, bind_eq_ok] at h ⊢
  obtain ⟨catalogs, hcatalogs, h⟩ := h
  exact ⟨catalogs, hcatalogs,
    foldlM_exchange (g := fun s => { s with migrations := log })
      (fun path _ s t hst => applyTo_withLog hst log) h⟩

theorem fits_seed {s t : Snapshot} (hs : s.Fits) (h : engine.seed disk s = .ok t) : t.Fits := by
  simp only [seed, bind_eq_ok] at h
  obtain ⟨catalogs, -, h⟩ := h
  exact foldlM_keeps (fun path _ s t hs hst => fits_applyTo hs hst) hs h

theorem replay_withLog {s t : Snapshot} {e : LogEntry} (h : engine.replay disk s e = .ok t)
    (log : List LogEntry) :
    engine.replay disk { s with migrations := log } e = .ok { t with migrations := log } := by
  simp only [replay, bind_eq_ok] at h ⊢
  obtain ⟨isThere, hthere, h⟩ := h
  refine ⟨isThere, hthere, ?_⟩
  cases isThere with
  | true => exact applyTo_withLog h log
  | false => exact congrArg (fun s => Except.ok { s with migrations := log }) (pure_eq_ok.1 h)

/-- The entry of a file that could be applied is followed by applying the file. -/
theorem replay_eq {s t : Snapshot} {e : LogEntry}
    (h : engine.applyTo disk s (fileOf engine.project e) e.migrationId = .ok t) :
    engine.replay disk s e = .ok t := by
  obtain ⟨stmts, -, -, hstmts, -⟩ := applyTo_eq_ok.1 h
  simp only [replay, bind_eq_ok, mapError_eq_ok]
  refine ⟨true, pathExists_of_statementsOf hstmts, ?_⟩
  rw [if_pos rfl]
  exact h

/-! ## 4. Reproducible stores -/

/-- There is a log, the rows of the store fit, the store takes them, and following its log from
nothing leads to them. -/
structure IsReproducible (engine : Engine) (disk : Disk) (store : Store) : Prop where
  logged : store.log ≠ []
  fits : store.content.Fits
  check : store.content.check = .ok ()
  rebuilt : ∃ s, engine.seed disk { migrations := store.log } = .ok s ∧
    store.log.foldlM (engine.replay disk) s = .ok store.content

theorem fits_empty : Snapshot.Fits {} :=
  List.forall_iff_forall_mem.1 (by simp [Snapshot.tables])

/-- Rows that fit are saved as they are, with a new entry at the end of the log. -/
theorem saveWith_eq_ok {store next : Store} {s : Snapshot} (hs : s.Fits) {e e' : LogEntry}
    (h : store.saveWith s e = .ok (next, e')) : s.check = .ok () ∧
      e' = { e with seq := some store.nextNumber } ∧
      next.content = { s with migrations := store.log ++ [e'] } := by
  simp only [Store.saveWith, Store.save, bind_eq_ok, pure_eq_ok] at h
  obtain ⟨saved, ⟨⟨⟩, hcheck, rfl⟩, h⟩ := h
  simp only [Store.append, Prod.mk.injEq] at h
  obtain ⟨rfl, rfl⟩ := h
  exact ⟨hcheck, rfl, by simp only [hs.stored_eq, Store.log]⟩

/-- What applying and logging a file comes to. -/
theorem exists_of_applyFile {store : Store} {path : Path} {d : Direction} {next : Store × LogEntry}
    (h : engine.applyFile disk store path d = .ok next) : ∃ start s checksum appliedAt,
      (store.log = [] ∧ engine.seed disk store.content = .ok start ∨
        store.log ≠ [] ∧ store.content = start) ∧
      engine.applyTo disk start path (Migration.idOf path.name) = .ok s ∧
      store.saveWith s { migrationId := Migration.idOf path.name, filename := path.name
                         direction := d.name, checksum, appliedAt } = .ok next := by
  simp only [Engine.applyFile] at h
  split at h
  · next hlog =>
    simp only [bind_eq_ok, mapError_eq_ok] at h
    obtain ⟨start, hstart, s, hs, sum, -, time, -, hsave⟩ := h
    exact ⟨start, s, sum, time, .inl ⟨List.isEmpty_iff.1 hlog, hstart⟩, hs, hsave⟩
  · next hlog =>
    simp only [bind_eq_ok, mapError_eq_ok, pure_eq_ok] at h
    obtain ⟨start, hstart, s, hs, sum, -, time, -, hsave⟩ := h
    exact ⟨start, s, sum, time, .inr ⟨fun hnil => hlog (List.isEmpty_iff.2 hnil), hstart⟩, hs,
      hsave⟩

/-- A file that is applied and logged leaves a reproducible store, be it the first one or not. -/
theorem IsReproducible.applyFile {store next : Store} {d : Direction} {name : String} {e : LogEntry}
    (hstore : store = {} ∨ engine.IsReproducible disk store) (hname : Path.isStep name = true)
    (h : engine.applyFile disk store ((engine.project.directory d).child name) d = .ok (next, e)) :
    engine.IsReproducible disk next := by
  obtain ⟨start, s, sum, time, hstart, hs, hsave⟩ := exists_of_applyFile h
  -- the rows that the file is applied to are those that the log so far leads to
  have hbefore : start.Fits ∧ ∃ r, engine.seed disk { migrations := store.log } = .ok r ∧
      store.log.foldlM (engine.replay disk) r = .ok start := by
    rcases hstart with ⟨hlog, hseed⟩ | ⟨hlog, rfl⟩
    · rcases hstore with rfl | hrep
      · exact ⟨fits_seed fits_empty hseed, start, hseed, rfl⟩
      · exact absurd hlog hrep.logged
    · rcases hstore with rfl | hrep
      · exact absurd rfl hlog
      · exact ⟨hrep.fits, hrep.rebuilt⟩
  obtain ⟨hfits, r, hseed, hfold⟩ := hbefore
  have hsfits := fits_applyTo hfits hs
  obtain ⟨hcheck, he, hnext⟩ := saveWith_eq_ok hsfits hsave
  have hlog : next.log = store.log ++ [e] := by rw [Store.log, hnext]
  have hfile : fileOf engine.project e = (engine.project.directory d).child name :=
    fileOf_eq hname (by rw [he]) (by rw [he])
  refine ⟨?_, ?_, ?_, { r with migrations := next.log }, seed_withLog hseed next.log, ?_⟩
  · rw [hlog]
    simp
  · rw [hnext]
    exact hsfits
  · rw [hnext]
    exact hcheck
  · have hold := foldlM_exchange (g := fun s => { s with migrations := next.log })
      (fun e _ s t hst => replay_withLog hst next.log) hfold
    have hlast : engine.replay disk { start with migrations := next.log } e = .ok next.content := by
      refine replay_eq ?_
      rw [hfile, hnext, ← hlog]
      refine (congrArg (engine.applyTo disk _ _) ?_).trans (applyTo_withLog hs next.log)
      rw [he]
    have hall := foldlM_concat hold hlast
    rwa [← hlog] at hall

theorem IsReproducible.migrate {store next : Store} {d : Direction} {e : LogEntry}
    (hstore : store = {} ∨ engine.IsReproducible disk store)
    (h : engine.migrate disk store d = .ok (some (next, e))) : engine.IsReproducible disk next := by
  obtain ⟨name, hname, -, happly⟩ := exists_file_of_migrate h
  exact applyFile hstore hname happly

/-- An attempt leaves a store that is empty or reproducible so. -/
theorem attempt_cases {store : Store} (hstore : store = {} ∨ engine.IsReproducible disk store)
    (d : Direction) :
    engine.attempt disk store d = store ∨
      engine.IsReproducible disk (engine.attempt disk store d) := by
  unfold attempt
  split
  · next next e h => exact .inr (IsReproducible.migrate hstore h)
  · exact .inl rfl
  · exact .inl rfl

theorem IsReproducible.attempts {store : Store} (h : engine.IsReproducible disk store)
    (ds : List Direction) : engine.IsReproducible disk (engine.attempts disk store ds) := by
  unfold Engine.attempts
  induction ds generalizing store with
  | nil => exact h
  | cons d ds ih =>
    rcases attempt_cases (.inr h) d with hsame | hnext
    · rw [List.foldl_cons, hsame]
      exact ih h
    · exact ih hnext

theorem attempts_empty_cases (ds : List Direction) :
    engine.attempts disk {} ds = {} ∨ engine.IsReproducible disk (engine.attempts disk {} ds) := by
  induction ds with
  | nil => exact .inl rfl
  | cons d ds ih =>
    rcases attempt_cases (.inl rfl) d with hsame | hnext
    · rw [Engine.attempts, List.foldl_cons, hsame]
      exact ih
    · exact .inr (hnext.attempts ds)

/-- Rebuilding a reproducible store gives the rows it holds and changes nothing. -/
theorem IsReproducible.rebuild {store : Store} (h : engine.IsReproducible disk store) :
    engine.rebuild disk store = .ok (store, store.load) := by
  obtain ⟨s, hseed, hfold⟩ := h.rebuilt
  have hsave : store.save store.content = .ok store := by
    simp only [Store.save, h.check, h.fits.stored_eq]
    rfl
  simp only [Engine.rebuild, bind_eq_ok, mapError_eq_ok, pure_eq_ok]
  exact ⟨s, hseed, store.content, hfold, store, hsave, rfl⟩

/-- After any attempts to go up and down from an empty store, at least one of which went up, the
store can be rebuilt: the rows that the log leads to are those that are there, and the store is
left as it is. -/
theorem rebuild_attempts (engine : Engine) (disk : Disk) (before after : List Direction)
    {next : Store} {e : LogEntry}
    (h : engine.up disk (engine.attempts disk {} before) = .ok (some (next, e))) :
    engine.rebuild disk (engine.attempts disk {} (before ++ .up :: after)) =
      .ok (engine.attempts disk {} (before ++ .up :: after),
        (engine.attempts disk {} (before ++ .up :: after)).load) := by
  have hnext : engine.IsReproducible disk next :=
    IsReproducible.migrate (d := .up) (attempts_empty_cases before) h
  have hstep : engine.attempt disk (engine.attempts disk {} before) .up = next := by
    simp only [attempt, Engine.migrate, h]
  have hall : engine.attempts disk {} (before ++ .up :: after) =
      engine.attempts disk next after := by
    rw [Engine.attempts, List.foldl_append, List.foldl_cons]
    exact congrArg (fun store => after.foldl (engine.attempt disk) store) hstep
  rw [hall]
  exact (hnext.attempts after).rebuild

/-- A disk with a catalog and a migration that can be applied and reverted. -/
def smallDisk : Disk :=
  { entries := ⟨[
    (["icbincss"], .directory), (["icbincss", "migrations"], .directory),
    (["icbincss", "migrations", "up"], .directory),
    (["icbincss", "migrations", "down"], .directory),
    (["icbincss", "tokens.sql"], .file (Text.Utf8.encode "CREATE TOKEN 't' VALUE 1px;")),
    (["icbincss", "migrations", "up", "20240101__a.sql"], .file (Text.Utf8.encode "RAW 'x';")),
    (["icbincss", "migrations", "down", "20240101__a.sql"], .file (Text.Utf8.encode "RAW 'y';"))]⟩ }

/-- Going up succeeds there. -/
theorem exists_up_smallDisk : ∃ next e, up {} smallDisk {} = .ok (some (next, e)) ∧
    e.migrationId = "20240101__a" ∧ e.filename = "20240101__a.sql" := by
  obtain ⟨r, hup, hentry⟩ := exists_ok_of_any (x := up {} smallDisk {})
    (p := fun r => decide (r.map (fun x => (x.2.migrationId, x.2.filename)) =
      some ("20240101__a", "20240101__a.sql")))
    (by
      unfold up applyFile seed applyTo statementsOf
      rw [Source.parse_eq]
      decide +kernel)
  obtain ⟨⟨next, e⟩, rfl, he⟩ := Option.map_eq_some_iff.1 (of_decide_eq_true hentry)
  exact ⟨next, e, hup, Prod.mk.inj he⟩

theorem rebuild_attempts_smallDisk : ∃ next e,
    up {} smallDisk (attempts {} smallDisk {} [.down]) = .ok (some (next, e)) ∧
      rebuild {} smallDisk (attempts {} smallDisk {} [.down, .up, .down, .up]) =
        .ok (attempts {} smallDisk {} [.down, .up, .down, .up],
          (attempts {} smallDisk {} [.down, .up, .down, .up]).load) := by
  obtain ⟨next, e, hup, -⟩ := exists_up_smallDisk
  exact ⟨next, e, hup, rebuild_attempts {} smallDisk [.down] [.down, .up] hup⟩

end Engine

end StyleLedger
