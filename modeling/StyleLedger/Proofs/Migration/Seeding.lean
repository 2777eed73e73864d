import StyleLedger.Proofs.Migration.Rebuild
import StyleLedger.Proofs.Sheet.Appended
import StyleLedger.Proofs.Store.Contract

/-!
Catalogs that are brought in twice.

The first migration of a log brings the catalogs in before its own file. So does a rebuild, and it
leaves the log as it is: after a rebuild of an empty store the first migration brings the catalogs
in once more, on top of their own rows. What this does to the style sheet depends on what the
catalogs hold.

The rows that files lead to, one file after the other and each after a reload, are compared with a
cascade that is kept in memory (`Store.Holds`). No row is refused when a store is saved, so its
identifiers are distinct, and names only grow: therefore all reloads on the way were faithful
(`Holds.applyAll`). In memory the catalogs are applied to what they have led to, which changes
nothing that is addressed by keys and repeats raw blocks and imports (`compile_seeded_again`).

* `Engine.applyAll` — the rows after some files.
* `Engine.catalogStatements` — the statements of the catalogs.
-/

namespace StyleLedger

open Outcome Identity

/-! ## 1. Rows of a cascade -/

namespace Snapshot

/-- Rows that are taken tell the names of selectors and layers apart. -/
theorem separates_of_check {s : Cascade} {log : List LogEntry}
    (h : (ofCascade s log).check = .ok ()) :
    Separates .selector s.selectors.keys ∧ Separates .layer s.layers.entries.keys := by
  constructor
  · refine separates_of_nodup (nodup_ids_of_check h
      (t := (.selectors, (ofCascade s log).selectors)) ?_ (ids_selectorRows s log))
    simp [tables]
  · refine separates_of_nodup (nodup_ids_of_check h
      (t := (.layers, (ofCascade s log).layers)) ?_ (ids_layerRows s log))
    simp [tables]

end Snapshot

namespace Store.Holds

variable {store : Store} {s : Cascade}

/-- What is loaded from a store that took its rows matches the cascade beside it. -/
theorem toCascade_of_check (h : store.Holds s) (hcheck : store.content.check = .ok ()) :
    ∃ b : Cascade, store.load.toCascade = .ok b ∧ b.IsCoherent Descriptor.IsClean ∧ b.IsTyped ∧
      s.Matches b := by
  have hseparates : Separates .selector s.selectors.keys ∧
      Separates .layer s.layers.entries.keys := by
    obtain ⟨b, hcontent, -, -, hmatch⟩ := h
    rw [hmatch.selectors.keys, hmatch.layers.entries.keys]
    exact Snapshot.separates_of_check (hcontent ▸ hcheck)
  exact h.toCascade hseparates.1 hseparates.2

/-- A store that took its rows gives the style sheet of the cascade beside it. -/
theorem compile_eq (h : store.Holds s) (hcheck : store.content.check = .ok ())
    (config : CompilerConfig) : store.compile config = .ok (Sheet.ofCascade s config).render := by
  obtain ⟨b, hload, hcoherent, htyped, hmatch⟩ := h.toCascade_of_check hcheck
  rw [Store.compile, hload, hmatch.render_eq config]
  exact Cascade.compile_of_isCoherent hcoherent htyped config

/-- The log has no part in what is held. -/
theorem withLog {rows : Snapshot} (h : Holds { content := rows } s) {log : List LogEntry}
    (hcontent : store.content = { rows with migrations := log }) : store.Holds s := by
  obtain ⟨b, hrows, hcoherent, htyped, hmatch⟩ := h
  have hrows : rows = Snapshot.ofCascade b rows.migrations := hrows
  refine ⟨b, ?_, hcoherent, htyped, hmatch⟩
  rw [Store.log, hcontent, hrows]
  rfl

end Store.Holds

/-! ## 2. Files -/

namespace Engine

variable {engine : Engine} {disk : Disk}

/-- The rows after some files, each with its migration. -/
def applyAll (engine : Engine) (disk : Disk) (files : List (Path × String)) (s : Snapshot) :
    Except Failure Snapshot :=
  files.foldlM (fun s f => engine.applyTo disk s f.1 f.2) s

/-- A file can be applied to rows if it can be applied to what is loaded from them. -/
theorem applyTo_of_buildAt {s : Snapshot} {before after : Cascade}
    (hbefore : s.toCascade = .ok before) (hcoherent : before.IsCoherent Descriptor.IsClean)
    {path : Path} {id : String} {stmts : List Statement}
    (hread : engine.statementsOf disk path = .ok stmts)
    (hclean : ∀ stmt ∈ stmts, stmt.Writes Descriptor.IsClean)
    (hafter : Cascade.buildAt engine.clock
      { migrationId := id, originFile := some (engine.project.relative path) } before stmts =
        .ok after) :
    engine.applyTo disk s path id = .ok (.ofCascade after s.migrations) ∧
      after.IsCoherent Descriptor.IsClean := by
  obtain ⟨now, hbuild⟩ := Cascade.exists_build_of_buildAt hafter
  let o : Occasion := { migrationId := id, originFile := some (engine.project.relative path), now }
  have hbuild : Cascade.build o.context before stmts = .ok after := hbuild
  have hcoherent' := hcoherent.build (isPlain_of_statementsOf hread) hclean hbuild
  have hcheck := Snapshot.checkCascade_of_isAnchored hcoherent'.isAnchored
  exact ⟨applyTo_eq_ok.2 ⟨stmts, before, after, hread, hbefore, hafter, hcheck, rfl⟩, hcoherent'⟩

/-- The rows after a file are those of a cascade in which no name is lost. -/
theorem exists_grows_of_applyTo {b : Cascade} (hb : b.IsTyped) {log : List LogEntry} {path : Path}
    {id : String} {t : Snapshot}
    (h : engine.applyTo disk (Snapshot.ofCascade b log) path id = .ok t) :
    ∃ c : Cascade, t = Snapshot.ofCascade c log ∧ c.IsTyped ∧ b.Grows c := by
  obtain ⟨stmts, before, after, hstmts, hbefore, hafter, -, rfl⟩ := applyTo_eq_ok.1 h
  obtain ⟨now, hbuild⟩ := Cascade.exists_build_of_buildAt hafter
  have htyped := (hb.reload hbefore).build (isPlain_of_statementsOf hstmts) hbuild
  exact ⟨after, rfl, htyped, (hb.grows_reload hbefore).trans (Cascade.grows_build hbuild)⟩

theorem exists_grows_of_applyAll {b : Cascade} (hb : b.IsTyped) {log : List LogEntry}
    {files : List (Path × String)} {t : Snapshot}
    (h : engine.applyAll disk files (Snapshot.ofCascade b log) = .ok t) :
    ∃ c : Cascade, t = Snapshot.ofCascade c log ∧ c.IsTyped ∧ b.Grows c := by
  refine foldlM_keeps (P := fun t => ∃ c : Cascade, t = Snapshot.ofCascade c log ∧ c.IsTyped ∧
    b.Grows c) ?_ ⟨b, rfl, hb, .refl b⟩ h
  rintro f - _ t ⟨c, rfl, hc, hgrows⟩ happly
  obtain ⟨d, ht, hd, hgrows'⟩ := exists_grows_of_applyTo hc happly
  exact ⟨d, ht, hd, hgrows.trans hgrows'⟩

end Engine

namespace Store.Holds

variable {engine : Engine} {disk : Disk} {rows : Snapshot} {s : Cascade}

/-- Rows that files lead to, and that are taken in the end, have told the names of selectors and
layers apart from the start. -/
theorem separates_of_applyAll (h : Holds { content := rows } s) {files : List (Path × String)}
    {t : Snapshot} (happly : engine.applyAll disk files rows = .ok t) (hcheck : t.check = .ok ()) :
    Separates .selector s.selectors.keys ∧ Separates .layer s.layers.entries.keys := by
  obtain ⟨b, hcontent, -, htyped, hmatch⟩ := h
  have hrows : rows = Snapshot.ofCascade b rows.migrations := hcontent
  rw [hrows] at happly
  obtain ⟨c, rfl, -, hgrows⟩ := Engine.exists_grows_of_applyAll htyped happly
  obtain ⟨hselectors, hlayers⟩ := Snapshot.separates_of_check hcheck
  rw [hmatch.selectors.keys, hmatch.layers.entries.keys]
  exact ⟨hselectors.subset hgrows.selectors, hlayers.subset hgrows.layers⟩

/-- A file that is applied to rows can be applied to the cascade beside them. -/
theorem applyTo (h : Holds { content := rows } s) (hselectors : Separates .selector s.selectors.keys)
    (hlayers : Separates .layer s.layers.entries.keys) {path : Path} {id : String} {t : Snapshot}
    (happly : engine.applyTo disk rows path id = .ok t) {stmts : List Statement}
    (hread : engine.statementsOf disk path = .ok stmts)
    (hclean : ∀ stmt ∈ stmts, stmt.Writes Descriptor.IsClean) :
    ∃ s', Cascade.build {} s stmts = .ok s' ∧ Holds { content := t } s' := by
  obtain ⟨b, hload, hcoherent, htyped, hmatch⟩ := h.toCascade hselectors hlayers
  obtain ⟨_, before, after, hstmts, hbefore, hafter, -, rfl⟩ := Engine.applyTo_eq_ok.1 happly
  obtain rfl := Except.ok.inj (hread.symm.trans hstmts)
  obtain rfl := Except.ok.inj (hload.symm.trans hbefore)
  have hplain := Engine.isPlain_of_statementsOf hread
  obtain ⟨now, hbuild⟩ := Cascade.exists_build_of_buildAt hafter
  let o : Occasion := { migrationId := id, originFile := some (engine.project.relative path), now }
  have hbuild : Cascade.build o.context b stmts = .ok after := hbuild
  have hctx : o.context.Matches {} := ⟨rfl, rfl⟩
  obtain ⟨s', hs', hmatch'⟩ := hmatch.symm.build hctx hbuild
  exact ⟨s', hs', after, rfl, hcoherent.build hplain hclean hbuild, htyped.build hplain hbuild,
    hmatch'.symm⟩

/-- Files that are applied to rows, which are taken in the end, can be applied to the cascade beside
them, and what both lead to matches. -/
theorem applyAll {files : List (Path × String)} {sources : List (List Statement)}
    (h : Holds { content := rows } s)
    (hread : List.Forall₂ (fun f stmts => engine.statementsOf disk f.1 = .ok stmts) files sources)
    (hclean : ∀ stmts ∈ sources, ∀ stmt ∈ stmts, stmt.Writes Descriptor.IsClean) {t : Snapshot}
    (happly : engine.applyAll disk files rows = .ok t) (hcheck : t.check = .ok ()) :
    ∃ s', sources.foldlM (Cascade.build {}) s = .ok s' ∧ Holds { content := t } s' := by
  induction hread generalizing rows s with
  | nil =>
    obtain rfl : rows = t := Except.ok.inj happly
    exact ⟨s, rfl, h⟩
  | cons hfile hread ih =>
    obtain ⟨hc, hclean⟩ := List.forall_mem_cons.1 hclean
    obtain ⟨hselectors, hlayers⟩ := h.separates_of_applyAll happly hcheck
    rw [Engine.applyAll, List.foldlM_cons] at happly
    obtain ⟨next, hnext, hrest⟩ := bind_eq_ok.1 happly
    obtain ⟨u, hu, hholds⟩ := h.applyTo hselectors hlayers hnext hfile hc
    rw [foldlM_cons_of_ok hu]
    exact ih hholds hclean hrest

end Store.Holds

/-! ## 3. Going up and rebuilding -/

namespace Engine

variable {engine : Engine} {disk : Disk} {store next : Store} {e : LogEntry}

/-- The files of the catalogs, each with the migration they belong to. -/
def catalogFiles (catalogs : List Path) : List (Path × String) :=
  catalogs.map fun path => (path, catalogMigration)

theorem seed_eq_ok {s t : Snapshot} : engine.seed disk s = .ok t ↔ ∃ catalogs,
    engine.project.catalogs disk = .ok catalogs ∧
      engine.applyAll disk (catalogFiles catalogs) s = .ok t := by
  simp only [seed, bind_eq_ok, mapError_eq_ok, applyAll, catalogFiles, List.foldlM_map]

theorem fits_applyAll {files : List (Path × String)} {s t : Snapshot} (hs : s.Fits)
    (h : engine.applyAll disk files s = .ok t) : t.Fits :=
  foldlM_keeps (fun _ _ _ _ hs happly => fits_applyTo hs happly) hs h

/-- The files of a log, each with its migration. -/
def logFiles (p : Project) (log : List LogEntry) : List (Path × String) :=
  log.map fun e => (fileOf p e, e.migrationId)

/-- What goes up is the first pending file, and its entry leads back to it. -/
theorem exists_of_up (h : engine.up disk store = .ok (some (next, e))) : ∃ rest,
    engine.pending disk store = .ok (fileOf engine.project e :: rest) ∧
      engine.applyFile disk store (fileOf engine.project e) .up = .ok (next, e) := by
  simp only [up, bind_eq_ok, mapError_eq_ok] at h
  obtain ⟨paths, hpending, h⟩ := h
  cases paths with
  | nil => simp [pure, Except.pure] at h
  | cons path rest =>
    have happly := some_map_eq_ok.1 h
    obtain ⟨start, rows, sum, time, -, -, hsave⟩ := exists_of_applyFile happly
    obtain ⟨name, hname, -, rfl⟩ := exists_name_of_pending hpending List.mem_cons_self
    have he : e.direction = Direction.up.name ∧
        e.filename = (engine.project.upDirectory.child name).name := by
      simp only [Store.saveWith, bind_eq_ok, pure_eq_ok, Store.append, Prod.mk.injEq] at hsave
      obtain ⟨saved, -, -, rfl⟩ := hsave
      exact ⟨rfl, rfl⟩
    have hfile : fileOf engine.project e = engine.project.upDirectory.child name :=
      fileOf_eq hname he.1 he.2
    rw [hfile]
    exact ⟨rest, hpending, happly⟩

/-- Going up with an empty log brings the catalogs in before the file. -/
theorem exists_applyAll_of_up (hlog : store.log = []) (hfits : store.content.Fits)
    (h : engine.up disk store = .ok (some (next, e))) : ∃ catalogs rows,
      engine.project.catalogs disk = .ok catalogs ∧
      engine.applyAll disk (catalogFiles catalogs ++ logFiles engine.project [e]) store.content =
        .ok rows ∧
      rows.check = .ok () ∧ next.content = { rows with migrations := [e] } := by
  obtain ⟨rest, -, happly⟩ := exists_of_up h
  obtain ⟨start, rows, sum, time, hstart, hrows, hsave⟩ := exists_of_applyFile happly
  have hseed : engine.seed disk store.content = .ok start := by
    rcases hstart with ⟨-, hseed⟩ | ⟨hfilled, -⟩
    · exact hseed
    · exact absurd hlog hfilled
  obtain ⟨catalogs, hcatalogs, hall⟩ := seed_eq_ok.1 hseed
  obtain ⟨hcheck, he, hnext⟩ := saveWith_eq_ok (fits_applyTo (fits_seed hfits hseed) hrows) hsave
  have hid := congrArg LogEntry.migrationId he
  refine ⟨catalogs, rows, hcatalogs, foldlM_concat hall ?_, hcheck, ?_⟩
  · show engine.applyTo disk start (fileOf engine.project e) e.migrationId = .ok rows
    rw [hid]
    exact hrows
  · rw [hnext, hlog]
    rfl

/-- Going up with an empty log and one catalog, step by step: `seeded` is the cascade whose rows the
file is applied to. -/
theorem up_of_buildAt {path catalog : Path} {rest : List Path} (hlog : store.log = [])
    (hpending : engine.pending disk store = .ok (path :: rest))
    (hcatalogs : engine.project.catalogs disk = .ok [catalog]) {stmts stmts' : List Statement}
    (hread : engine.statementsOf disk catalog = .ok stmts)
    (hread' : engine.statementsOf disk path = .ok stmts')
    (hclean : ∀ stmt ∈ stmts ++ stmts', stmt.Writes Descriptor.IsClean)
    {before seeded after : Cascade} (hbefore : store.content.toCascade = .ok before)
    (hcoherent : before.IsCoherent Descriptor.IsClean)
    (hseeded : Cascade.buildAt engine.clock
      { migrationId := catalogMigration, originFile := some (engine.project.relative catalog) }
        before stmts = .ok seeded)
    (hselectors : Separates .selector seeded.selectors.keys)
    (hlayers : Separates .layer seeded.layers.entries.keys)
    (hafter : Cascade.buildAt engine.clock
      { migrationId := Migration.idOf path.name
        originFile := some (engine.project.relative path) } seeded.rewound stmts' = .ok after)
    {checksum appliedAt : String} (hchecksum : Migration.checksum disk path = .ok checksum)
    (hclock : engine.clock = .ok appliedAt)
    (hsave : store.saveWith (.ofCascade after store.log)
      { migrationId := Migration.idOf path.name, filename := path.name
        direction := Direction.up.name, checksum, appliedAt } = .ok (next, e)) :
    engine.up disk store = .ok (some (next, e)) := by
  obtain ⟨hclean, hclean'⟩ := List.forall_mem_append.1 hclean
  obtain ⟨hfirst, hcoherent⟩ := applyTo_of_buildAt hbefore hcoherent hread hclean hseeded
  have hseed : engine.seed disk store.content = .ok (.ofCascade seeded store.log) :=
    seed_eq_ok.2 ⟨_, hcatalogs, foldlM_cons_of_ok hfirst []⟩
  have hkeys : ∀ k ∈ seeded.buckets.buckets.keys, Descriptor.IsClean k.descriptor := by
    intro k hk
    obtain ⟨d, hd, rfl⟩ := List.mem_map.1 hk
    exact (hcoherent.buckets.all d hd).1.2
  have hreload := Snapshot.toCascade_ofCascade hcoherent hkeys hselectors hlayers store.log
  obtain ⟨hsecond, -⟩ := applyTo_of_buildAt hreload hcoherent.rewound hread' hclean' hafter
  have hempty : store.load.migrations.isEmpty = true := List.isEmpty_iff.2 hlog
  have hfile : engine.applyFile disk store path .up = .ok (next, e) := by
    simp only [applyFile, hempty, if_true, bind_eq_ok, mapError_eq_ok]
    exact ⟨_, hseed, _, hsecond, checksum, hchecksum, appliedAt, hclock, hsave⟩
  simp only [up, hpending, Except.mapError, bind, Except.bind, hfile]
  rfl

/-- A log whose files are all there is followed by applying them. -/
theorem foldlM_replay {log : List LogEntry}
    (hthere : ∀ e ∈ log, disk.pathExists (fileOf engine.project e) = .ok true) (s : Snapshot) :
    log.foldlM (engine.replay disk) s = engine.applyAll disk (logFiles engine.project log) s := by
  induction log generalizing s with
  | nil => rfl
  | cons e log ih =>
    obtain ⟨he, hthere⟩ := List.forall_mem_cons.1 hthere
    have hreplay : engine.replay disk s e =
        engine.applyTo disk s (fileOf engine.project e) e.migrationId := by
      simp only [replay, he, Except.mapError, bind, Except.bind, if_true]
    rw [List.foldlM_cons, hreplay, logFiles, List.map_cons, applyAll, List.foldlM_cons]
    exact congrArg _ (funext fun t => ih hthere t)

/-- Rebuilding a store brings the catalogs in and follows the log. -/
theorem exists_of_rebuild {rows : Snapshot}
    (hthere : ∀ e ∈ store.log, disk.pathExists (fileOf engine.project e) = .ok true)
    (h : engine.rebuild disk store = .ok (next, rows)) : ∃ catalogs,
      engine.project.catalogs disk = .ok catalogs ∧
      engine.applyAll disk (catalogFiles catalogs ++ logFiles engine.project store.log)
        { migrations := store.log } = .ok rows ∧
      rows.Fits ∧ rows.check = .ok () ∧ next.content = { rows with migrations := store.log } := by
  simp only [rebuild, bind_eq_ok, mapError_eq_ok, pure_eq_ok, Prod.mk.injEq] at h
  obtain ⟨seeded, hseed, rows, hrows, saved, hsave, rfl, rfl⟩ := h
  obtain ⟨catalogs, hcatalogs, hall⟩ := seed_eq_ok.1 hseed
  have happly : engine.applyAll disk (catalogFiles catalogs ++ logFiles engine.project store.log)
      { migrations := store.log } = .ok rows := by
    rw [applyAll, List.foldlM_append]
    exact bind_eq_ok.2 ⟨seeded, hall, (foldlM_replay hthere seeded).symm.trans hrows⟩
  have hempty : Snapshot.Fits { migrations := store.log } := fits_empty
  have hfits : rows.Fits := fits_applyAll hempty happly
  simp only [Store.save, bind_eq_ok, pure_eq_ok] at hsave
  obtain ⟨⟨⟩, hcheck, rfl⟩ := hsave
  exact ⟨catalogs, hcatalogs, happly, hfits, hcheck, by rw [hfits.stored_eq]⟩

/-! ## 4. What stores hold -/

/-- The statements of the catalogs, file by file. -/
def catalogStatements (engine : Engine) (disk : Disk) : Except Failure (List (List Statement)) := do
  let catalogs ← (engine.project.catalogs disk).mapError .ofFile
  catalogs.mapM (engine.statementsOf disk)

/-- The statements of the files of a log, file by file. -/
def logStatements (engine : Engine) (disk : Disk) (log : List LogEntry) :
    Except Failure (List (List Statement)) :=
  log.mapM fun e => engine.statementsOf disk (fileOf engine.project e)

theorem isPlain_of_catalogStatements {sources : List (List Statement)}
    (h : engine.catalogStatements disk = .ok sources) :
    ∀ stmts ∈ sources, ∀ stmt ∈ stmts, stmt.IsPlain := by
  simp only [catalogStatements, bind_eq_ok] at h
  obtain ⟨catalogs, -, hsources⟩ := h
  intro stmts hstmts
  obtain ⟨path, -, hread⟩ := mem_of_mapM hsources stmts hstmts
  exact isPlain_of_statementsOf hread

/-- The catalogs and the files of a log are read file by file. -/
theorem forall₂_statementsOf {catalogs : List Path} (hcatalogs : engine.project.catalogs disk =
    .ok catalogs) {log : List LogEntry} {sources sources' : List (List Statement)}
    (hsources : engine.catalogStatements disk = .ok sources)
    (hsources' : engine.logStatements disk log = .ok sources') :
    List.Forall₂ (fun f stmts => engine.statementsOf disk f.1 = .ok stmts)
      (catalogFiles catalogs ++ logFiles engine.project log) (sources ++ sources') := by
  simp only [catalogStatements, hcatalogs, bind_eq_ok, mapError_eq_ok, Except.ok.injEq,
    exists_eq_left'] at hsources
  refine List.rel_append ?_ ?_
  · exact List.forall₂_map_left_iff.2 (mapM_forall₂ hsources)
  · exact List.forall₂_map_left_iff.2 (mapM_forall₂ hsources')

end Engine

namespace Store.Holds

variable {engine : Engine} {disk : Disk} {store next : Store} {s : Cascade} {e : LogEntry}
  {catalogs log : List (List Statement)}

/-- Going up with an empty log: the catalogs and the file are applied to the cascade beside the
store. -/
theorem up (h : store.Holds s) (hlog : store.log = [])
    (hup : engine.up disk store = .ok (some (next, e)))
    (hcatalogs : engine.catalogStatements disk = .ok catalogs)
    (hfile : engine.logStatements disk [e] = .ok log)
    (hclean : ∀ stmts ∈ catalogs ++ log, ∀ stmt ∈ stmts, stmt.Writes Descriptor.IsClean) :
    ∃ s', (catalogs ++ log).foldlM (Cascade.build {}) s = .ok s' ∧ next.Holds s' ∧
      next.content.check = .ok () ∧ next.log = [e] := by
  have hfits : store.content.Fits := by
    obtain ⟨b, hcontent, -, htyped, -⟩ := h
    rw [hcontent]
    exact Snapshot.fits_ofCascade htyped _
  obtain ⟨paths, rows, hpaths, happly, hcheck, hcontent⟩ :=
    Engine.exists_applyAll_of_up hlog hfits hup
  have hread := Engine.forall₂_statementsOf hpaths hcatalogs hfile
  obtain ⟨s', hs', hholds⟩ := applyAll h hread hclean happly hcheck
  exact ⟨s', hs', hholds.withLog hcontent, hcontent ▸ hcheck, by rw [Store.log, hcontent]⟩

/-- Rebuilding: the catalogs and the files of the log are applied to nothing. -/
theorem rebuild {rows : Snapshot} (hrebuild : engine.rebuild disk store = .ok (next, rows))
    (hcatalogs : engine.catalogStatements disk = .ok catalogs)
    (hfiles : engine.logStatements disk store.log = .ok log)
    (hclean : ∀ stmts ∈ catalogs ++ log, ∀ stmt ∈ stmts, stmt.Writes Descriptor.IsClean) :
    ∃ s', (catalogs ++ log).foldlM (Cascade.build {}) {} = .ok s' ∧ next.Holds s' ∧
      next.content.check = .ok () ∧ next.log = store.log := by
  have hthere : ∀ e ∈ store.log, disk.pathExists (Engine.fileOf engine.project e) = .ok true := by
    intro e he
    obtain ⟨stmts, hstmts⟩ := exists_of_mapM hfiles e he
    exact Engine.pathExists_of_statementsOf hstmts
  obtain ⟨paths, hpaths, happly, -, hcheck, hcontent⟩ := Engine.exists_of_rebuild hthere hrebuild
  have hread := Engine.forall₂_statementsOf hpaths hcatalogs hfiles
  have hempty : Holds { content := { migrations := store.log } } {} := holds_empty.withLog rfl
  obtain ⟨s', hs', hholds⟩ := applyAll hempty hread hclean happly hcheck
  exact ⟨s', hs', hholds.withLog hcontent, hcontent ▸ hcheck, by rw [Store.log, hcontent]⟩

end Store.Holds

/-! ## 5. Catalogs that are brought in twice -/

namespace Engine

/-- The same project, at another time. -/
def withClock (engine : Engine) (clock : Except ClockFault String) : Engine :=
  { engine with clock }

/-- With an empty log and an empty store, going up (`a`) is compared with rebuilding (`r`) and then
going up (`b`), and with a rebuild after that (`c`), whatever the clocks show. The rebuild at the
end always gives the style sheet of going up alone. Before it, where the catalogs remove nothing,
the sheets are the same if and only if no statement of the catalogs adds an import or a raw block:
these are doubled, and everything else is not. -/
theorem compile_seeded_again (engine : Engine) (disk : Disk)
    (t₁ t₂ t₃ t₄ : Except ClockFault String) {a r b c : Store} {e e' : LogEntry}
    {rows rows' : Snapshot}
    (hup : (engine.withClock t₁).up disk {} = .ok (some (a, e)))
    (hrebuild : (engine.withClock t₂).rebuild disk {} = .ok (r, rows))
    (hagain : (engine.withClock t₃).up disk r = .ok (some (b, e')))
    (hafter : (engine.withClock t₄).rebuild disk b = .ok (c, rows'))
    {catalogs : List (List Statement)} (hcatalogs : engine.catalogStatements disk = .ok catalogs)
    {migration : List Statement}
    (hmigration : engine.statementsOf disk (fileOf engine.project e) = .ok migration)
    (hclean : ∀ stmts ∈ catalogs ++ [migration], ∀ stmt ∈ stmts, stmt.Writes Descriptor.IsClean)
    (config : CompilerConfig) : ∃ css css',
      a.compile config = .ok css ∧ b.compile config = .ok css' ∧ c.compile config = .ok css ∧
      ((∀ stmts ∈ catalogs, ∀ stmt ∈ stmts, stmt.removes = false) →
        (css' = css ↔ ∀ stmt ∈ catalogs.flatten, stmt.cssImports = [] ∧ stmt.rawTexts = [])) := by
  have hlog : engine.logStatements disk [e] = .ok [migration] := by
    simp [logStatements, hmigration]
  obtain ⟨cA, hcA, hA, hcheckA, -⟩ := Store.holds_empty.up rfl hup hcatalogs hlog hclean
  have hnone : engine.logStatements disk (Store.log {}) = .ok [] := rfl
  have hcleanR : ∀ stmts ∈ catalogs ++ [], ∀ stmt ∈ stmts, stmt.Writes Descriptor.IsClean :=
    fun stmts hstmts => hclean stmts (List.mem_append_left _ (by simpa using hstmts))
  obtain ⟨cR, hcR, hR, -, hlogR⟩ := Store.Holds.rebuild hrebuild hcatalogs hnone hcleanR
  -- neither log has an entry, so both ways up apply the same file
  have hsame : fileOf engine.project e' = fileOf engine.project e := by
    obtain ⟨rest, hpending, -⟩ := exists_of_up hup
    obtain ⟨rest', hpending', -⟩ := exists_of_up hagain
    have hpendings :
        (engine.withClock t₃).pending disk r = (engine.withClock t₁).pending disk {} := by
      rw [pending, hlogR]
      rfl
    rw [hpendings, hpending] at hpending'
    exact (List.cons.inj (Except.ok.inj hpending')).1.symm
  have hlog' : engine.logStatements disk [e'] = .ok [migration] := by
    simp [logStatements, hsame, hmigration]
  obtain ⟨cB, hcB, hB, hcheckB, hlogB⟩ := hR.up hlogR hagain hcatalogs hlog' hclean
  rw [← hlogB] at hlog'
  obtain ⟨cC, hcC, hC, hcheckC, -⟩ := Store.Holds.rebuild hafter hcatalogs hlog' hclean
  obtain rfl := Except.ok.inj (hcA.symm.trans hcC)
  refine ⟨_, _, hA.compile_eq hcheckA config, hB.compile_eq hcheckB config,
    hC.compile_eq hcheckC config, fun hkeeps => ?_⟩
  rw [List.append_nil] at hcR
  exact Cascade.render_files_again_iff (isPlain_of_catalogStatements hcatalogs) hkeeps hcR hcA hcB
    config

/-- A disk with a catalog and a migration. -/
def seededDisk (catalog migration : String) : Disk :=
  { entries := ⟨[
    (["icbincss"], .directory), (["icbincss", "migrations"], .directory),
    (["icbincss", "migrations", "up"], .directory),
    (["icbincss", "tokens.sql"], .file (Text.Utf8.encode catalog)),
    (["icbincss", "migrations", "up", "20240101__a.sql"], .file (Text.Utf8.encode migration))]⟩ }

/-- A catalog that overwrites a token of its own, which the second time gets its first value back in
between. -/
def overwritingDisk : Disk :=
  seededDisk "CREATE TOKEN 'a' VALUE b; CREATE TOKEN 'a' VALUE c;" "RAW 'y';"

theorem compile_seeded_again_overwriting : ∃ a r b c e e' rows rows',
    up {} overwritingDisk {} = .ok (some (a, e)) ∧
    rebuild (withClock {} (.ok "09:00")) overwritingDisk {} = .ok (r, rows) ∧
    up {} overwritingDisk r = .ok (some (b, e')) ∧
    rebuild {} overwritingDisk b = .ok (c, rows') ∧
    ∀ config, ∃ css, a.compile config = .ok css ∧ b.compile config = .ok css ∧
      c.compile config = .ok css := by
  obtain ⟨x, hx, hfacts⟩ := exists_ok_of_any
    (x := do
      let a ← up {} overwritingDisk {}
      let r ← rebuild (withClock {} (.ok "09:00")) overwritingDisk {}
      let b ← up {} overwritingDisk r.1
      let c ← rebuild {} overwritingDisk (b.getD default).1
      let catalogs ← catalogStatements {} overwritingDisk
      let migration ← statementsOf {} overwritingDisk (fileOf {} (a.getD default).2)
      return (a, r, b, c, catalogs, migration))
    (p := fun x =>
      x.1.isSome && x.2.2.1.isSome &&
        decide ((∀ stmts ∈ x.2.2.2.2.1 ++ [x.2.2.2.2.2], ∀ stmt ∈ stmts,
            stmt.Writes Descriptor.IsClean) ∧
          (∀ stmts ∈ x.2.2.2.2.1, ∀ stmt ∈ stmts, stmt.removes = false) ∧
          ∀ stmt ∈ x.2.2.2.2.1.flatten, stmt.cssImports = [] ∧ stmt.rawTexts = []))
    (by
      unfold up rebuild applyFile seed replay applyTo catalogStatements statementsOf
      rw [Source.parse_eq]
      decide +kernel)
  simp only [bind_eq_ok, pure_eq_ok] at hx
  obtain ⟨a?, ha, ⟨r, rows⟩, hr, b?, hb, ⟨c, rows'⟩, hc, catalogs, hcatalogs, migration, hmigration,
    rfl⟩ := hx
  simp only [Bool.and_eq_true, decide_eq_true_eq] at hfacts
  obtain ⟨⟨hsome, hsome'⟩, hclean, hkeeps, hnone⟩ := hfacts
  obtain ⟨⟨a, e⟩, rfl⟩ := Option.isSome_iff_exists.1 hsome
  obtain ⟨⟨b, e'⟩, rfl⟩ := Option.isSome_iff_exists.1 hsome'
  refine ⟨a, r, b, c, e, e', rows, rows', ha, hr, hb, hc, fun config => ?_⟩
  obtain ⟨css, css', hcssA, hcssB, hcssC, hsame⟩ := compile_seeded_again {} overwritingDisk
    (.ok "") (.ok "09:00") (.ok "") (.ok "") ha hr hb hc hcatalogs hmigration hclean config
  obtain rfl := (hsame hkeeps).2 hnone
  exact ⟨_, hcssA, hcssB, hcssC⟩

/-- A catalog with a raw block, and a migration that does nothing. -/
def rawDisk : Disk :=
  seededDisk "RAW 'x';" ""

/-- Its files. -/
def rawCatalog : Path := { steps := ["icbincss", "tokens.sql"] }

def rawMigration : Path := { steps := ["icbincss", "migrations", "up", "20240101__a.sql"] }

/-- A raw block of a catalog shows twice after a rebuild and going up, until the next rebuild. -/
theorem compile_seeded_again_raw : ∃ a r b c e e' rows rows',
    up {} rawDisk {} = .ok (some (a, e)) ∧ rebuild {} rawDisk {} = .ok (r, rows) ∧
    up {} rawDisk r = .ok (some (b, e')) ∧ rebuild {} rawDisk b = .ok (c, rows') ∧
    a.compile {} = .ok "x\n" ∧ b.compile {} = .ok "x\n\nx\n" ∧ c.compile {} = .ok "x\n" := by
  -- Two raw blocks are sorted when they are loaded, which does not evaluate. So the second way up
  -- is taken in steps, and its style sheet is that of the cascade `doubled` beside it.
  obtain ⟨x, hx, hfacts⟩ := exists_ok_of_any
    (x := do
      let a ← up {} rawDisk {}
      let cssA ← ((a.getD default).1.compile {}).mapError .shape
      let r ← rebuild {} rawDisk {}
      let paths ← (Project.catalogs {} rawDisk).mapError .ofFile
      let files ← (pending {} rawDisk r.1).mapError .ofFile
      let catalog ← statementsOf {} rawDisk rawCatalog
      let migration ← statementsOf {} rawDisk rawMigration
      let before ← r.1.content.toCascade.mapError .shape
      let seeded ← Cascade.buildAt (.ok "")
        { migrationId := catalogMigration, originFile := some (Project.relative {} rawCatalog) }
        before catalog
      let after ← Cascade.buildAt (.ok "")
        { migrationId := Migration.idOf rawMigration.name
          originFile := some (Project.relative {} rawMigration) }
        seeded.rewound migration
      let checksum ← (Migration.checksum rawDisk rawMigration).mapError .ofFile
      let b ← (r.1.saveWith (Snapshot.ofCascade after r.1.log)
        { migrationId := Migration.idOf rawMigration.name, filename := rawMigration.name
          direction := Direction.up.name, checksum, appliedAt := "" }).mapError .violation
      let c ← rebuild {} rawDisk b.1
      let cssC ← (c.1.compile {}).mapError .shape
      let single ← (([catalog] ++ []).foldlM (Cascade.build {}) {}).mapError .composition
      let doubled ←
        (([catalog] ++ [migration]).foldlM (Cascade.build {}) single).mapError .composition
      return (a, cssA, r, paths, files, catalog, migration, before, seeded, after, checksum, b, c,
        cssC, single, doubled))
    (p := fun (a, cssA, r, paths, files, catalog, migration, _, seeded, _, _, b, _, cssC, _,
        doubled) =>
      a.isSome && decide (r.1.log = [] ∧ paths = [rawCatalog] ∧ files = [rawMigration] ∧
        (∀ stmt ∈ catalog ++ migration, stmt.Writes Descriptor.IsClean) ∧
        seeded.selectors.keys = [] ∧ seeded.layers.entries.keys = [] ∧
        fileOf {} b.2 = rawMigration ∧ cssA = "x\n" ∧ cssC = "x\n" ∧
        (Sheet.ofCascade doubled {}).render = "x\n\nx\n"))
    (by
      unfold up rebuild applyFile seed replay applyTo statementsOf Snapshot.ofCascade Snapshot.rawRow
      rw [Source.parse_eq, entityId_eq]
      decide +kernel)
  simp only [bind_eq_ok, mapError_eq_ok, pure_eq_ok] at hx
  obtain ⟨a?, hup, cssA, hcssA, ⟨r, rows⟩, hrebuild, paths, hpaths, files, hpending, catalog,
    hcatalog, migration, hmigration, before, hbefore, seeded, hseeded, after, hafter, checksum,
    hchecksum, ⟨b, e'⟩, hsave, ⟨c, rows'⟩, hlast, cssC, hcssC, single, hsingle, doubled, hdoubled,
    rfl⟩ := hx
  simp only [Bool.and_eq_true, decide_eq_true_eq] at hfacts
  obtain ⟨hsome, hlog, rfl, rfl, hclean, hselectors, hlayers, hfile, rfl, rfl, hrender⟩ := hfacts
  obtain ⟨⟨a, e⟩, rfl⟩ := Option.isSome_iff_exists.1 hsome
  obtain ⟨hcleanC, hcleanM⟩ := List.forall_mem_append.1 hclean
  have hcatalogs : catalogStatements {} rawDisk = .ok [catalog] := by
    have hread : [rawCatalog].mapM (statementsOf {} rawDisk) = .ok [catalog] := by simp [hcatalog]
    rw [catalogStatements, bind_eq_ok]
    exact ⟨[rawCatalog], mapError_eq_ok.2 hpaths, hread⟩
  obtain ⟨s, hs, hR, hcheckR, -⟩ :=
    Store.Holds.rebuild hrebuild hcatalogs rfl (by simpa using hcleanC)
  obtain rfl : s = single := Except.ok.inj (hs.symm.trans hsingle)
  obtain ⟨s, hload, hcoherent, -, -⟩ := hR.toCascade_of_check hcheckR
  obtain rfl : s = before := Except.ok.inj (hload.symm.trans hbefore)
  have hseparates : ∀ kind, Separates kind [] := fun kind => by simp [Separates]
  have hagain : up {} rawDisk r = .ok (some (b, e')) :=
    up_of_buildAt hlog hpending hpaths hcatalog hmigration hclean hbefore hcoherent hseeded
      (hselectors ▸ hseparates _) (hlayers ▸ hseparates _) hafter hchecksum rfl hsave
  have hread : statementsOf {} rawDisk (fileOf {} e') = .ok migration := hfile ▸ hmigration
  have hfiles : logStatements {} rawDisk [e'] = .ok [migration] := by simp [logStatements, hread]
  obtain ⟨s, hs, hB, hcheckB, -⟩ := hR.up hlog hagain hcatalogs hfiles
    (by simpa using And.intro hcleanC hcleanM)
  obtain rfl : s = doubled := Except.ok.inj (hs.symm.trans hdoubled)
  refine ⟨a, r, b, c, e, e', rows, rows', hup, hrebuild, hagain, hlast, hcssA, ?_, hcssC⟩
  rw [hB.compile_eq hcheckB, hrender]

end Engine

end StyleLedger
