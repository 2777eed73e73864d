import StyleLedger.Proofs.Migration.Rebuild

/-!
The stack of applied migrations is never out of step with the log.

The stack is not stored: it is read off the log, where an entry that goes down pops whatever is on
top. That it pops its own migration rests on what was looked at before the entry was written, in
other words on an invariant of the log: it is *orderly*, every entry having been admitted by the
stack of the entries before it. An attempt to go up or down keeps a log orderly whatever is on the
disk, and rebuilding leaves the log alone (`IsOrderly.act`), so a run of any length keeps it.

* `Migration.IsOrderly` — the invariant.
* `Engine.Visit`, `Engine.visits` — a run in which the disk may change between any two steps.
-/

namespace StyleLedger

open Outcome

/-! ## 1. Orderly logs -/

namespace Migration

/-- Every entry of a log goes up or down, and the stack of the entries before it admits this. -/
inductive IsOrderly : List LogEntry → Prop
  | nil : IsOrderly []
  | concat {log : List LogEntry} {e : LogEntry} (h : IsOrderly log) (d : Direction)
      (hd : e.direction = d.name) (hadmits : Admits (appliedStack log) e.migrationId d) :
      IsOrderly (log ++ [e])

theorem ofName?_name (d : Direction) : Direction.ofName? d.name = some d := by
  cases d with
  | up => rfl
  | down => rfl

theorem appliedStack_concat (log : List LogEntry) (e : LogEntry) :
    appliedStack (log ++ [e]) = replay (appliedStack log) e := by
  simp [appliedStack]

theorem replay_up {e : LogEntry} (h : e.direction = Direction.up.name) (stack : List String) :
    replay stack e = stack ++ [e.migrationId] := by
  simp only [replay, move, h, ofName?_name]

theorem replay_down {e : LogEntry} (h : e.direction = Direction.down.name) (stack : List String) :
    replay stack e = stack.dropLast := by
  simp only [replay, move, h, ofName?_name]

namespace IsOrderly

variable {log : List LogEntry}

/-- No migration is on the stack twice. -/
theorem nodup (h : IsOrderly log) : (appliedStack log).Nodup := by
  induction h with
  | nil => exact List.nodup_nil
  | @concat log e _ d hd hadmits ih =>
    rw [appliedStack_concat]
    cases d with
    | up =>
      rw [replay_up hd, List.nodup_append]
      refine ⟨ih, by simp, fun a ha b hb => ?_⟩
      rw [List.mem_singleton.1 hb]
      rintro rfl
      exact hadmits ha
    | down =>
      rw [replay_down hd]
      exact ih.sublist (List.dropLast_sublist _)

/-- An entry was admitted by the stack of the entries before it. -/
theorem admits (h : IsOrderly log) {before after : List LogEntry} {e : LogEntry}
    (hlog : log = before ++ e :: after) :
    ∃ d : Direction, e.direction = d.name ∧ Admits (appliedStack before) e.migrationId d := by
  induction h generalizing after with
  | nil => simp at hlog
  | @concat log last _ d hd hadmits ih =>
    rcases List.eq_nil_or_concat after with rfl | ⟨rest, x, rfl⟩
    · obtain ⟨rfl, rfl⟩ : log = before ∧ last = e := by simpa using List.append_inj' hlog rfl
      exact ⟨d, hd, hadmits⟩
    · have hsplit : log ++ [last] = (before ++ e :: rest) ++ [x] := by simpa using hlog
      exact ih (List.append_inj_left' hsplit rfl)

/-- Every migration on the stack has an entry that went up. -/
theorem exists_up (h : IsOrderly log) {id : String} (hid : id ∈ appliedStack log) :
    ∃ e ∈ log, e.direction = Direction.up.name ∧ e.migrationId = id := by
  induction h with
  | nil => simp [appliedStack] at hid
  | @concat log e _ d hd _ ih =>
    rw [appliedStack_concat] at hid
    cases d with
    | up =>
      rw [replay_up hd, List.mem_append, List.mem_singleton] at hid
      rcases hid with hid | rfl
      · obtain ⟨u, hu, hup⟩ := ih hid
        exact ⟨u, List.mem_append_left _ hu, hup⟩
      · exact ⟨e, by simp, hd, rfl⟩
    | down =>
      rw [replay_down hd] at hid
      obtain ⟨u, hu, hup⟩ := ih ((List.dropLast_subset _) hid)
      exact ⟨u, List.mem_append_left _ hu, hup⟩

end IsOrderly

/-! ## 2. What the reports look up -/

/-- The last entry that applied a migration, as the history of writes looks it up. -/
def latestUp? (log : List LogEntry) (id : String) : Option LogEntry :=
  log.reverse.find? fun e => e.direction = Direction.up.name && e.migrationId = id

variable {log : List LogEntry}

theorem eq_of_latestUp? {id : String} {e : LogEntry} (h : latestUp? log id = some e) :
    e ∈ log ∧ e.direction = Direction.up.name ∧ e.migrationId = id := by
  have hmem := List.mem_reverse.1 (List.mem_of_find?_eq_some h)
  have htest := List.find?_some h
  simp only [Bool.and_eq_true, decide_eq_true_eq] at htest
  exact ⟨hmem, htest⟩

/-- Drift is looked for in the last entries that applied the migrations of the stack. -/
theorem mem_latestUps {e : LogEntry} : e ∈ latestUps log ↔
    e.migrationId ∈ appliedStack log ∧ latestUp? log e.migrationId = some e := by
  let ups := log.filter fun e =>
    e.direction = Direction.up.name && (appliedStack log).contains e.migrationId
  let table := Table.ofList (ups.map fun e => (e.migrationId, e))
  have hget : ∀ id, table.get? id = if id ∈ appliedStack log then latestUp? log id else none := by
    intro id
    rw [Table.get?_ofList, ← List.map_reverse, Table.lookup_map_self, ← List.filter_reverse,
      List.find?_filter]
    split
    · next hid =>
      refine congrArg (log.reverse.find? ·) (funext fun e => ?_)
      by_cases he : e.migrationId = id
      · simp [he, hid]
      · simp [he]
    · next hid =>
      rw [List.find?_eq_none]
      intro e _
      simp only [Bool.and_eq_true, List.contains_iff_mem, decide_eq_true_eq, not_and]
      rintro ⟨-, hmem⟩ rfl
      exact hid hmem
  have hcanonical : table.IsCanonical := Table.isCanonical_ofList fun _ _ => key_string _
  constructor
  · intro he
    obtain ⟨d, hd, rfl⟩ := List.mem_map.1 he
    have hd := (hcanonical.get?_eq_some_iff (key_string d.1)).2 hd
    rw [hget] at hd
    split at hd
    · next hid =>
      obtain ⟨-, -, hname⟩ := eq_of_latestUp? hd
      rw [hname]
      exact ⟨hid, hd⟩
    · simp at hd
  · rintro ⟨hid, he⟩
    have hentry := hget e.migrationId
    rw [if_pos hid, he] at hentry
    exact List.mem_map_of_mem ((hcanonical.get?_eq_some_iff (key_string _)).1 hentry)

/-- The reports find an entry for every migration on the stack, both the same one. -/
theorem IsOrderly.exists_latestUp? (h : IsOrderly log) {id : String}
    (hid : id ∈ appliedStack log) : ∃ e, latestUp? log id = some e ∧ e ∈ latestUps log := by
  obtain ⟨u, hu, hup, hname⟩ := h.exists_up hid
  have hsome : (latestUp? log id).isSome := by
    rw [latestUp?, List.find?_isSome]
    exact ⟨u, List.mem_reverse.2 hu, by simp [hup, hname]⟩
  obtain ⟨e, he⟩ := Option.isSome_iff_exists.1 hsome
  obtain ⟨-, -, rfl⟩ := eq_of_latestUp? he
  exact ⟨e, he, mem_latestUps.2 ⟨hid, he⟩⟩

end Migration

/-! ## 3. Runs -/

theorem Store.log_save {store next : Store} {s : Snapshot} (h : store.save s = .ok next) :
    next.log = store.log := by
  simp only [Store.save, bind_eq_ok, pure_eq_ok] at h
  obtain ⟨⟨⟩, -, rfl⟩ := h
  rfl

theorem Store.log_saveWith {store next : Store} {s : Snapshot} {e e' : LogEntry}
    (h : store.saveWith s e = .ok (next, e')) :
    next.log = store.log ++ [e'] ∧ e' = { e with seq := some store.nextNumber } ∧
      next.lastNumber = store.nextNumber := by
  simp only [Store.saveWith, Store.save, bind_eq_ok, pure_eq_ok] at h
  obtain ⟨saved, ⟨⟨⟩, -, rfl⟩, h⟩ := h
  simp only [Store.append, Prod.mk.injEq] at h
  obtain ⟨rfl, rfl⟩ := h
  exact ⟨rfl, rfl, rfl⟩

namespace Engine

/-- What an engine can be asked for. -/
inductive Request
  | move (d : Direction)
  | rebuild
deriving Repr, DecidableEq, Inhabited

/-- A request, with the engine and the disk as they are when it is made. -/
structure Visit where
  engine : Engine := {}
  disk : Disk
  request : Request

/-- The store after a request; one that fails changes nothing. -/
def act (store : Store) (v : Visit) : Store :=
  match v.request with
  | .move d => v.engine.attempt v.disk store d
  | .rebuild =>
    match v.engine.rebuild v.disk store with
    | .ok (next, _) => next
    | .error _ => store

/-- The store after some requests. The disk of each is its own: files may have been added, changed
and removed in between. -/
def visits (store : Store) (vs : List Visit) : Store :=
  vs.foldl act store

variable {engine : Engine} {disk : Disk}

theorem log_rebuild {store next : Store} {s : Snapshot}
    (h : engine.rebuild disk store = .ok (next, s)) : next.log = store.log := by
  simp only [rebuild, bind_eq_ok, mapError_eq_ok, pure_eq_ok, Prod.mk.injEq] at h
  obtain ⟨seeded, -, rows, -, saved, hsave, rfl, rfl⟩ := h
  exact Store.log_save hsave

theorem lastNumber_rebuild {store next : Store} {s : Snapshot}
    (h : engine.rebuild disk store = .ok (next, s)) : next.lastNumber = store.lastNumber := by
  simp only [rebuild, Store.save, bind_eq_ok, mapError_eq_ok, pure_eq_ok, Prod.mk.injEq] at h
  obtain ⟨seeded, -, rows, -, saved, ⟨⟨⟩, -, rfl⟩, rfl, rfl⟩ := h
  rfl

/-- The entry of a migration names the migration of its file and the direction it went. -/
theorem log_migrate {store next : Store} {d : Direction} {e : LogEntry}
    (h : engine.migrate disk store d = .ok (some (next, e))) :
    next.log = store.log ++ [e] ∧ e.direction = d.name ∧
      Migration.Admits (Migration.appliedStack store.log) e.migrationId d := by
  obtain ⟨name, hname, hadmits, happly⟩ := exists_file_of_migrate h
  obtain ⟨start, s, sum, time, -, -, hsave⟩ := exists_of_applyFile happly
  obtain ⟨hlog, rfl, -⟩ := Store.log_saveWith hsave
  refine ⟨hlog, rfl, ?_⟩
  show Migration.Admits _ (Migration.idOf ((engine.project.directory d).child name).name) d
  rwa [Path.name_child hname]

/-- A request to rebuild leaves the log as it is, whether it succeeds or not. -/
theorem log_act_rebuild {store : Store} {v : Visit} (h : v.request = .rebuild) :
    (act store v).log = store.log := by
  simp only [act, h]
  split
  · next hrebuild => exact log_rebuild hrebuild
  · rfl

end Engine

namespace Migration.IsOrderly

/-- A request leaves an orderly log orderly. -/
theorem act {store : Store} (h : IsOrderly store.log) (v : Engine.Visit) :
    IsOrderly (Engine.act store v).log := by
  cases hrequest : v.request with
  | move d =>
    simp only [Engine.act, hrequest, Engine.attempt]
    split
    · next next e hmigrate =>
      obtain ⟨hlog, hd, hadmits⟩ := Engine.log_migrate hmigrate
      rw [hlog]
      exact h.concat d hd hadmits
    · exact h
    · exact h
  | rebuild =>
    rw [Engine.log_act_rebuild hrequest]
    exact h

theorem visits {store : Store} (h : IsOrderly store.log) (vs : List Engine.Visit) :
    IsOrderly (Engine.visits store vs).log := by
  unfold Engine.visits
  induction vs generalizing store with
  | nil => exact h
  | cons v vs ih => exact ih (h.act v)

end Migration.IsOrderly

namespace Engine

open Migration

/-- After any requests to a store with an empty log, with whatever is on the disk at each of them:
no migration is on the stack twice; an entry that went up was not on the stack before it; an entry
that went down is the one that it pops; and for every migration on the stack there is an entry that
went up, which both the history of writes and the search for drift find. -/
theorem appliedStack_visits {store : Store} (hlog : store.log = []) (vs : List Visit) :
    (appliedStack (visits store vs).log).Nodup ∧
    (∀ before e after, (visits store vs).log = before ++ e :: after →
      e.direction = Direction.up.name ∧ e.migrationId ∉ appliedStack before ∨
      e.direction = Direction.down.name ∧
        appliedStack before = appliedStack (before ++ [e]) ++ [e.migrationId]) ∧
    ∀ id ∈ appliedStack (visits store vs).log, ∃ e ∈ (visits store vs).log,
      e.direction = Direction.up.name ∧ e.migrationId = id ∧
      (visits store vs).log.reverse.find? (fun e =>
        e.direction = Direction.up.name && e.migrationId = id) = some e ∧
      e ∈ latestUps (visits store vs).log := by
  have horderly : IsOrderly (visits store vs).log := IsOrderly.visits (hlog ▸ .nil) vs
  refine ⟨horderly.nodup, fun before e after hsplit => ?_, fun id hid => ?_⟩
  · obtain ⟨d, hd, hadmits⟩ := horderly.admits hsplit
    cases d with
    | up => exact .inl ⟨hd, hadmits⟩
    | down =>
      refine .inr ⟨hd, ?_⟩
      rw [appliedStack_concat, replay_down hd]
      exact (List.dropLast_append_getLast? _ hadmits).symm
  · obtain ⟨e, hfind, hlatest⟩ := horderly.exists_latestUp? hid
    obtain ⟨hmem, hup, hname⟩ := eq_of_latestUp? hfind
    exact ⟨e, hmem, hup, hname, hfind, hlatest⟩

/-- A run in which a migration goes up, and cannot go down when all files are gone; what is rebuilt
then has no rows, but the log is what it was. -/
def smallRun : List Visit :=
  [{ disk := smallDisk, request := .move .down }, { disk := smallDisk, request := .move .up },
   { disk := {}, request := .move .down }, { disk := {}, request := .rebuild }]

/-- Its log has one entry. -/
theorem log_smallRun : ∃ e, (visits {} smallRun).log = [e] ∧ e.direction = Direction.up.name ∧
    e.migrationId = "20240101__a" ∧ e.filename = "20240101__a.sql" := by
  obtain ⟨next, e, hup, hid, hfile⟩ := exists_up_smallDisk
  have hmigrate : migrate {} smallDisk {} .up = .ok (some (next, e)) := hup
  obtain ⟨hlog, hdirection, -⟩ := log_migrate hmigrate
  have hlog : next.log = [e] := hlog
  have hstack : appliedStack next.log = [e.migrationId] := by
    rw [hlog]
    exact replay_up hdirection []
  have hfirst : act {} { disk := smallDisk, request := .move .down } = {} := rfl
  have hsecond : act {} { disk := smallDisk, request := .move .up } = next := by
    show attempt {} smallDisk {} .up = next
    rw [attempt, hmigrate]
  have hthird : act next { disk := {}, request := .move .down } = next := by
    have hnone : downFile? {} {} e.migrationId = .ok none := rfl
    simp only [act, attempt, migrate, down, hstack, List.getLast?_singleton, hnone]
    rfl
  refine ⟨e, ?_, hdirection, hid, hfile⟩
  simp only [visits, smallRun, List.foldl_cons, List.foldl_nil, hfirst, hsecond, hthird]
  rw [log_act_rebuild rfl, hlog]

theorem appliedStack_visits_smallRun :
    (visits {} smallRun).log.map (·.direction) = ["up"] ∧
    "20240101__a" ∈ appliedStack (visits {} smallRun).log ∧
    ∃ e ∈ latestUps (visits {} smallRun).log, e.migrationId = "20240101__a" := by
  obtain ⟨e, hrun, hup, hid, -⟩ := log_smallRun
  have hstack : appliedStack (visits {} smallRun).log = ["20240101__a"] := by
    rw [hrun, ← hid]
    exact replay_up hup []
  have happlied : "20240101__a" ∈ appliedStack (visits {} smallRun).log := by simp [hstack]
  have hlog : ({} : Store).log = [] := rfl
  obtain ⟨-, -, hreports⟩ := appliedStack_visits hlog smallRun
  obtain ⟨e, -, -, hname, -, hlatest⟩ := hreports _ happlied
  exact ⟨by rw [hrun, List.map_singleton, hup]; rfl, happlied, e, hlatest, hname⟩

end Engine

end StyleLedger
