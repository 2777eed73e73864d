import Mathlib.Data.Int.Order.Basic
import Mathlib.Order.Bounds.Basic
import StyleLedger.Proofs.Migration.Stack
import StyleLedger.Proofs.Store.Transaction

/-!
A migration happens as a whole or not at all, and the log only grows.

The functions of `Engine` take a store and give a store, so a failure of theirs leaves nothing
behind by their very form. Here the same operations act on the connection to a database: they read
it, work out new rows from files, which can fail at any file and any statement, and write these rows
in one transaction, which can fail at any row. These actions carry out the functions of `Engine`
(`Operation.performs`), whatever is on the disk and in the store. What each of them may do to the
log follows by cases, and what a run of them does by induction.

A new entry of the log gets the least number that is greater than all that were given before
(`Store.isLeast_nextNumber`), also where the log has gaps or has lost entries.

* `Operation` — going up or down, applying a file, rebuilding.
* `Operation.act` — the operation as an action on a connection.
* `Operation.effect` — the operation as a function of the store.
* `Store.GoesOn` — a store whose log goes on from that of another.
-/

namespace StyleLedger

open Outcome

/-! ## 1. What is worked out before anything is written -/

namespace Engine

variable (engine : Engine) (disk : Disk)

/-- The next file in a direction; none if nothing is pending or nothing is applied. -/
def nextFile (store : Store) : Direction → Except Failure (Option Path)
  | .up => do return (← (engine.pending disk store).mapError .ofFile).head?
  | .down =>
    match (Migration.appliedStack store.log).getLast? with
    | none => return none
    | some top => do
      match ← (Migration.downFile? engine.project disk top).mapError .ofFile with
      | none => throw (.migration (.missingDown top))
      | some path => return some path

/-- The rows after a file, and its entry. -/
def prepare (s : Snapshot) (path : Path) (direction : Direction) :
    Except Failure (Snapshot × LogEntry) := do
  let id := Migration.idOf path.name
  let s ← if s.migrations.isEmpty then engine.seed disk s else pure s
  let s ← engine.applyTo disk s path id
  let checksum ← (Migration.checksum disk path).mapError .ofFile
  let appliedAt ← engine.clock.mapError .clock
  return (s, { migrationId := id, filename := path.name, direction := direction.name, checksum,
               appliedAt })

/-- The rows after the catalogs and all files of a log. -/
def replayed (log : List LogEntry) : Except Failure Snapshot := do
  let s ← engine.seed disk { migrations := log }
  log.foldlM (engine.replay disk) s

theorem migrate_eq (store : Store) (d : Direction) : engine.migrate disk store d =
    engine.nextFile disk store d >>= fun path? => match path? with
      | none => pure none
      | some path => some <$> engine.applyFile disk store path d := by
  cases d with
  | up =>
    simp only [migrate, up, nextFile, bind_assoc, pure_bind]
    refine congrArg _ (funext fun files => ?_)
    cases files with
    | nil => rfl
    | cons path files => rfl
  | down =>
    simp only [migrate, down, nextFile]
    cases (Migration.appliedStack store.log).getLast? with
    | none => rfl
    | some top =>
      simp only [bind_assoc]
      refine congrArg _ (funext fun path? => ?_)
      cases path? with
      | none => rfl
      | some path => rfl

theorem applyFile_eq (store : Store) (path : Path) (direction : Direction) :
    engine.applyFile disk store path direction =
      engine.prepare disk store.load path direction >>= fun r =>
        (store.saveWith r.1 r.2).mapError .violation := by
  cases hempty : store.load.migrations.isEmpty with
  | true => simp only [applyFile, prepare, hempty, if_true, bind_assoc, pure_bind]
  | false =>
    simp only [applyFile, prepare, hempty, Bool.false_eq_true, if_false, bind_assoc, pure_bind]

theorem rebuild_eq (store : Store) : engine.rebuild disk store =
    engine.replayed disk store.log >>= fun s =>
      ((store.save s).mapError .violation).map fun store => (store, s) := by
  simp only [rebuild, replayed, bind_assoc]
  refine congrArg _ (funext fun seeded => congrArg _ (funext fun s => ?_))
  cases store.save s with
  | error v => rfl
  | ok saved => rfl

variable {engine disk} {store : Store}

/-- There is no next file only if nothing is pending, or nothing is applied. -/
theorem nextFile_eq_none_iff {d : Direction} : engine.nextFile disk store d = .ok none ↔
    d = .up ∧ engine.pending disk store = .ok [] ∨
      d = .down ∧ Migration.appliedStack store.log = [] := by
  cases d with
  | up =>
    rw [nextFile]
    cases engine.pending disk store with
    | error e => simp [Except.mapError, bind, Except.bind]
    | ok files => cases files <;> simp [Except.mapError, bind, Except.bind, pure_eq_ok]
  | down =>
    cases hstack : (Migration.appliedStack store.log).getLast? with
    | none =>
      have hempty : Migration.appliedStack store.log = [] := List.getLast?_eq_none_iff.1 hstack
      simp [nextFile, hempty, pure_eq_ok]
    | some top =>
      have hfilled : Migration.appliedStack store.log ≠ [] := fun hempty => by
        simp [hempty] at hstack
      simp only [nextFile, hstack, bind_eq_ok]
      refine iff_of_false ?_ (by simp [hfilled])
      rintro ⟨path?, -, h⟩
      cases path? with
      | none => cases h
      | some path => cases h

end Engine

/-! ## 2. Operations -/

/-- What can be asked of an engine that changes the store: a step up or down, applying a file, and
making all rows anew. -/
inductive Operation
  | move (direction : Direction)
  | apply (path : Path) (direction : Direction)
  | rebuild

/-- What an operation reports when it does not fail. -/
inductive Reply
  /-- There was nothing to apply or to revert. -/
  | nothing
  /-- A file was applied and has an entry in the log. -/
  | logged (e : LogEntry)
  /-- All rows were made anew. -/
  | rebuilt (rows : Snapshot)

namespace Operation

open StyleLedger.Action (load save saveWith Performs)

variable (engine : Engine) (disk : Disk)

/-- Applies a file: reads everything, works out the rows and writes them with an entry. -/
def applyFile (path : Path) (direction : Direction) : Action Failure Reply := do
  let s ← load
  let r ← liftM (engine.prepare disk s path direction)
  let e ← ExceptT.adapt .violation (saveWith r.1 r.2)
  return .logged e

/-- Applies a file if there is one. -/
def applyNext (direction : Direction) : Option Path → Action Failure Reply
  | none => return .nothing
  | some path => applyFile engine disk path direction

/-- An operation over a connection. -/
def act : Operation → Action Failure Reply
  | move direction => do
    let s ← load
    let path? ← liftM (engine.nextFile disk { content := s } direction)
    applyNext engine disk direction path?
  | apply path direction => applyFile engine disk path direction
  | rebuild => do
    let s ← load
    let rows ← liftM (engine.replayed disk s.migrations)
    ExceptT.adapt .violation (save rows)
    return .rebuilt rows

/-- The store after a step up or down, and what is reported of it. -/
def report (store : Store) : Option (Store × LogEntry) → Store × Reply
  | none => (store, .nothing)
  | some (next, e) => (next, .logged e)

/-- An operation as a function of the store. -/
def effect (store : Store) : Operation → Except Failure (Store × Reply)
  | move direction => (engine.migrate disk store direction).map (report store)
  | apply path direction =>
    (engine.applyFile disk store path direction).map fun r => (r.1, .logged r.2)
  | rebuild => (engine.rebuild disk store).map fun r => (r.1, .rebuilt r.2)

variable {engine disk}

theorem performs_applyFile (path : Path) (direction : Direction) :
    (applyFile engine disk path direction).Performs fun store =>
      (engine.applyFile disk store path direction).map fun r => (r.1, .logged r.2) := by
  have happly := Performs.load_bind fun s =>
    Performs.lift_bind (engine.prepare disk s path direction) fun r =>
      ((Action.performs_saveWith r.1 r.2).adapt Failure.violation).map Reply.logged
  refine happly.congr fun store => ?_
  rw [Engine.applyFile_eq]
  cases engine.prepare disk store.load path direction with
  | error f => rfl
  | ok r => rfl

theorem performs_applyNext (direction : Direction) (path? : Option Path) :
    (applyNext engine disk direction path?).Performs fun store => match path? with
      | none => .ok (store, .nothing)
      | some path => (engine.applyFile disk store path direction).map fun r =>
          (r.1, .logged r.2) := by
  cases path? with
  | none => exact Performs.pure _
  | some path => exact performs_applyFile path direction

theorem performs_move (direction : Direction) : ((move direction).act engine disk).Performs
    fun store => (engine.migrate disk store direction).map (report store) := by
  have hmove := Performs.load_bind fun s =>
    Performs.lift_bind (engine.nextFile disk { content := s } direction) fun path? =>
      (performs_applyNext direction path? : (applyNext engine disk direction path?).Performs _)
  refine hmove.congr fun store => ?_
  rw [Engine.migrate_eq]
  show engine.nextFile disk store direction >>= _ = _
  cases engine.nextFile disk store direction with
  | error f => rfl
  | ok path? =>
    cases path? with
    | none => rfl
    | some path =>
      show (engine.applyFile disk store path direction).map _ =
        (some <$> engine.applyFile disk store path direction).map _
      cases engine.applyFile disk store path direction with
      | error f => rfl
      | ok r => rfl

theorem performs_rebuild : (rebuild.act engine disk).Performs fun store =>
    (engine.rebuild disk store).map fun r => (r.1, .rebuilt r.2) := by
  have hrebuild := Performs.load_bind fun s =>
    Performs.lift_bind (engine.replayed disk s.migrations) fun rows =>
      ((Action.performs_save rows).adapt Failure.violation).map fun _ => Reply.rebuilt rows
  refine hrebuild.congr fun store => ?_
  rw [Engine.rebuild_eq]
  show engine.replayed disk store.log >>= _ = _
  cases engine.replayed disk store.log with
  | error f => rfl
  | ok rows =>
    show (((store.save rows).map _).mapError _).map _ =
      (((store.save rows).mapError _).map _).map _
    cases store.save rows with
    | error v => rfl
    | ok saved => rfl

/-- Every operation over a connection carries out the function of the store. -/
theorem performs (op : Operation) : (op.act engine disk).Performs fun store =>
    op.effect engine disk store := by
  cases op with
  | move direction => exact performs_move direction
  | apply path direction => exact performs_applyFile path direction
  | rebuild => exact performs_rebuild

end Operation

/-! ## 3. Numbers of the log -/

theorem foldl_max_le_iff {n bound : Int} {ns : List Int} :
    ns.foldl max n ≤ bound ↔ n ≤ bound ∧ ∀ k ∈ ns, k ≤ bound := by
  induction ns generalizing n with
  | nil => simp
  | cons k ns ih => rw [List.foldl_cons, ih, Int.max_le, List.forall_mem_cons, and_assoc]

namespace Store

/-- A number is free if it is greater than the last one that was given and than all in the log. -/
def IsFree (store : Store) (n : Int) : Prop :=
  store.lastNumber < n ∧ ∀ e ∈ store.log, ∀ k, e.seq = some k → k < n

theorem nextNumber_le_iff {store : Store} {n : Int} : store.nextNumber ≤ n ↔ store.IsFree n := by
  have hnumbers : (∀ k ∈ store.log.filterMap (·.seq), k ≤ n - 1) ↔
      ∀ e ∈ store.log, ∀ k, e.seq = some k → k < n := by
    simp only [List.mem_filterMap, forall_exists_index, and_imp, Int.le_sub_one_iff]
    exact ⟨fun h e he k hk => h k e he hk, fun h k e he hk => h e he k hk⟩
  rw [nextNumber, ← Int.le_sub_one_iff.trans Int.lt_iff_add_one_le, foldl_max_le_iff, hnumbers,
    Int.le_sub_one_iff, IsFree]

/-- The next number is the least free one. -/
theorem isLeast_nextNumber (store : Store) : IsLeast {n | store.IsFree n} store.nextNumber :=
  ⟨nextNumber_le_iff.1 le_rfl, fun _ hn => nextNumber_le_iff.2 hn⟩

/-- A gap is not filled, and a number that has left the log is not given again. -/
example (e : LogEntry) :
    nextNumber { content := { migrations := [{ e with seq := some 1 }, { e with seq := some 3 }] } }
      = 4 ∧ nextNumber { lastNumber := 7 } = 8 :=
  ⟨rfl, rfl⟩

/-- After an entry the numbers go on behind that of the entry. -/
theorem nextNumber_of_append {store next : Store} {e : LogEntry}
    (hlog : next.log = store.log ++ [e]) (hseq : e.seq = some store.nextNumber)
    (hlast : next.lastNumber = store.nextNumber) : next.nextNumber = store.nextNumber + 1 := by
  refine eq_of_forall_ge_iff fun n => ?_
  rw [nextNumber_le_iff, IsFree, hlog, hlast, ← Int.lt_iff_add_one_le]
  refine ⟨fun h => h.1, fun h => ⟨h, fun e' he' k hk => ?_⟩⟩
  rcases List.mem_append.1 he' with hold | hnew
  · exact ((isLeast_nextNumber store).1.2 e' hold k hk).trans h
  · obtain rfl := List.mem_singleton.1 hnew
    rw [hseq] at hk
    exact Option.some.inj hk ▸ h

/-- A store goes on from another: its log is the other one and further entries, which have the free
numbers from the least one on, without gaps. -/
def GoesOn (store next : Store) : Prop :=
  ∃ first entries, IsLeast {n | store.IsFree n} first ∧ next.log = store.log ++ entries ∧
    (∀ i (hi : i < entries.length), entries[i].seq = some (first + i)) ∧
    IsLeast {n | next.IsFree n} (first + entries.length)

namespace GoesOn

variable {store next last : Store}

theorem of_eq (hlog : next.log = store.log) (hlast : next.lastNumber = store.lastNumber) :
    GoesOn store next := by
  refine ⟨store.nextNumber, [], isLeast_nextNumber store, by simp [hlog], by simp, ?_⟩
  have hnext : next.nextNumber = store.nextNumber := by rw [nextNumber, nextNumber, hlog, hlast]
  simpa [hnext] using isLeast_nextNumber next

theorem append {e : LogEntry} (hlog : next.log = store.log ++ [e])
    (hseq : e.seq = some store.nextNumber) (hlast : next.lastNumber = store.nextNumber) :
    GoesOn store next := by
  refine ⟨store.nextNumber, [e], isLeast_nextNumber store, hlog, fun i hi => ?_, ?_⟩
  · obtain rfl : i = 0 := by simpa using hi
    simpa using hseq
  · have hnext := nextNumber_of_append hlog hseq hlast
    simpa [hnext] using isLeast_nextNumber next

theorem trans (h : GoesOn store next) (h' : GoesOn next last) : GoesOn store last := by
  obtain ⟨first, entries, hfirst, hlog, hseq, hfree⟩ := h
  obtain ⟨first', more, hfirst', hlog', hmore, hfree'⟩ := h'
  obtain rfl := hfirst'.unique hfree
  refine ⟨first, entries ++ more, hfirst, by rw [hlog', hlog, List.append_assoc],
    fun i hi => ?_, ?_⟩
  · by_cases hold : i < entries.length
    · rw [List.getElem_append_left hold]
      exact hseq i hold
    · rw [List.getElem_append_right (by omega), hmore]
      congr 1
      omega
  · rw [List.length_append]
    convert hfree' using 1
    omega

end GoesOn

end Store

/-! ## 4. What an operation does to the log -/

namespace Operation

variable {engine : Engine} {disk : Disk}

/-- A file that is applied adds one entry under the next number. -/
theorem log_applyFile {store next : Store} {path : Path} {direction : Direction} {e : LogEntry}
    (h : engine.applyFile disk store path direction = .ok (next, e)) :
    next.log = store.log ++ [e] ∧ e.seq = some store.nextNumber ∧
      next.lastNumber = store.nextNumber := by
  rw [Engine.applyFile_eq, bind_eq_ok] at h
  obtain ⟨r, -, hsave⟩ := h
  obtain ⟨hlog, rfl, hlast⟩ := Store.log_saveWith (mapError_eq_ok.1 hsave)
  exact ⟨hlog, rfl, hlast⟩

/-- The entry of a file that is applied names the file, its migration and the direction, and keeps
the checksum that the file had at this time. -/
theorem entry_of_applyFile {store next : Store} {path : Path} {direction : Direction} {e : LogEntry}
    (h : engine.applyFile disk store path direction = .ok (next, e)) :
    e.filename = path.name ∧ e.migrationId = Migration.idOf path.name ∧
      e.direction = direction.name ∧ Migration.checksum disk path = .ok e.checksum := by
  rw [Engine.applyFile_eq, bind_eq_ok] at h
  obtain ⟨r, hprepare, hsave⟩ := h
  obtain ⟨-, rfl, -⟩ := Store.log_saveWith (mapError_eq_ok.1 hsave)
  simp only [Engine.prepare] at hprepare
  -- with the catalogs before it or not
  split at hprepare
  all_goals
    simp only [bind_eq_ok, mapError_eq_ok, pure_eq_ok] at hprepare
    obtain ⟨-, -, s, -, sum, hsum, time, -, rfl⟩ := hprepare
    exact ⟨rfl, rfl, rfl, hsum⟩

/-- A step with a next file applies it. -/
theorem effect_move {store : Store} {d : Direction} {path : Path}
    (hnext : engine.nextFile disk store d = .ok (some path)) :
    (move d).effect engine disk store =
      (engine.applyFile disk store path d).map fun r => (r.1, .logged r.2) := by
  rw [effect, Engine.migrate_eq, hnext]
  show (some <$> engine.applyFile disk store path d).map (report store) = _
  cases engine.applyFile disk store path d with
  | error f => rfl
  | ok r => rfl

/-- Everything that an operation can do to the store: it fails, it has nothing to do, it adds one
entry to the log, or it leaves the log as it is and makes the rows anew. -/
theorem effect_cases (engine : Engine) (disk : Disk) (op : Operation) (store : Store) :
    (∃ f, op.effect engine disk store = .error f) ∨
    (op.effect engine disk store = .ok (store, .nothing) ∧
      (op = .move .up ∧ engine.pending disk store = .ok [] ∨
        op = .move .down ∧ Migration.appliedStack store.log = [])) ∨
    (∃ next e, op.effect engine disk store = .ok (next, .logged e) ∧ op ≠ .rebuild ∧
      next.log = store.log ++ [e] ∧ e.seq = some store.nextNumber ∧
      next.lastNumber = store.nextNumber) ∨
    ∃ next rows, op.effect engine disk store = .ok (next, .rebuilt rows) ∧ op = .rebuild ∧
      next.log = store.log ∧ next.lastNumber = store.lastNumber := by
  cases op with
  | move d =>
    cases hnext : engine.nextFile disk store d with
    | error f => exact .inl ⟨f, by rw [effect, Engine.migrate_eq, hnext]; rfl⟩
    | ok path? =>
      cases path? with
      | none =>
        refine .inr (.inl ⟨by rw [effect, Engine.migrate_eq, hnext]; rfl, ?_⟩)
        simpa using Engine.nextFile_eq_none_iff.1 hnext
      | some path =>
        rw [effect_move hnext]
        cases happly : engine.applyFile disk store path d with
        | error f => exact .inl ⟨f, rfl⟩
        | ok r => exact .inr (.inr (.inl ⟨r.1, r.2, rfl, by simp, log_applyFile happly⟩))
  | apply path direction =>
    rw [effect]
    cases happly : engine.applyFile disk store path direction with
    | error f => exact .inl ⟨f, rfl⟩
    | ok r => exact .inr (.inr (.inl ⟨r.1, r.2, rfl, by simp, log_applyFile happly⟩))
  | rebuild =>
    rw [effect]
    cases hrebuild : engine.rebuild disk store with
    | error f => exact .inl ⟨f, rfl⟩
    | ok r =>
      exact .inr (.inr (.inr ⟨r.1, r.2, rfl, rfl, Engine.log_rebuild hrebuild,
        Engine.lastNumber_rebuild hrebuild⟩))

/-! ## 5. Runs over a connection -/

/-- An operation, and what it is done with: the engine and the disk at its time. -/
structure Occurrence where
  engine : Engine := {}
  disk : Disk
  operation : Operation

/-- The connection after an operation, whether it fails or not. -/
def connectionAfter (conn : Connection) (o : Occurrence) : Connection :=
  (Action.outcome (o.operation.act o.engine o.disk) conn).2

/-- An operation leaves no open transaction, and a store that goes on from the old one. -/
theorem exists_after (store : Store) (o : Occurrence) :
    ∃ next, connectionAfter (.idle store) o = .idle next ∧ store.GoesOn next := by
  have hperforms : Action.outcome (o.operation.act o.engine o.disk) (.idle store) =
      Action.settled store (o.operation.effect o.engine o.disk store) := performs _ store
  rw [connectionAfter, hperforms]
  rcases effect_cases o.engine o.disk o.operation store with ⟨f, heffect⟩ | ⟨heffect, -⟩ |
    ⟨next, e, heffect, -, hlog, hseq, hlast⟩ | ⟨next, rows, heffect, -, hlog, hlast⟩
  · exact ⟨store, by rw [heffect, Action.settled], .of_eq rfl rfl⟩
  · exact ⟨store, by rw [heffect, Action.settled], .of_eq rfl rfl⟩
  · exact ⟨next, by rw [heffect, Action.settled], .append hlog hseq hlast⟩
  · exact ⟨next, by rw [heffect, Action.settled], .of_eq hlog hlast⟩

/-- So do any number of them. -/
theorem exists_after_all (store : Store) (os : List Occurrence) :
    ∃ next, os.foldl connectionAfter (.idle store) = .idle next ∧ store.GoesOn next := by
  induction os generalizing store with
  | nil => exact ⟨store, rfl, .of_eq rfl rfl⟩
  | cons o os ih =>
    obtain ⟨next, hnext, hlog⟩ := exists_after store o
    obtain ⟨last, hlast, hlogs⟩ := ih next
    exact ⟨last, by rw [List.foldl_cons, hnext, hlast], hlog.trans hlogs⟩

/-- A store that was empty at first has numbered its log from one on. -/
theorem exists_after_empty (os : List Occurrence) :
    ∃ next, os.foldl connectionAfter (.idle {}) = .idle next ∧
      ∀ i (hi : i < next.log.length), next.log[i].seq = some (i + 1 : Int) := by
  obtain ⟨next, hnext, first, entries, hfirst, hlog, hseq, -⟩ := exists_after_all {} os
  obtain rfl : first = 1 := hfirst.unique (Store.isLeast_nextNumber {})
  obtain rfl : next.log = entries := hlog
  refine ⟨next, hnext, fun i hi => ?_⟩
  rw [hseq i hi, Int.add_comm]

/-- Every operation comes to what the engine's function gives. So it fails and leaves the store,
rows and log alike, as it was; or it reports that nothing is pending or nothing is applied, and
leaves the store as it was; or it adds one entry to the log, under the least number that is greater
than all given before; or it makes the rows anew and keeps the log. After any operations, also
failing ones, no transaction is open and the log goes on from the old one without gaps. -/
theorem atomic_and_appendOnly (store : Store) :
    (∀ (engine : Engine) (disk : Disk) (op : Operation),
      Action.outcome (op.act engine disk) (.idle store) =
        Action.settled store (op.effect engine disk store) ∧
      ((∃ f, Action.outcome (op.act engine disk) (.idle store) = (.error f, .idle store)) ∨
      (Action.outcome (op.act engine disk) (.idle store) = (.ok .nothing, .idle store) ∧
        (op = .move .up ∧ engine.pending disk store = .ok [] ∨
          op = .move .down ∧ Migration.appliedStack store.log = [])) ∨
      (∃ next e n,
        Action.outcome (op.act engine disk) (.idle store) = (.ok (.logged e), .idle next) ∧
        op ≠ .rebuild ∧ next.log = store.log ++ [e] ∧ e.seq = some n ∧
        IsLeast {k | store.IsFree k} n ∧ next.lastNumber = n) ∨
      ∃ next rows,
        Action.outcome (op.act engine disk) (.idle store) = (.ok (.rebuilt rows), .idle next) ∧
        op = .rebuild ∧ next.log = store.log ∧ next.lastNumber = store.lastNumber)) ∧
    ∀ os : List Occurrence, ∃ next, os.foldl connectionAfter (.idle store) = .idle next ∧
      store.GoesOn next := by
  refine ⟨fun engine disk op => ?_, exists_after_all store⟩
  have hperforms : Action.outcome (op.act engine disk) (.idle store) =
      Action.settled store (op.effect engine disk store) := performs op store
  refine ⟨hperforms, ?_⟩
  rw [hperforms]
  rcases effect_cases engine disk op store with ⟨f, heffect⟩ | ⟨heffect, hnothing⟩ |
    ⟨next, e, heffect, hop, hlog, hseq, hlast⟩ | ⟨next, rows, heffect, hrebuilt⟩
  · exact .inl ⟨f, by rw [heffect, Action.settled]⟩
  · exact .inr (.inl ⟨by rw [heffect, Action.settled], hnothing⟩)
  · exact .inr (.inr (.inl ⟨next, e, store.nextNumber, by rw [heffect, Action.settled], hop, hlog,
      hseq, store.isLeast_nextNumber, hlast⟩))
  · exact .inr (.inr (.inr ⟨next, rows, by rw [heffect, Action.settled], hrebuilt⟩))

end Operation

end StyleLedger
