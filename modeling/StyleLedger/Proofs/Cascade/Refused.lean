import StyleLedger.Proofs.Cascade.Growth
import StyleLedger.Proofs.Cascade.Settled
import StyleLedger.Proofs.Source.Evaluation
import StyleLedger.Source.Parse

/-!
A statement that is refused leaves no trace.

`Cascade.step` says what a statement comes to: a context and a cascade, or a refusal, beside which
there is nothing that could have changed. Here the same statements act on one context and one
cascade in small steps. A layer is set before it is met, selectors become known one after the other,
and a style is written bucket by bucket and declaration by declaration. A refusal undoes nothing, so
whatever has been written by then stays written.

The two are the same (`Writing.ofAction_forM_apply`), because the condition of a style is brought
into normal form before the first selector becomes known, and nothing else is ever refused.

* `Statement.IsRefusedFor` — the one way in which a statement can fail.
* `Cascade.Writing` — actions on the context of a file and a cascade.
* `Writing.apply` — a statement, step by step.
-/

namespace StyleLedger

open Outcome

/-! ## 1. Refusals -/

/-- The style that a statement writes to. -/
def Statement.target? : Statement → Option StyleTarget
  | .createStyle target _ | .alterStyle target _ _ => some target
  | _ => none

/-- A style is written whose condition has no normal form. -/
def Statement.IsRefusedFor (e : CompositionError) (stmt : Statement) : Prop :=
  ∃ target ∈ stmt.target?, Descriptor.ofCondition target.condition = .error e

theorem Statement.isAccepted_iff {stmt : Statement} :
    stmt.isAccepted = true ↔ ∀ e, ¬stmt.IsRefusedFor e := by
  have hwrite : ∀ x : Except CompositionError (List (Option Descriptor)),
      x.toOption.isSome = true ↔ ∀ e, x ≠ .error e := by
    intro x
    cases x with
    | error e => simp [Except.toOption]
    | ok ds => simp [Except.toOption]
  cases stmt with
  | createStyle target ds | alterStyle target mode ds =>
    simpa [isAccepted, IsRefusedFor, target?] using hwrite (Descriptor.ofCondition target.condition)
  | _ => simp [isAccepted, IsRefusedFor, target?]

theorem Cascade.writeStyle_eq_error_iff {ctx : Context} {s : Cascade} {target : StyleTarget}
    {mode : WriteMode} {ds : List Declaration} {e : CompositionError} :
    s.writeStyle ctx target mode ds = .error e ↔
      Descriptor.ofCondition target.condition = .error e := by
  unfold writeStyle
  cases Descriptor.ofCondition target.condition with
  | error e' => simp [bind, Except.bind]
  | ok ds => simp [bind, Except.bind, pure, Except.pure]

theorem Cascade.step_eq_error_iff {ctx : Context} {s : Cascade} {stmt : Statement}
    {e : CompositionError} : step ctx s stmt = .error e ↔ stmt.IsRefusedFor e := by
  cases stmt with
  | createStyle target ds | alterStyle target mode ds =>
    simpa [step, Statement.IsRefusedFor, Statement.target?] using writeStyle_eq_error_iff
  | _ => simp [step, Statement.IsRefusedFor, Statement.target?]

namespace Cascade

/-! ## 2. Writing step by step -/

/-- What is done over the context of a file and a cascade. A refusal does not undo anything. -/
abbrev Writing := ExceptT CompositionError (StateM (Context × Cascade))

namespace Writing

/-- Makes a selector known. -/
def mention (name : String) : Writing Unit :=
  modify fun p => Cascade.mention p name

/-- Changes the index of buckets. -/
def index (change : Context → BucketIndex → BucketIndex) : Writing Unit :=
  modify fun (ctx, s) => (ctx, s.withBuckets (change ctx s.buckets))

/-- Finds the buckets of a target: its condition is looked at, and then its selectors become
known. -/
def keys (target : StyleTarget) : Writing (List BucketKey) := do
  let descriptors ← liftM (Descriptor.ofCondition target.condition)
  (selectorsOf target).forM mention
  return keysOf (← get).1.activeLayer target descriptors

/-- Writes declarations to a bucket, one after the other; without any, the bucket only counts as
written. -/
def bucket (mode : WriteMode) (ds : List Declaration) (k : BucketKey) : Writing Unit :=
  if ds.isEmpty then index fun _ i => (i.touch k).1
  else ds.forM fun d => index fun ctx i => writeOne ctx mode k i d

/-- Writes a style. -/
def style (target : StyleTarget) (mode : WriteMode) (ds : List Declaration) : Writing Unit := do
  let ks ← keys target
  ks.forM (bucket mode ds)

/-- Applies a statement. Those that write one thing only write it at once. -/
def apply : Statement → Writing Unit
  | .createStyle target ds => style target .set ds
  | .alterStyle target mode ds => style target mode ds
  | .setLayer name => do
    modify fun (ctx, s) => ({ ctx with activeLayer := some name }, s)
    modify fun (ctx, s) =>
      (ctx, { s with layers := s.layers.encounter (.text name) ctx.provenance })
  | .createLayers names => names.forM fun name =>
    modify fun (ctx, s) =>
      (ctx, { s with layers := s.layers.declareOne ctx.provenance (.text name) })
  | .createStartingStyle selector ds => do
    mention selector
    modify fun (ctx, s) =>
      (ctx, { s with startingStyles := s.startingStyles.put (.text selector) (ruleBlock ctx ds) })
  | stmt => do
    let (ctx, s) ← get
    set (← liftM (step ctx s stmt))

/-! ## 3. What a style has written -/

/-- The clock may have been read for selectors that became known; nothing else is different. -/
theorem exists_mentions_eq (names : List String) (p : Context × Cascade) :
    ∃ now later, (names.foldl Cascade.mention p).1 = { p.1 with now, later } := by
  induction names generalizing p with
  | nil => exact ⟨p.1.now, p.1.later, rfl⟩
  | cons name names ih =>
    obtain ⟨now, later, h⟩ := ih (Cascade.mention p name)
    refine ⟨now, later, h.trans ?_⟩
    simp only [Cascade.mention, Context.tickIf, Context.tick]
    split
    · split
      · rfl
      · rfl
    · rfl

/-- Buckets that are changed one after the other. -/
theorem ofAction_forM_index {α : Type} {ctx : Context} {f : α → Writing Unit}
    {g : BucketIndex → α → BucketIndex}
    (h : ∀ x s, ofAction (f x) (ctx, s) = (.ok (), ctx, s.withBuckets (g s.buckets x)))
    (xs : List α) (s : Cascade) :
    ofAction (xs.forM f) (ctx, s) = (.ok (), ctx, s.withBuckets (xs.foldl g s.buckets)) := by
  induction xs generalizing s with
  | nil => rfl
  | cons x xs ih =>
    have hcons : ofAction ((x :: xs).forM f) (ctx, s) =
        ofAction (f x >>= fun _ => xs.forM f) (ctx, s) := rfl
    rw [hcons, ofAction_bind, h]
    exact ih _

theorem ofAction_bucket (mode : WriteMode) (ds : List Declaration) (k : BucketKey) (ctx : Context)
    (s : Cascade) : ofAction (bucket mode ds k) (ctx, s) =
      (.ok (), ctx, s.withBuckets (writeAll ctx mode ds s.buckets k)) := by
  unfold bucket writeAll
  split
  · rfl
  · exact ofAction_forM_index (fun _ _ => rfl) ds s

theorem ofAction_keys (target : StyleTarget) (p : Context × Cascade) :
    ofAction (keys target) p = match Descriptor.ofCondition target.condition with
      | .ok descriptors =>
        (.ok (keysOf p.1.activeLayer target descriptors),
          (selectorsOf target).foldl Cascade.mention p)
      | .error e => (.error e, p) := by
  have hmentions : ofAction ((selectorsOf target).forM mention) p =
      (.ok (), (selectorsOf target).foldl Cascade.mention p) :=
    ofAction_forM_of_ok (fun _ _ => rfl) _ p
  obtain ⟨now, later, hctx⟩ := exists_mentions_eq (selectorsOf target) p
  rw [keys, ofAction_bind]
  cases Descriptor.ofCondition target.condition with
  | error e => rfl
  | ok descriptors =>
    show ofAction ((selectorsOf target).forM mention >>= _) p = _
    rw [ofAction_bind, hmentions]
    show (Except.ok (keysOf ((selectorsOf target).foldl Cascade.mention p).1.activeLayer target
      descriptors), _) = _
    rw [hctx]

/-- A style is refused before anything is written, or it is written as a whole. -/
theorem ofAction_style (target : StyleTarget) (mode : WriteMode) (ds : List Declaration)
    (ctx : Context) (s : Cascade) :
    ofAction (style target mode ds) (ctx, s) = match s.writeStyle ctx target mode ds with
      | .ok p => (.ok (), p)
      | .error e => (.error e, ctx, s) := by
  rw [style, ofAction_bind, ofAction_keys, writeStyle]
  cases Descriptor.ofCondition target.condition with
  | error e => rfl
  | ok descriptors =>
    obtain ⟨now, later, hctx⟩ := exists_mentions_eq (selectorsOf target) (ctx, s)
    rcases hp : (selectorsOf target).foldl Cascade.mention (ctx, s) with ⟨ctx', s'⟩
    simp only [hp] at hctx
    show ofAction ((keysOf ctx.activeLayer target descriptors).forM (bucket mode ds)) (ctx', s') = _
    rw [ofAction_forM_index (fun k s => ofAction_bucket mode ds k ctx' s), hctx]
    rfl

/-! ## 4. Statements and files -/

/-- A statement step by step is refused with nothing written, or comes to what `step` says. -/
theorem ofAction_apply (stmt : Statement) (ctx : Context) (s : Cascade) :
    ofAction (apply stmt) (ctx, s) = match step ctx s stmt with
      | .ok p => (.ok (), p)
      | .error e => (.error e, ctx, s) := by
  cases stmt with
  | createStyle target ds => exact ofAction_style target .set ds ctx s
  | alterStyle target mode ds => exact ofAction_style target mode ds ctx s
  | createLayers names =>
    have hdeclare : ∀ (names : List String) (r : LayerRegistry),
        names.foldl (fun (p : Context × Cascade) name =>
          (p.1, { p.2 with layers := p.2.layers.declareOne p.1.provenance (.text name) }))
          (ctx, { s with layers := r }) =
        (ctx, { s with layers := r.declare (names.map .text) ctx.provenance }) := by
      intro names
      induction names with
      | nil => exact fun _ => rfl
      | cons name names ih => exact fun r => ih _
    exact (ofAction_forM_of_ok (fun _ _ => rfl) names (ctx, s)).trans
      (congrArg _ (hdeclare names s.layers))
  | createStartingStyle selector ds =>
    obtain ⟨now, later, hctx⟩ := exists_mentions_eq [selector] (ctx, s)
    have hprovenance : (Cascade.mention (ctx, s) selector).1.provenance = ctx.provenance :=
      (congrArg Context.provenance hctx).trans rfl
    have hblock : ruleBlock (Cascade.mention (ctx, s) selector).1 ds = ruleBlock ctx ds :=
      congrArg (RuleBlock.mk (cleanStored ds)) hprovenance
    show (Except.ok (), (Cascade.mention (ctx, s) selector).1,
      { (Cascade.mention (ctx, s) selector).2 with
        startingStyles := (Cascade.mention (ctx, s) selector).2.startingStyles.put (.text selector)
          (ruleBlock (Cascade.mention (ctx, s) selector).1 ds) }) = _
    rw [hblock]
    rfl
  | _ => rfl

end Writing

/-- The result of some statements, and the context and the cascade after them. -/
def Outcome.settled (o : Cascade.Outcome) :
    Except CompositionError Unit × Context × Cascade :=
  (o.refusal.elim (.ok ()) .error, o.context, o.state)

namespace Writing

theorem ofAction_forM_apply (stmts : List Statement) (ctx : Context) (s : Cascade) :
    ofAction (stmts.forM apply) (ctx, s) = (run ctx s stmts).settled := by
  induction stmts generalizing ctx s with
  | nil => rfl
  | cons stmt stmts ih =>
    have hcons : ofAction ((stmt :: stmts).forM apply) (ctx, s) =
        ofAction (apply stmt >>= fun _ => stmts.forM apply) (ctx, s) := rfl
    rw [hcons, ofAction_bind, ofAction_apply, run]
    cases step ctx s stmt with
    | error e => rfl
    | ok p => exact ih p.1 p.2

end Writing

/-- Statements that are all accepted are applied, and then those after them. -/
theorem run_append_of_accepted {before : List Statement}
    (hbefore : ∀ stmt ∈ before, ∀ e, ¬stmt.IsRefusedFor e) (rest : List Statement) (ctx : Context)
    (s : Cascade) : (run ctx s before).refusal = none ∧
      run ctx s (before ++ rest) =
        run (run ctx s before).context (run ctx s before).state rest := by
  induction before generalizing ctx s with
  | nil => exact ⟨rfl, rfl⟩
  | cons stmt before ih =>
    obtain ⟨hstmt, hbefore⟩ := List.forall_mem_cons.1 hbefore
    cases hstep : step ctx s stmt with
    | error e => exact absurd (step_eq_error_iff.1 hstep) (hstmt e)
    | ok p =>
      simp only [List.cons_append, run, hstep]
      exact ih hbefore p.1 p.2

/-- The first statement that is refused ends the run where those before it have led. -/
theorem run_of_refused {before rest : List Statement} {stmt : Statement} {e : CompositionError}
    (hbefore : ∀ x ∈ before, ∀ e, ¬x.IsRefusedFor e) (hstmt : stmt.IsRefusedFor e)
    (ctx : Context) (s : Cascade) :
    run ctx s (before ++ stmt :: rest) = { run ctx s before with refusal := some e } := by
  rw [(run_append_of_accepted hbefore (stmt :: rest) ctx s).2, run,
    step_eq_error_iff.2 hstmt]

/-- A run is refused exactly when one of its statements is. -/
theorem refusal_ne_none_iff (ctx : Context) (s : Cascade) (stmts : List Statement) :
    (run ctx s stmts).refusal ≠ none ↔ ∃ stmt ∈ stmts, ∃ e, stmt.IsRefusedFor e := by
  induction stmts generalizing ctx s with
  | nil => simp [run]
  | cons stmt stmts ih =>
    rw [run, List.exists_mem_cons_iff]
    cases hstep : step ctx s stmt with
    | error e => exact iff_of_true (by simp) (.inl ⟨e, step_eq_error_iff.1 hstep⟩)
    | ok p =>
      have hstmt : ¬∃ e, stmt.IsRefusedFor e := by
        rintro ⟨e, he⟩
        rw [step_eq_error_iff.2 he] at hstep
        contradiction
      exact (ih p.1 p.2).trans (or_iff_right hstmt).symm

/-- Applying statements step by step comes to what applying them one by one does. It is refused
exactly when one of them writes a style whose condition has no normal form. Of the first such
statement nothing has been written then: no selector has become known, no bucket counts as written,
no number is used and the clock has not been read for it. The context and the cascade are those that
the statements before it have led to, all of which have been applied. -/
theorem Writing.refused_without_trace (ctx : Context) (s : Cascade) (stmts : List Statement) :
    ofAction (stmts.forM apply) (ctx, s) = (run ctx s stmts).settled ∧
    ((∃ e, (ofAction (stmts.forM apply) (ctx, s)).1 = .error e) ↔
      ∃ stmt ∈ stmts, ∃ e, stmt.IsRefusedFor e) ∧
    ∀ before stmt rest e, stmts = before ++ stmt :: rest →
      (∀ x ∈ before, ∀ e, ¬x.IsRefusedFor e) → stmt.IsRefusedFor e →
      ∃ ctx' s', ofAction (before.forM apply) (ctx, s) = (.ok (), ctx', s') ∧
        ofAction (stmts.forM apply) (ctx, s) = (.error e, ctx', s') := by
  refine ⟨ofAction_forM_apply stmts ctx s, ?_, ?_⟩
  · rw [ofAction_forM_apply, ← refusal_ne_none_iff ctx s, Outcome.settled]
    cases (run ctx s stmts).refusal with
    | none => simp
    | some e => simp
  · rintro before stmt rest e rfl hbefore hstmt
    obtain ⟨hnone, -⟩ := run_append_of_accepted hbefore [] ctx s
    refine ⟨(run ctx s before).context, (run ctx s before).state, ?_, ?_⟩
    · rw [ofAction_forM_apply, Outcome.settled, hnone]
      rfl
    · rw [ofAction_forM_apply, run_of_refused hbefore hstmt]
      rfl

/-- The second file asks for a container and the viewport at once. Its selector does not become
known, and the layer and the style of the first file are there. -/
theorem Writing.refused_without_trace_mixed : ∃ first stmt ctx s,
    Source.parse "SET LAYER = base; CREATE STYLE SELECTOR a (b = c);" false = .ok first ∧
    Source.parse "ALTER STYLE SELECTOR d WHERE width >= 1px AND container e > 1px SET b = f;"
      false = .ok [stmt] ∧
    ofAction ((first ++ [stmt]).forM apply) ({}, {}) = (.error .mediaWithContainer, ctx, s) ∧
    ctx.activeLayer = some "base" ∧ s.selectors.keys = [.text "a"] ∧
    s.buckets.sequenceCells = [.int 1] := by
  obtain ⟨⟨_, _⟩, hparse, hfacts⟩ := exists_ok_of_any
    (x := do
      let first ← Source.parse "SET LAYER = base; CREATE STYLE SELECTOR a (b = c);" false
      let second ← Source.parse
        "ALTER STYLE SELECTOR d WHERE width >= 1px AND container e > 1px SET b = f;" false
      return (first, second))
    (p := fun (r : List Statement × List Statement) =>
      let o := run {} {} r.1
      r.1.all (·.isAccepted) && r.2.length == 1 &&
        (r.2.all fun stmt => stmt.target?.any fun target =>
          decide (Descriptor.ofCondition target.condition = .error .mediaWithContainer)) &&
        decide (o.context.activeLayer = some "base" ∧ o.state.selectors.keys = [.text "a"] ∧
          o.state.buckets.sequenceCells = [.int 1]))
    (by
      rw [Source.parse_ofList, Source.parse_ofList]
      decide +kernel)
  simp only [bind_eq_ok, pure_eq_ok, Prod.mk.injEq] at hparse
  obtain ⟨first, hfirst, second, hsecond, rfl, rfl⟩ := hparse
  simp only [Bool.and_eq_true, List.all_eq_true, beq_iff_eq, decide_eq_true_eq] at hfacts
  obtain ⟨⟨⟨haccepted, hlength⟩, hrefused⟩, hlayer, hselectors, hcells⟩ := hfacts
  obtain ⟨stmt, rfl⟩ := List.length_eq_one_iff.1 hlength
  have hstmt : stmt.IsRefusedFor .mediaWithContainer := by
    simpa [Statement.IsRefusedFor, Option.any_eq_true] using hrefused stmt List.mem_cons_self
  have hfirst' : ∀ x ∈ first, ∀ e, ¬x.IsRefusedFor e :=
    fun x hx => Statement.isAccepted_iff.1 (haccepted x hx)
  obtain ⟨ctx, s, hbefore, hafter⟩ := (refused_without_trace {} {} (first ++ [stmt])).2.2 first stmt
    [] _ rfl hfirst' hstmt
  rw [(refused_without_trace {} {} first).1, Outcome.settled] at hbefore
  obtain ⟨rfl, rfl⟩ := Prod.mk.inj (Prod.mk.inj hbefore).2
  exact ⟨first, stmt, _, _, hfirst, hsecond, hafter, hlayer, hselectors, hcells⟩

end Cascade

end StyleLedger
