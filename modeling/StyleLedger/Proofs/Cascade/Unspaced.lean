import StyleLedger.Compile
import StyleLedger.Proofs.Cascade.Matching

/-!
Cascades without their spacing modes.

A statement that sets the spacing mode writes nothing; the mode stays in force until the file ends
and goes along with every property that is written meanwhile. What is left of a cascade when the
modes of its properties are taken out does not depend on them: each operation on buckets can be made
before or after the modes are taken out, so a file does with its spacing statements what it does
without them, except to the modes (`Cascade.build_unspaced`). A forced mode takes the place of all
recorded ones, and then a cascade without its modes has the same style sheet
(`Cascade.compile_unspaced`).

* `Cascade.unspaced` — a cascade in which no property has a spacing mode.
* `Statement.setsSpacing` — whether a statement sets the mode.
* `CompilerConfig.IsForced` — a mode that is not empty is forced.
-/

namespace StyleLedger

open Outcome

/-! ## 1. Buckets -/

def StyleProperty.unspaced (p : StyleProperty) : StyleProperty :=
  { p with spacingMode := .null }

def Bucket.unspaced (b : Bucket) : Bucket :=
  { b with properties := b.properties.map StyleProperty.unspaced }

@[simp] theorem Bucket.time_unspaced (b : Bucket) : b.unspaced.time = b.time := rfl

namespace BucketIndex

def unspaced (index : BucketIndex) : BucketIndex :=
  { index with buckets := index.buckets.map Bucket.unspaced }

variable (index : BucketIndex)

theorem get?_unspaced (k : BucketKey) : index.unspaced.get? k = (index.get? k).map .unspaced :=
  Table.get?_map _ _ _

theorem propertiesOf_unspaced (k : BucketKey) :
    index.unspaced.propertiesOf k = (index.propertiesOf k).map .unspaced := by
  rw [propertiesOf, propertiesOf, get?_unspaced]
  cases index.get? k <;> rfl

/-- Which number comes next does not depend on the modes. -/
theorem nextSequence_unspaced : index.unspaced.nextSequence = index.nextSequence := by
  have hcells : index.unspaced.sequenceCells = index.sequenceCells := by
    simp only [sequenceCells, unspaced, Table.values_map, List.flatMap_map, Bucket.unspaced,
      List.map_map]
    rfl
  simp only [nextSequence, sequences, hcells]

/-- Which bucket was written last does not depend on the modes. -/
theorem mostRecent?_unspaced (selector layer : Json) :
    index.unspaced.mostRecent? selector layer =
      (index.mostRecent? selector layer).map fun e => (e.1, e.2.unspaced) := by
  have hlater : ∀ (es : List (BucketKey × Bucket)) (e : BucketKey × Bucket),
      (es.map fun e => (e.1, e.2.unspaced)).foldl later (e.1, e.2.unspaced) =
        ((es.foldl later e).1, (es.foldl later e).2.unspaced) := by
    intro es
    induction es with
    | nil => exact fun e => rfl
    | cons d es ih =>
      intro e
      have hpair : later (e.1, e.2.unspaced) (d.1, d.2.unspaced) =
          ((later e d).1, (later e d).2.unspaced) := by
        simp only [later, Bucket.time_unspaced]
        exact (apply_ite (fun e : BucketKey × Bucket => (e.1, e.2.unspaced)) _ d e).symm
      rw [List.map_cons, List.foldl_cons, List.foldl_cons, hpair]
      exact ih _
  have hfilter : index.unspaced.buckets.entries.filter (·.1.isFor selector layer) =
      (index.buckets.entries.filter (·.1.isFor selector layer)).map fun e =>
        (e.1, e.2.unspaced) := by
    rw [unspaced, Table.map, List.filter_map]
    rfl
  rw [mostRecent?, mostRecent?, hfilter]
  cases index.buckets.entries.filter (·.1.isFor selector layer) with
  | nil => rfl
  | cons e es => exact congrArg some (hlater es e)

/-! ### Writing -/

theorem putTouched_unspaced (k : BucketKey) (ps : Table Json StyleProperty) :
    (index.putTouched k ps).unspaced = index.unspaced.putTouched k (ps.map .unspaced) := by
  simp only [putTouched, unspaced, Table.map_put]
  rfl

theorem touch_unspaced (k : BucketKey) :
    (index.touch k).1.unspaced = (index.unspaced.touch k).1 := by
  rw [touch, touch, get?_unspaced]
  cases index.get? k with
  | none => rfl
  | some b => exact putTouched_unspaced index k b.properties

theorem add_unspaced (k : BucketKey) (name : Json) (p : StyleProperty) :
    (index.add k name p).1.unspaced = (index.unspaced.add k name p.unspaced).1 := by
  simp only [add, propertiesOf_unspaced, Table.contains_map]
  split
  · exact putTouched_unspaced index k _
  · rw [putTouched_unspaced, Table.map_put]

theorem set_unspaced (k : BucketKey) (name : Json) (p : StyleProperty) :
    (index.set k name p).unspaced = index.unspaced.set k name p.unspaced := by
  simp only [set, propertiesOf_unspaced, Table.get?_map, putTouched_unspaced, Table.map_put]
  cases (index.propertiesOf k).get? name <;> rfl

theorem delete_unspaced (selector layer : Json) (name : Option Json) :
    (index.delete selector layer name).1.unspaced =
      (index.unspaced.delete selector layer name).1 := by
  -- What a bucket keeps goes back to the index, or the bucket goes when it keeps nothing.
  have hkeep : ∀ (k : BucketKey) (b : Bucket) (left : Table Json StyleProperty),
      (if left.isEmpty then index.buckets.erase k
        else index.buckets.put k { b with properties := left }).map Bucket.unspaced =
      if (left.map StyleProperty.unspaced).isEmpty then index.unspaced.buckets.erase k
        else index.unspaced.buckets.put k { b with properties := left.map .unspaced } := by
    intro k b left
    rw [Table.isEmpty_map]
    split
    · exact Table.map_erase _ _ _
    · exact Table.map_put _ _ _ _
  rw [delete, delete, mostRecent?_unspaced]
  cases index.mostRecent? selector layer with
  | none => rfl
  | some e =>
    cases name with
    | none => exact congrArg (BucketIndex.mk · index.clock) (hkeep e.1 e.2 {})
    | some n =>
      simp only [Option.map_some, Bucket.unspaced, Table.contains_map]
      by_cases hn : e.2.properties.contains n
      · simp only [hn, if_true, ← Table.map_erase]
        exact congrArg (BucketIndex.mk · index.clock) (hkeep e.1 e.2 _)
      · simp only [hn]
        rfl

theorem drop_unspaced (selector layer : Json) :
    (index.drop selector layer).1.unspaced = (index.unspaced.drop selector layer).1 := by
  refine congrArg (BucketIndex.mk · index.clock) ?_
  exact Table.map_filter Bucket.unspaced
    (q := fun (k : BucketKey) _ => !k.isFor selector layer) (fun _ _ => rfl) _

end BucketIndex

/-! ## 2. Statements -/

/-- The context without its spacing mode. -/
def Context.unspaced (ctx : Context) : Context :=
  { ctx with spacingMode := none }

theorem Context.tickIf_unspaced (ctx : Context) (read : Bool) :
    (ctx.tickIf read).unspaced = ctx.unspaced.tickIf read := by
  unfold Context.tickIf Context.tick
  cases read with
  | false => rfl
  | true =>
    obtain ⟨_, _, _, _, _, later⟩ := ctx
    cases later <;> rfl

theorem Context.tick_unspaced (ctx : Context) : ctx.tick.unspaced = ctx.unspaced.tick :=
  ctx.tickIf_unspaced true

/-- Whether a statement sets the spacing mode. -/
def Statement.setsSpacing : Statement → Bool
  | .setSpacing _ => true
  | _ => false

namespace Cascade

/-- The cascade in which no property has a spacing mode. -/
def unspaced (s : Cascade) : Cascade :=
  { s with buckets := s.buckets.unspaced }

theorem newProperty_unspaced (index : BucketIndex) (ctx : Context) (d : Declaration) :
    (newProperty index ctx d).unspaced = newProperty index.unspaced ctx.unspaced d := by
  simp only [newProperty, BucketIndex.nextSequence_unspaced]
  rfl

theorem writeOne_unspaced (ctx : Context) (mode : WriteMode) (k : BucketKey) (index : BucketIndex)
    (d : Declaration) :
    (writeOne ctx mode k index d).unspaced = writeOne ctx.unspaced mode k index.unspaced d := by
  cases mode with
  | add =>
    simp only [writeOne, ← newProperty_unspaced]
    exact index.add_unspaced k _ _
  | set =>
    simp only [writeOne, ← newProperty_unspaced]
    exact index.set_unspaced k _ _

theorem writeAll_unspaced (ctx : Context) (mode : WriteMode) (ds : List Declaration)
    (index : BucketIndex) (k : BucketKey) :
    (writeAll ctx mode ds index k).unspaced = writeAll ctx.unspaced mode ds index.unspaced k := by
  unfold writeAll
  split
  · exact index.touch_unspaced k
  · exact (List.foldl_hom BucketIndex.unspaced fun index d =>
      (writeOne_unspaced ctx mode k index d).symm).symm

theorem mentions_unspaced (names : List String) (ctx : Context) (s : Cascade) :
    names.foldl mention (ctx.unspaced, s.unspaced) =
      ((names.foldl mention (ctx, s)).1.unspaced, (names.foldl mention (ctx, s)).2.unspaced) := by
  induction names generalizing ctx s with
  | nil => rfl
  | cons name names ih =>
    have hstate : s.unspaced.referenceSelector ctx.unspaced (.text name) =
        (s.referenceSelector ctx (.text name)).unspaced := by
      unfold referenceSelector
      rw [apply_ite unspaced]
      rfl
    have hone : mention (ctx.unspaced, s.unspaced) name =
        ((mention (ctx, s) name).1.unspaced, (mention (ctx, s) name).2.unspaced) := by
      simp only [mention, hstate, Context.tickIf_unspaced]
      rfl
    rw [List.foldl_cons, List.foldl_cons, hone]
    exact ih _ _

theorem writeStyle_unspaced (s : Cascade) (ctx : Context) (target : StyleTarget) (mode : WriteMode)
    (ds : List Declaration) : s.unspaced.writeStyle ctx.unspaced target mode ds =
      (s.writeStyle ctx target mode ds).map fun r => (r.1.unspaced, r.2.unspaced) := by
  unfold writeStyle
  cases Descriptor.ofCondition target.condition with
  | error e => rfl
  | ok descriptors =>
    have hkeys : ∀ (keys : List BucketKey) (index : BucketIndex),
        (keys.foldl (writeAll ctx mode ds) index).unspaced =
          keys.foldl (writeAll ctx.unspaced mode ds) index.unspaced := fun keys index =>
      (List.foldl_hom BucketIndex.unspaced fun index k =>
        (writeAll_unspaced ctx mode ds index k).symm).symm
    simp only [bind, Except.bind, pure, Except.pure, Except.map, mentions_unspaced, Except.ok.injEq,
      Prod.mk.injEq, true_and]
    simp only [unspaced, hkeys]
    rfl

theorem deleteToken_unspaced (s : Cascade) (ctx : Context) (name : Json) :
    s.unspaced.deleteToken ctx.unspaced name = (s.deleteToken ctx name).unspaced := by
  simp only [deleteToken, unspaced]
  cases s.tokens.get? name with
  | none => rfl
  | some old =>
    dsimp only
    split <;> rfl

theorem deleteSelector_unspaced (s : Cascade) (ctx : Context) (name : Json) :
    s.unspaced.deleteSelector ctx.unspaced name = (s.deleteSelector ctx name).unspaced := by
  simp only [deleteSelector, unspaced]
  cases s.selectors.get? name with
  | none => rfl
  | some old =>
    dsimp only
    split <;> rfl

/-- A statement that does not set the mode does to a cascade without modes what it does to the
cascade. -/
theorem step_unspaced (ctx : Context) (s : Cascade) {stmt : Statement}
    (h : stmt.setsSpacing = false) : step ctx.unspaced s.unspaced stmt =
      (step ctx s stmt).map fun r => (r.1.unspaced, r.2.unspaced) := by
  cases stmt with
  | setSpacing mode => simp [Statement.setsSpacing] at h
  | createStyle target ds | alterStyle target mode ds => exact s.writeStyle_unspaced ctx _ _ _
  | createToken name value =>
    exact congrArg (fun c => Except.ok (c, (s.putToken ctx _ _).unspaced)) ctx.tick_unspaced.symm
  | dropToken name | deleteToken name =>
    refine congrArg Except.ok (Prod.ext ?_ (s.deleteToken_unspaced ctx _))
    exact (ctx.tickIf_unspaced _).symm
  | createSelector name definition =>
    exact congrArg (fun c => Except.ok (c, (s.putSelector ctx _ _).unspaced)) ctx.tick_unspaced.symm
  | dropSelector name =>
    refine congrArg Except.ok (Prod.ext ?_ (s.deleteSelector_unspaced ctx _))
    exact (ctx.tickIf_unspaced _).symm
  | deleteStyle selector property =>
    refine congrArg Except.ok (Prod.ext rfl ?_)
    exact congrArg (fun index => { s with buckets := index })
      (s.buckets.delete_unspaced _ _ _).symm
  | dropStyle selector =>
    refine congrArg Except.ok (Prod.ext rfl ?_)
    exact congrArg (fun index => { s with buckets := index }) (s.buckets.drop_unspaced _ _).symm
  | createStartingStyle selector ds =>
    have hmention := mentions_unspaced [selector] ctx s
    simp only [List.foldl_cons, List.foldl_nil] at hmention
    simp only [step, hmention]
    rfl
  | _ => rfl

/-- A file without its spacing statements does to a cascade without modes what the file does to the
cascade. -/
theorem build_unspaced (stmts : List Statement) (ctx : Context) (s : Cascade) :
    build ctx.unspaced s.unspaced (stmts.filter (!·.setsSpacing)) =
      (build ctx s stmts).map unspaced := by
  induction stmts generalizing ctx s with
  | nil => rfl
  | cons stmt stmts ih =>
    cases hset : stmt.setsSpacing with
    | true =>
      -- The statement changes nothing but the mode in force.
      obtain ⟨mode, rfl⟩ : ∃ mode, stmt = .setSpacing mode := by
        cases stmt <;> simp_all [Statement.setsSpacing]
      rw [List.filter_cons_of_neg (by simp [hset])]
      exact ih { ctx with spacingMode := some mode } s
    | false =>
      rw [List.filter_cons_of_pos (by simp [hset])]
      have hunspaced := step_unspaced ctx s hset
      cases hstep : step ctx s stmt with
      | error e =>
        rw [hstep] at hunspaced
        simp only [build, run, hunspaced, hstep]
        rfl
      | ok r =>
        rw [hstep] at hunspaced
        rw [build_cons_of_step hunspaced, build_cons_of_step hstep]
        exact ih r.1 r.2

end Cascade

/-! ## 3. Style sheets under a forced mode -/

/-- A spacing mode that is not empty is forced. -/
def CompilerConfig.IsForced (config : CompilerConfig) : Prop :=
  ∃ mode, config.forcedSpacing = some mode ∧ mode ≠ ""

/-- A forced mode is in force whatever was recorded. -/
theorem CompilerConfig.IsForced.spacingFor_eq {config : CompilerConfig} (h : config.IsForced)
    (recorded recorded' : Json) : config.spacingFor recorded = config.spacingFor recorded' := by
  obtain ⟨mode, hmode, hne⟩ := h
  have htrue : (Json.text mode).isTrue = true := by simp [Json.isTrue, hne]
  simp [CompilerConfig.spacingFor, hmode, Json.textOrNull, Json.orElse, htrue]

namespace Sheet

variable {config : CompilerConfig}

theorem fullBuckets_unspaced (s : Cascade) :
    fullBuckets s.unspaced = (fullBuckets s).map fun e => (e.1, e.2.unspaced) := by
  simp only [fullBuckets, Cascade.unspaced, BucketIndex.unspaced, Table.map, List.filter_map]
  congr 1
  exact List.filter_congr fun e _ => by simp [Bucket.unspaced]

theorem rulesOf_unspaced (h : config.IsForced) (s : Cascade) :
    rulesOf s.unspaced config = rulesOf s config := by
  have hrule : ∀ (k : BucketKey) (b : Bucket),
      ruleOf s.unspaced config k b.unspaced = ruleOf s config k b := by
    intro k b
    have hspacing : ∀ p : StyleProperty,
        config.spacingFor p.unspaced.spacingMode = config.spacingFor p.spacingMode :=
      fun p => h.spacingFor_eq _ _
    simp only [ruleOf, Bucket.unspaced, Table.map, List.map_map, Function.comp_def, hspacing]
    rfl
  simp only [rulesOf, fullBuckets_unspaced, List.map_map, Function.comp_def, hrule]

/-- Under a forced mode the recorded ones do not show in a sheet. -/
theorem ofCascade_unspaced (h : config.IsForced) (s : Cascade) :
    ofCascade s.unspaced config = ofCascade s config := by
  have hlayers : layerOrderOf s.unspaced config = layerOrderOf s config := by
    simp only [layerOrderOf, Cascade.unspaced, BucketIndex.unspaced, Table.keys_map]
  simp only [ofCascade, rulesOf_unspaced h, hlayers]
  rfl

/-- Under a forced mode no recorded one has to be a text. -/
theorem checkCascade_unspaced (h : config.IsForced) (s : Cascade) :
    checkCascade s.unspaced config = checkCascade s config := by
  have hstyle : ∀ name (p : StyleProperty),
      checkStyle config name p.unspaced = checkStyle config name p := by
    intro name p
    simp only [checkStyle, h.spacingFor_eq p.unspaced.spacingMode p.spacingMode]
    rfl
  have hbucket : ∀ (k : BucketKey) (b : Bucket),
      checkBucket s.unspaced config k b.unspaced = checkBucket s config k b := by
    intro k b
    have hproperties : (b.unspaced.properties.entries.forM fun e => checkStyle config e.1 e.2) =
        b.properties.entries.forM fun e => checkStyle config e.1 e.2 := by
      simp [Bucket.unspaced, Table.map, hstyle]
    simp only [checkBucket]
    rw [hproperties]
    rfl
  have hbuckets : ((fullBuckets s.unspaced).forM fun e => checkBucket s.unspaced config e.1 e.2) =
      (fullBuckets s).forM fun e => checkBucket s config e.1 e.2 := by
    simp [fullBuckets_unspaced, hbucket]
  simp only [checkCascade, hbuckets]
  rfl

end Sheet

/-- Under a forced mode a cascade has the style sheet that it has without its modes. -/
theorem Cascade.compile_unspaced {config : CompilerConfig} (h : config.IsForced) (s : Cascade) :
    s.unspaced.compile config = s.compile config := by
  simp only [Cascade.compile, Sheet.plan, Sheet.checkCascade_unspaced h, Sheet.ofCascade_unspaced h]

end StyleLedger
