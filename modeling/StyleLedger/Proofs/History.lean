import StyleLedger.History
import StyleLedger.Proofs.Cascade.Coherent
import StyleLedger.Proofs.Trace.Basic
import StyleLedger.Proofs.Value

/-!
The history of writes follows the cascade.

A history and a cascade read the same statements, each in its own way: a history spells properties
with hyphens and files them under the writes themselves, a cascade spells them with underscores and
numbers them; a deletion takes a property out of one bucket of a selector, and out of the history
for all of its buckets. The route:

* Statements are cut into *style actions*, one bucket and one declaration at a time. Both readings
  of a file are the actions of the file, one after another (`History.follow_eq`,
  `Cascade.run_eq`), so the points at which the two can be compared are those between actions.
* An action changes what is held and what is tracked in the same way, except for a deletion, which
  leaves at least what the history leaves. So a history tracks nothing that is not held, and
  everything that is held until something is deleted (`Mirrors.act`).
* A write is reported when it meets a tracked write, which is then held: no alarm is false, and none
  is missing while everything is tracked (`Mirrors.report_act`).

Names and keys are compared by what they are found under.
-/

namespace StyleLedger

open Keyed (key)

open Value (canonicalName cssName)

/-! ## 1. Actions -/

/-- What a style statement does to one bucket with one declaration, or to the buckets of a
selector. -/
inductive StyleAction
  | write (file : String) (ctx : Context) (mode : WriteMode) (k : BucketKey) (d : Declaration)
  | touch (k : BucketKey)
  | delete (selector : String) (layer property : Option String)
  | drop (selector : String) (layer : Option String)

namespace StyleAction

/-- Whether an action deletes properties. -/
def Deletes : StyleAction → Prop
  | .delete .. => True
  | _ => False

/-- The call that an action is to an index of buckets. -/
def call (index : BucketIndex) : StyleAction → BucketCall
  | .write _ ctx .add k d =>
    .add k (.text (canonicalName d.name)) (Cascade.newProperty index ctx d)
  | .write _ ctx .set k d =>
    .set k (.text (canonicalName d.name)) (Cascade.newProperty index ctx d)
  | .touch k => .touch k
  | .delete selector layer property =>
    .delete (.text selector) (.textOrNull layer) (property.map fun p => .text (canonicalName p))
  | .drop selector layer => .drop (.text selector) (.textOrNull layer)

end StyleAction

/-- The index after an action. -/
def BucketIndex.act (index : BucketIndex) (a : StyleAction) : BucketIndex :=
  index.call (a.call index)

/-- The write that a history takes note of. -/
def StyleWrite.ofDeclaration (file : String) (mode : WriteMode) (k : BucketKey) (d : Declaration) :
    StyleWrite :=
  { file, key := k, property := cssName d.name, additive := mode = .add }

/-- The history after an action. -/
def History.act (h : History) : StyleAction → History
  | .write file _ mode k d => h.write (.ofDeclaration file mode k d)
  | .touch _ => h
  | .delete selector layer property => h.forget selector layer (property.map cssName)
  | .drop selector layer => h.forget selector layer none

/-- The actions of a style that is written under a context. -/
def StyleTarget.actions (file : String) (ctx : Context) (target : StyleTarget) (mode : WriteMode)
    (ds : List Declaration) : Except CompositionError (List StyleAction) := do
  let descriptors ← Descriptor.ofCondition target.condition
  return (Cascade.keysOf ctx.activeLayer target descriptors).flatMap fun k =>
    if ds.isEmpty then [.touch k] else ds.map (.write file ctx mode k)

/-- The actions of a statement under a context. -/
def Statement.actions (file : String) (ctx : Context) :
    Statement → Except CompositionError (List StyleAction)
  | .createStyle target ds => target.actions file ctx .set ds
  | .alterStyle target mode ds => target.actions file ctx mode ds
  | .deleteStyle selector property => .ok [.delete selector ctx.activeLayer property]
  | .dropStyle selector => .ok [.drop selector ctx.activeLayer]
  | _ => .ok []

namespace Context

/-- A context without its clock. Nothing that a style statement writes shows the time. -/
def timeless (ctx : Context) : Context :=
  { ctx with now := "", later := [] }

/-- The context after a statement, the clock aside. -/
def after (ctx : Context) : Statement → Context
  | .setLayer name => { ctx with activeLayer := some name }
  | .setSpacing mode => { ctx with spacingMode := some mode }
  | _ => ctx

@[simp] theorem timeless_tick (ctx : Context) : ctx.tick.timeless = ctx.timeless := by
  unfold tick
  split
  · rfl
  · rfl

@[simp] theorem timeless_tickIf (ctx : Context) (read : Bool) :
    (ctx.tickIf read).timeless = ctx.timeless := by
  cases read with
  | false => rfl
  | true => exact timeless_tick ctx

end Context

/-- The actions of some statements under a context, up to the statement that is refused, if there
is one. -/
def actionsOf (file : String) (ctx : Context) :
    List Statement → List StyleAction × Option CompositionError
  | [] => ([], none)
  | stmt :: rest =>
    match stmt.actions file ctx with
    | .ok actions =>
      let (more, refusal) := actionsOf file (ctx.after stmt) rest
      (actions ++ more, refusal)
    | .error e => ([], some e)

/-! ## 2. Both readings are the actions -/

namespace Cascade

theorem writeOne_eq_act (file : String) (ctx : Context) (mode : WriteMode) (k : BucketKey)
    (index : BucketIndex) (d : Declaration) :
    writeOne ctx mode k index d = index.act (.write file ctx.timeless mode k d) := by
  cases mode with
  | add => rfl
  | set => rfl

theorem writeAll_eq_act (file : String) (ctx : Context) (mode : WriteMode) (ds : List Declaration)
    (index : BucketIndex) (k : BucketKey) :
    writeAll ctx mode ds index k =
      (if ds.isEmpty then [.touch k] else ds.map (.write file ctx.timeless mode k)).foldl
        BucketIndex.act index := by
  unfold writeAll
  split
  · rfl
  · rw [List.foldl_map]
    congr 1
    funext index d
    exact writeOne_eq_act file ctx mode k index d

theorem mentions_buckets (names : List String) (p : Context × Cascade) :
    (names.foldl mention p).2.buckets = p.2.buckets := by
  rw [mentions_eq]

theorem mentions_timeless (names : List String) (p : Context × Cascade) :
    (names.foldl mention p).1.timeless = p.1.timeless := by
  induction names generalizing p with
  | nil => rfl
  | cons name names ih =>
    rw [List.foldl_cons, ih]
    exact Context.timeless_tickIf p.1 _

/-- A statement and its actions under a context: it is applied and has done the actions, or it is
refused and there are none. -/
inductive Acts (file : String) (ctx : Context) (s : Cascade) (stmt : Statement) : Prop
  | applied {next : Context} {t : Cascade} {actions : List StyleAction}
      (hstep : step ctx s stmt = .ok (next, t))
      (hactions : stmt.actions file ctx.timeless = .ok actions)
      (hbuckets : t.buckets = actions.foldl BucketIndex.act s.buckets)
      (hnext : next.timeless = ctx.timeless.after stmt)
  | refused {e : CompositionError} (hstep : step ctx s stmt = .error e)
      (hactions : stmt.actions file ctx.timeless = .error e)

/-- A style that is written. -/
theorem acts_of_writeStyle {file : String} {ctx : Context} {s : Cascade} {stmt : Statement}
    {target : StyleTarget} {mode : WriteMode} {ds : List Declaration}
    (hstep : step ctx s stmt = s.writeStyle ctx target mode ds)
    (hactions : stmt.actions file ctx.timeless = target.actions file ctx.timeless mode ds)
    (hafter : ctx.timeless.after stmt = ctx.timeless) : Acts file ctx s stmt := by
  rw [writeStyle] at hstep
  rw [StyleTarget.actions] at hactions
  cases hds : Descriptor.ofCondition target.condition with
  | error e =>
    rw [hds] at hstep hactions
    exact .refused hstep hactions
  | ok descriptors =>
    rw [hds] at hstep hactions
    refine .applied hstep hactions ?_ ?_
    · have hwrite : writeAll ctx mode ds = fun index k =>
          (if ds.isEmpty then [.touch k] else ds.map (.write file ctx.timeless mode k)).foldl
            BucketIndex.act index :=
        funext fun index => funext fun k => writeAll_eq_act file ctx mode ds index k
      rw [List.foldl_flatMap, mentions_buckets, hwrite]
      rfl
    · rw [mentions_timeless, hafter]

theorem acts (file : String) (ctx : Context) (s : Cascade) (stmt : Statement) :
    Acts file ctx s stmt := by
  cases stmt with
  | createStyle target ds => exact acts_of_writeStyle rfl rfl rfl
  | alterStyle target mode ds => exact acts_of_writeStyle rfl rfl rfl
  | createToken name value => exact .applied rfl rfl rfl ctx.timeless_tick
  | dropToken name =>
    exact .applied rfl rfl (by rw [deleteToken_eq]; rfl) (ctx.timeless_tickIf _)
  | deleteToken name =>
    exact .applied rfl rfl (by rw [deleteToken_eq]; rfl) (ctx.timeless_tickIf _)
  | createSelector name definition => exact .applied rfl rfl rfl ctx.timeless_tick
  | dropSelector name =>
    exact .applied rfl rfl (by rw [deleteSelector_eq]; rfl) (ctx.timeless_tickIf _)
  | createStartingStyle selector ds =>
    exact .applied rfl rfl (mentions_buckets [selector] (ctx, s))
      (mentions_timeless [selector] (ctx, s))
  | _ => exact .applied rfl rfl rfl rfl

/-- The buckets after some statements are the buckets after their actions, and the statement that is
refused is the one whose actions are. -/
theorem run_eq (file : String) (ctx : Context) (s : Cascade) (stmts : List Statement) :
    (run ctx s stmts).state.buckets =
        (actionsOf file ctx.timeless stmts).1.foldl BucketIndex.act s.buckets ∧
      (run ctx s stmts).refusal = (actionsOf file ctx.timeless stmts).2 := by
  induction stmts generalizing ctx s with
  | nil => exact ⟨rfl, rfl⟩
  | cons stmt stmts ih =>
    cases acts file ctx s stmt with
    | applied hstep hactions hbuckets hnext =>
      rw [run, actionsOf, hstep, hactions, ← hnext]
      refine ⟨?_, (ih _ _).2⟩
      rw [List.foldl_append, ← hbuckets]
      exact (ih _ _).1
    | refused hstep hactions =>
      rw [run, actionsOf, hstep, hactions]
      exact ⟨rfl, rfl⟩

end Cascade

namespace History

/-- The writes of a style are its actions. -/
theorem writesOf_eq (file : String) (ctx : Context) (h : History) (target : StyleTarget)
    (mode : WriteMode) (ds : List Declaration) :
    (writesOf file ctx.activeLayer target (mode = .add) ds >>= fun writes =>
        pure (ctx.activeLayer, writes.foldl write h)) =
      (target.actions file ctx mode ds).map fun actions =>
        (ctx.activeLayer, actions.foldl act h) := by
  rw [writesOf, StyleTarget.actions]
  cases Descriptor.ofCondition target.condition with
  | error e => rfl
  | ok descriptors =>
    refine congrArg (fun h => Except.ok (ctx.activeLayer, h)) ?_
    rw [Cascade.keysOf, List.flatMap_map, List.foldl_flatMap, List.foldl_flatMap]
    congr 1
    funext h descriptor
    -- A bucket that is only touched leaves no write.
    cases ds with
    | nil => rfl
    | cons d ds =>
      rw [List.foldl_map, if_neg (by simp), List.foldl_map]
      rfl

/-- A statement moves a history as its actions do, and the layer as the context. -/
theorem step_eq (file : String) (ctx : Context) (h : History) (stmt : Statement) :
    step file ctx.activeLayer h stmt =
      (stmt.actions file ctx).map fun actions =>
        ((ctx.after stmt).activeLayer, actions.foldl act h) := by
  cases stmt with
  | createStyle target ds => exact writesOf_eq file ctx h target .set ds
  | alterStyle target mode ds => exact writesOf_eq file ctx h target mode ds
  | _ => rfl

/-- The history after some statements is the history after their actions, and the statement that is
refused is the one whose actions are. -/
theorem follow_eq (file : String) (ctx : Context) (h : History) (stmts : List Statement) :
    follow file ctx.activeLayer h stmts =
      ((actionsOf file ctx stmts).1.foldl act h, (actionsOf file ctx stmts).2) := by
  induction stmts generalizing ctx h with
  | nil => rfl
  | cons stmt stmts ih =>
    rw [follow, actionsOf, step_eq]
    cases stmt.actions file ctx with
    | error e => rfl
    | ok actions =>
      simp only [Except.map]
      rw [ih, List.foldl_append]

end History

/-! ## 3. What is held and what is tracked -/

/-- A bucket holds a property. -/
def BucketIndex.Holds (index : BucketIndex) (k : BucketKey) (n : Json) : Prop :=
  (index.property? k n).isSome

/-- A history tracks a property of a bucket: a write of it is live. -/
def History.Tracks (h : History) (k : BucketKey) (n : Json) : Prop :=
  ∃ e ∈ h.live.keys, key e.1 = key k ∧ key n = key (Json.text (canonicalName e.2))

/-- A property of a bucket is among the properties of a selector under a layer: those of one name,
or all of them. -/
def IsAmong (selector : String) (layer property : Option String) (k : BucketKey) (n : Json) :
    Prop :=
  k.isFor (.text selector) (.textOrNull layer) ∧
    ∀ p ∈ property, key (Json.text (canonicalName p)) = key n

namespace BucketIndex

variable {index : BucketIndex} {k : BucketKey} {n : Json}

theorem holds_putTouched (k l : BucketKey) (m n : Json) (p : StyleProperty) :
    (index.putTouched k ((index.propertiesOf k).put m p)).Holds l n ↔
      key l = key k ∧ key n = key m ∨ index.Holds l n := by
  rw [Holds, property?_write]
  split
  · next hkey => simp [hkey]
  · next hkey => simp [hkey, Holds]

/-- A write puts its property into its bucket and leaves the others. -/
theorem holds_write (file : String) (ctx : Context) (mode : WriteMode) (l : BucketKey)
    (d : Declaration) : (index.act (.write file ctx mode l d)).Holds k n ↔
      key k = key l ∧ key n = key (Json.text (canonicalName d.name)) ∨ index.Holds k n := by
  cases mode with
  | add =>
    rw [act, StyleAction.call, call, add_eq]
    exact holds_putTouched l k _ n _
  | set =>
    rw [act, StyleAction.call, call, set_eq]
    exact holds_putTouched l k _ n _

theorem holds_touch (l : BucketKey) : (index.act (.touch l)).Holds k n ↔ index.Holds k n := by
  rw [act, StyleAction.call, call]
  cases hl : index.get? l with
  | none => rw [touch_of_eq_none hl]
  | some b =>
    rw [touch_of_isSome (by simp [hl]), Holds, property?, propertiesOf_putTouched]
    split
    · next hkey => rw [← propertiesOf_congr hkey, Holds, property?]
    · rfl

theorem holds_drop (selector : String) (layer : Option String) :
    (index.act (.drop selector layer)).Holds k n ↔
      ¬IsAmong selector layer none k n ∧ index.Holds k n := by
  rw [act, StyleAction.call, call, Holds, property?, propertiesOf_drop]
  split
  · next hfor => simp [IsAmong, hfor, Table.get?, Table.lookup]
  · next hfor => simp [IsAmong, hfor, Holds, property?]

/-- A deletion leaves what it is not about, and adds nothing. -/
theorem holds_delete (h : index.IsProper) (selector : String) (layer property : Option String) :
    ((index.act (.delete selector layer property)).Holds k n → index.Holds k n) ∧
      (¬IsAmong selector layer property k n → index.Holds k n →
        (index.act (.delete selector layer property)).Holds k n) := by
  rw [act, StyleAction.call, call]
  cases he : index.mostRecent? (.text selector) (.textOrNull layer) with
  | none =>
    rw [delete_of_eq_none he]
    exact ⟨id, fun _ => id⟩
  | some e =>
    rw [h.delete_eq he, Holds, h.property?_alter]
    split
    · next hkey =>
      obtain ⟨hkey, hname⟩ := hkey
      refine ⟨fun hnone => by simp at hnone, fun hkeep => absurd ⟨?_, ?_⟩ hkeep⟩
      · rw [BucketKey.isFor_congr hkey]
        exact (mostRecent?_eq_some he).2.1
      · intro p hp
        exact hname _ (by simpa using ⟨p, hp, rfl⟩)
    · exact ⟨id, fun _ => id⟩

end BucketIndex

namespace History

variable {h : History} {k : BucketKey} {n : Json}

/-- Every write is filed once, under what it writes. -/
structure IsFiled (h : History) : Prop where
  distinct : h.live.IsDistinct
  filed : ∀ e ∈ h.live.entries, key e.2.key = key e.1.1 ∧ e.2.property = e.1.2 ∧
    cssName e.1.2 = e.1.2

theorem isFiled_empty : IsFiled {} :=
  ⟨Table.IsDistinct.empty, fun _ he => absurd he List.not_mem_nil⟩

theorem tracks_iff : h.Tracks k n ↔
    ∃ p, (h.live.get? (k, p)).isSome ∧ key n = key (Json.text (canonicalName p)) := by
  constructor
  · rintro ⟨e, he, hk, hn⟩
    obtain ⟨d, hd, rfl⟩ := List.mem_map.1 he
    exact ⟨d.1.2, Table.isSome_get?_iff.2 ⟨d, hd, Prod.ext hk rfl⟩, hn⟩
  · rintro ⟨p, hp, hn⟩
    obtain ⟨d, hd, hkey⟩ := Table.isSome_get?_iff.1 hp
    obtain ⟨hk, hname⟩ := Prod.ext_iff.1 hkey
    obtain rfl : d.1.2 = p := hname
    exact ⟨d.1, Table.mem_keys_of_mem hd, hk, hn⟩

/-- What a history tracks once a write was filed. -/
theorem tracks_put (w : StyleWrite) : ({ h with live := h.live.put (w.key, w.property) w } :
      History).Tracks k n ↔
    key k = key w.key ∧ key n = key (Json.text (canonicalName w.property)) ∨ h.Tracks k n := by
  simp only [tracks_iff, Table.get?_put]
  constructor
  · rintro ⟨p, hp, hn⟩
    split at hp
    · next hkey =>
      obtain ⟨hk, hname⟩ := Prod.ext_iff.1 hkey
      obtain rfl : p = w.property := hname
      exact .inl ⟨hk, hn⟩
    · exact .inr ⟨p, hp, hn⟩
  · rintro (⟨hk, hn⟩ | ⟨p, hp, hn⟩)
    · refine ⟨w.property, ?_, hn⟩
      have hkey : key (k, w.property) = key (w.key, w.property) := Prod.ext hk rfl
      rw [if_pos hkey]
      rfl
    · refine ⟨p, ?_, hn⟩
      split
      · rfl
      · exact hp

namespace IsFiled

theorem put (hf : h.IsFiled) {w : StyleWrite} (hw : cssName w.property = w.property) :
    IsFiled { h with live := h.live.put (w.key, w.property) w } := by
  refine ⟨hf.distinct.put _ _, fun e he => ?_⟩
  rcases hf.distinct.mem_put he with ⟨hkey, hv⟩ | ⟨he, -⟩
  · obtain ⟨hk, hname⟩ := Prod.ext_iff.1 hkey
    obtain hname : e.1.2 = w.property := hname
    rw [hv, hname]
    exact ⟨hk.symm, rfl, hw⟩
  · exact hf.filed e he

theorem forget (hf : h.IsFiled) (selector : String) (layer property : Option String) :
    (h.forget selector layer property).IsFiled :=
  ⟨hf.distinct.of_sublist List.filter_sublist, fun e he => hf.filed e (List.mem_of_mem_filter he)⟩

/-- A write that is live is found in its place. -/
theorem eq_of_get? (hf : h.IsFiled) {p : String} {w : StyleWrite}
    (hw : h.live.get? (k, p) = some w) : key w.key = key k ∧ w.property = p := by
  obtain ⟨e, hkey, he⟩ := Table.lookup_mem hw
  obtain ⟨hk, hname⟩ := Prod.ext_iff.1 hkey
  obtain rfl : e.2 = p := hname
  obtain ⟨hwkey, hproperty, -⟩ := hf.filed _ he
  exact ⟨hwkey.trans hk, hproperty⟩

/-- A property is tracked when a write is filed under its spelling in a style sheet. -/
theorem tracks_text_iff (hf : h.IsFiled) (name : String) :
    h.Tracks k (.text (canonicalName name)) ↔ (h.live.get? (k, cssName name)).isSome := by
  rw [tracks_iff]
  constructor
  · rintro ⟨p, hp, hn⟩
    obtain ⟨d, hd, hkey⟩ := Table.isSome_get?_iff.1 hp
    obtain rfl : d.1.2 = p := (Prod.ext_iff.1 hkey).2
    have hcanonical : canonicalName name = canonicalName d.1.2 := by
      simpa [Json.key_text] using hn
    rw [← (hf.filed d hd).2.2, ← Value.canonicalName_eq_iff.1 hcanonical] at hp
    exact hp
  · intro hsome
    exact ⟨cssName name, hsome, by rw [Value.canonicalName_cssName]⟩

/-- A write is filed in its place, also if it gives way to the one that is there. -/
theorem write (hf : h.IsFiled) {w : StyleWrite} (hw : cssName w.property = w.property) :
    (h.write w).IsFiled := by
  unfold History.write
  split
  · exact hf.put hw
  · split
    · exact ⟨hf.distinct, hf.filed⟩
    · exact ⟨(hf.put hw).distinct, (hf.put hw).filed⟩

theorem act (hf : h.IsFiled) (a : StyleAction) : (h.act a).IsFiled := by
  cases a with
  | write file ctx mode l d => exact hf.write (Value.cssName_cssName d.name)
  | touch l => exact hf
  | delete selector layer property => exact hf.forget _ _ _
  | drop selector layer => exact hf.forget _ _ _

end IsFiled

/-- A write is tracked from then on, and what was tracked stays so. -/
theorem tracks_write (file : String) (ctx : Context) (mode : WriteMode) (l : BucketKey)
    (d : Declaration) : (h.act (.write file ctx mode l d)).Tracks k n ↔
      key k = key l ∧ key n = key (Json.text (canonicalName d.name)) ∨ h.Tracks k n := by
  have hput := tracks_put (h := h) (k := k) (n := n) (.ofDeclaration file mode l d)
  simp only [StyleWrite.ofDeclaration, Value.canonicalName_cssName] at hput
  rw [act, write]
  split
  · exact hput
  · next previous hprevious =>
    split
    · -- The write that gives way is of a property that is tracked.
      refine (or_iff_right_of_imp fun hw => ?_).symm
      rw [tracks_iff]
      refine ⟨cssName d.name, ?_, by rw [hw.2, Value.canonicalName_cssName]⟩
      have hkey : key (k, cssName d.name) = key (l, cssName d.name) := Prod.ext hw.1 rfl
      rw [Table.get?_congr hkey]
      exact Option.isSome_of_eq_some hprevious
    · exact hput

/-- A live write is kept unless the property that it is filed under is forgotten. -/
theorem IsFiled.keeps_iff (hf : h.IsFiled) {e : (BucketKey × String) × StyleWrite}
    (he : e ∈ h.live.entries) (hk : key e.1.1 = key k)
    (hn : key n = key (Json.text (canonicalName e.1.2))) (selector : String)
    (layer property : Option String) :
    (!(e.2.key.isFor (.text selector) (.textOrNull layer) &&
        (property.map cssName).all (· = e.2.property))) = true ↔
      ¬IsAmong selector layer property k n := by
  obtain ⟨hkey, hproperty, hspelled⟩ := hf.filed e he
  have hname (p : String) :
      cssName p = e.1.2 ↔ key (Json.text (canonicalName p)) = key n := by
    rw [hn, Json.key_text, Json.key_text, Json.text.injEq, Value.canonicalName_eq_iff, hspelled]
  rw [Bool.not_eq_true', Bool.eq_false_iff, Ne, Bool.and_eq_true,
    BucketKey.isFor_congr (hkey.trans hk), hproperty]
  cases property with
  | none => simp [IsAmong]
  | some p => simp [IsAmong, hname]

/-- What is forgotten is no longer tracked, and nothing else is lost. -/
theorem IsFiled.tracks_forget (hf : h.IsFiled) (selector : String)
    (layer property : Option String) :
    (h.forget selector layer (property.map cssName)).Tracks k n ↔
      ¬IsAmong selector layer property k n ∧ h.Tracks k n := by
  constructor
  · rintro ⟨x, hx, hk, hn⟩
    obtain ⟨e, he, rfl⟩ := List.mem_map.1 hx
    obtain ⟨he, hkeep⟩ := List.mem_filter.1 he
    exact ⟨(hf.keeps_iff he hk hn selector layer property).1 hkeep, e.1,
      Table.mem_keys_of_mem he, hk, hn⟩
  · rintro ⟨hkeep, x, hx, hk, hn⟩
    obtain ⟨e, he, rfl⟩ := List.mem_map.1 hx
    have hkept := (hf.keeps_iff he hk hn selector layer property).2 hkeep
    exact ⟨e.1, Table.mem_keys_of_mem (List.mem_filter.2 ⟨he, hkept⟩), hk, hn⟩

theorem IsFiled.tracks_drop (hf : h.IsFiled) (selector : String) (layer : Option String) :
    (h.act (.drop selector layer)).Tracks k n ↔
      ¬IsAmong selector layer none k n ∧ h.Tracks k n :=
  hf.tracks_forget selector layer none

end History

/-! ## 4. The simulation -/

/-- A history goes with an index: it tracks nothing that the index does not hold. If it is exact, it
tracks all that the index holds. -/
structure Mirrors (exact : Prop) (h : History) (index : BucketIndex) : Prop where
  filed : h.IsFiled
  proper : index.IsProper
  holds : ∀ k n, h.Tracks k n → index.Holds k n
  tracks : exact → ∀ k n, index.Holds k n → h.Tracks k n

namespace Mirrors

variable {exact : Prop} {h : History} {index : BucketIndex}

theorem empty : Mirrors exact {} {} where
  filed := History.isFiled_empty
  proper := BucketIndex.IsProper.empty
  holds := by
    rintro k n ⟨e, he, -⟩
    exact absurd he List.not_mem_nil
  tracks := by
    intro _ k n hold
    simp [BucketIndex.Holds, BucketIndex.property?_empty] at hold

/-- An action takes both along. A deletion takes more from the history than from the index, so that
it is exact no longer. -/
theorem act (hm : Mirrors exact h index) (a : StyleAction) :
    Mirrors (exact ∧ ¬a.Deletes) (h.act a) (index.act a) := by
  refine ⟨hm.filed.act a, hm.proper.call _, fun k n => ?_, fun hexact k n => ?_⟩
  · cases a with
    | write file ctx mode l d =>
      rw [History.tracks_write, BucketIndex.holds_write]
      exact Or.imp_right (hm.holds k n)
    | touch l =>
      rw [BucketIndex.holds_touch]
      exact hm.holds k n
    | delete selector layer property =>
      rw [History.act, hm.filed.tracks_forget]
      rintro ⟨hkeep, htracks⟩
      exact (BucketIndex.holds_delete hm.proper selector layer property).2 hkeep
        (hm.holds k n htracks)
    | drop selector layer =>
      rw [hm.filed.tracks_drop, BucketIndex.holds_drop]
      exact And.imp_right (hm.holds k n)
  · cases a with
    | write file ctx mode l d =>
      rw [History.tracks_write, BucketIndex.holds_write]
      exact Or.imp_right (hm.tracks hexact.1 k n)
    | touch l =>
      rw [BucketIndex.holds_touch]
      exact hm.tracks hexact.1 k n
    | delete selector layer property => exact absurd trivial hexact.2
    | drop selector layer =>
      rw [hm.filed.tracks_drop, BucketIndex.holds_drop]
      exact And.imp_right (hm.tracks hexact.1 k n)

end Mirrors

/-- The index after some actions. -/
def BucketIndex.ofActions (actions : List StyleAction) : BucketIndex :=
  actions.foldl act {}

/-- The history after some actions. -/
def History.ofActions (actions : List StyleAction) : History :=
  actions.foldl act {}

theorem mirrors_ofActions (actions : List StyleAction) :
    Mirrors (∀ a ∈ actions, ¬a.Deletes) (History.ofActions actions)
      (BucketIndex.ofActions actions) := by
  induction actions using List.reverseRecOn with
  | nil => exact Mirrors.empty
  | append_singleton actions a ih =>
    obtain ⟨hfiled, hproper, hholds, htracks⟩ := ih.act a
    rw [History.ofActions, BucketIndex.ofActions, List.foldl_append, List.foldl_append]
    refine ⟨hfiled, hproper, hholds, fun hexact => htracks ⟨fun b hb => ?_, ?_⟩⟩
    · exact hexact b (List.mem_append_left [a] hb)
    · exact hexact a (List.mem_append_right actions List.mem_cons_self)

/-! ## 5. Reports -/

/-- An action meets a property that its bucket holds: it adds a property and is told that this was
not added, or it sets a property over another one. -/
def StyleAction.Meets (index : BucketIndex) : StyleAction → Prop
  | .write _ ctx .add k d =>
    (index.add k (.text (canonicalName d.name)) (Cascade.newProperty index ctx d)).2 = false
  | .write _ _ .set k d => index.Holds k (.text (canonicalName d.name))
  | _ => False

/-- What an action can have reported: nothing; an addition, that it was ignored when it was; and a
write, that one of the same property was overridden when it was. -/
inductive Reports (index : BucketIndex) : StyleAction → List Finding → Prop
  | nothing (a : StyleAction) : Reports index a []
  | ignored {file : String} {ctx : Context} {k : BucketKey} {d : Declaration}
      (hmeets : (StyleAction.write file ctx .add k d).Meets index) :
      Reports index (.write file ctx .add k d)
        [History.finding "Ignored ADD" (.ofDeclaration file .add k d)
          "Use SET to replace an existing value"]
  | overridden {file : String} {ctx : Context} {k : BucketKey} {d : Declaration}
      {previous : StyleWrite} (hkey : key previous.key = key k)
      (hproperty : previous.property = cssName d.name)
      (hmeets : (StyleAction.write file ctx .set k d).Meets index) :
      Reports index (.write file ctx .set k d)
        [History.finding "Overridden write" previous ("Later written again in " ++ file)]

/-- An addition is told whether the property was held. -/
theorem BucketIndex.add_eq_false_iff {index : BucketIndex} (k : BucketKey) (n : Json)
    (p : StyleProperty) : (index.add k n p).2 = false ↔ index.Holds k n := by
  rw [Holds, property?, add]
  split
  · next hcontains => exact iff_of_true rfl hcontains
  · next hcontains => exact iff_of_false Bool.noConfusion hcontains

theorem StyleAction.meets_write_iff {index : BucketIndex} (file : String) (ctx : Context)
    (mode : WriteMode) (k : BucketKey) (d : Declaration) :
    (StyleAction.write file ctx mode k d).Meets index ↔
      index.Holds k (.text (canonicalName d.name)) := by
  cases mode with
  | add => exact BucketIndex.add_eq_false_iff _ _ _
  | set => exact Iff.rfl

/-- An action adds its report to the findings. It reports nothing that has not happened, and while
the history is exact, it reports all that has. -/
theorem Mirrors.report_act {exact : Prop} {h : History} {index : BucketIndex}
    (hm : Mirrors exact h index) (a : StyleAction) :
    ∃ report, (h.act a).findings = h.findings ++ report ∧ Reports index a report ∧
      (exact → a.Meets index → report ≠ []) := by
  cases a with
  | touch k => exact ⟨[], (List.append_nil _).symm, .nothing _, fun _ hmeets => hmeets.elim⟩
  | delete selector layer property =>
    exact ⟨[], (List.append_nil _).symm, .nothing _, fun _ hmeets => hmeets.elim⟩
  | drop selector layer =>
    exact ⟨[], (List.append_nil _).symm, .nothing _, fun _ hmeets => hmeets.elim⟩
  | write file ctx mode k d =>
    have htracks := hm.filed.tracks_text_iff (k := k) d.name
    rw [StyleAction.meets_write_iff]
    cases hlive : h.live.get? (k, cssName d.name) with
    | none =>
      refine ⟨[], ?_, .nothing _, fun hexact hold => ?_⟩
      · simp [History.act, History.write, StyleWrite.ofDeclaration, hlive]
      · have := htracks.1 (hm.tracks hexact _ _ hold)
        simp [hlive] at this
    | some previous =>
      obtain ⟨hkey, hproperty⟩ := hm.filed.eq_of_get? hlive
      have hold := hm.holds _ _ (htracks.2 (Option.isSome_of_eq_some hlive))
      have hmeets := (StyleAction.meets_write_iff file ctx mode k d).2 hold
      cases mode with
      | add =>
        refine ⟨_, ?_, .ignored hmeets, fun _ _ => List.cons_ne_nil _ _⟩
        simp [History.act, History.write, StyleWrite.ofDeclaration, hlive]
      | set =>
        refine ⟨_, ?_, .overridden hkey hproperty hmeets, fun _ _ => List.cons_ne_nil _ _⟩
        simp [History.act, History.write, StyleWrite.ofDeclaration, hlive]

/-! ## 6. Files -/

/-- A file that both a history and a cascade are fed. -/
structure FedFile where
  name : String
  occasion : Occasion := {}
  statements : List Statement

/-- The actions of a file, which starts outside any layer. -/
def FedFile.actions (f : FedFile) : List StyleAction :=
  (actionsOf f.name f.occasion.context.timeless f.statements).1

/-- The history of some files. What comes before a statement that is refused stays. -/
def History.ofFiles (files : List FedFile) : History :=
  files.foldl (fun h f => (h.feed f.name f.statements).1) {}

/-- The cascade of some files. -/
def Cascade.ofFiles (files : List FedFile) : Cascade :=
  files.foldl (fun s f => (run f.occasion.context s f.statements).state) {}

theorem History.ofFiles_eq (files : List FedFile) :
    ofFiles files = ofActions (files.flatMap FedFile.actions) := by
  rw [ofFiles, ofActions, List.foldl_flatMap]
  congr 1
  funext h f
  exact congrArg Prod.fst (follow_eq f.name f.occasion.context.timeless h f.statements)

theorem Cascade.ofFiles_buckets (files : List FedFile) :
    (ofFiles files).buckets = BucketIndex.ofActions (files.flatMap FedFile.actions) := by
  induction files using List.reverseRecOn with
  | nil => rfl
  | append_singleton files f ih =>
    rw [ofFiles, BucketIndex.ofActions, List.foldl_append, List.flatMap_append, List.foldl_append]
    rw [ofFiles, BucketIndex.ofActions] at ih
    rw [← ih, List.foldl_cons, List.foldl_nil, List.flatMap_singleton]
    exact (run_eq f.name f.occasion.context _ f.statements).1

/-- A history simulates a cascade that is fed the same files. -/
theorem History.simulates_cascade (files : List FedFile) :
    (History.ofFiles files = History.ofActions (files.flatMap FedFile.actions) ∧
      (Cascade.ofFiles files).buckets = BucketIndex.ofActions (files.flatMap FedFile.actions)) ∧
    (∀ f ∈ files, ∀ (h : History) (s : Cascade), (h.feed f.name f.statements).2 =
      (Cascade.run f.occasion.context s f.statements).refusal) ∧
    ∀ past, past <+: files.flatMap FedFile.actions →
      (∀ k n, (History.ofActions past).Tracks k n → (BucketIndex.ofActions past).Holds k n) ∧
      ((∀ a ∈ past, ¬a.Deletes) →
        ∀ k n, (History.ofActions past).Tracks k n ↔ (BucketIndex.ofActions past).Holds k n) ∧
      ∀ a, past ++ [a] <+: files.flatMap FedFile.actions → ∃ report,
        (History.ofActions (past ++ [a])).findings =
          (History.ofActions past).findings ++ report ∧
        Reports (BucketIndex.ofActions past) a report ∧
        ((∀ b ∈ past, ¬b.Deletes) → a.Meets (BucketIndex.ofActions past) → report ≠ []) := by
  refine ⟨⟨History.ofFiles_eq files, Cascade.ofFiles_buckets files⟩, ?_, fun past _ => ?_⟩
  · intro f _ h s
    rw [(Cascade.run_eq f.name f.occasion.context s f.statements).2]
    exact congrArg Prod.snd (follow_eq f.name f.occasion.context.timeless h f.statements)
  · have hm := mirrors_ofActions past
    refine ⟨hm.holds, fun hexact k n => ⟨hm.holds k n, hm.tracks hexact k n⟩, fun a _ => ?_⟩
    rw [History.ofActions, List.foldl_append]
    exact hm.report_act a

/-- An addition to a property that is there is reported itself, and a write over a property is
reported as the write that it hides. -/
example :
    let wide : Descriptor := { kind := .media, min := .text "600px" }
    let inPage : BucketKey :=
      { selector := .text "card", layer := .text "base", scopeRoot := .text "page"
        scopeLimit := .text "aside", descriptor := some wide }
    let write (file : String) (mode : WriteMode) (value : String) : StyleAction :=
      .write file {} mode inPage { name := "font_size", value := value }
    let report (message fix : String) : Finding :=
      { rule := "check_overridden_writes", severity := .warning, table := some "migrations"
        message := message ++ " (@layer base @media (min-width: 600px) SCOPED TO page LIMIT aside)"
        fix := some fix }
    (History.ofActions [write "1_up.sql" .set "1px", write "2_up.sql" .add "2px",
        write "3_up.sql" .set "3px"]).findings =
      [report "Ignored ADD: card -> font-size in 2_up.sql" "Use SET to replace an existing value",
        report "Overridden write: card -> font-size in 1_up.sql"
          "Later written again in 3_up.sql"] := by
  decide +kernel

/-- Once something is deleted a history can track less than is held: a deletion is forgotten for
every scope, and carried out in the one written last. -/
example :
    let inPage : BucketKey := { selector := .text "card", scopeRoot := .text "page" }
    let actions : List StyleAction :=
      [.write "1_up.sql" {} .set { selector := .text "card" } { name := "color", value := "red" },
        .write "1_up.sql" {} .set inPage { name := "color", value := "red" },
        .delete "card" none none]
    (History.ofActions actions).live.keys = [] ∧
      (BucketIndex.ofActions actions).buckets.keys = [{ selector := .text "card" }] := by
  decide

end StyleLedger
