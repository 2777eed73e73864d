import StyleLedger.Cascade.Timed
import StyleLedger.Proofs.Cascade.Coherent

/-!
Selectors and layers that were named once stay.

A statement may name a selector or a layer for the first time, but none takes a name away: a
selector that is dropped is only marked, and layers are never dropped. So the names of a cascade are
among those of every cascade that statements make of it (`grows_build`).

* `Statement.isAccepted` — whether a statement can be applied; it does not depend on where.
* `Cascade.Grows` — every selector and every layer is still there.
-/

namespace StyleLedger

open Outcome

/-! ## 1. Files, statement by statement -/

/-- Whether the condition of a style that is written has a normal form. -/
def Statement.isAccepted : Statement → Bool
  | .createStyle target _ | .alterStyle target _ _ =>
    (Descriptor.ofCondition target.condition).toOption.isSome
  | _ => true

namespace Cascade

/-- A file whose first statement is accepted goes on from there. -/
theorem build_cons_of_step {ctx next : Context} {s t : Cascade} {stmt : Statement}
    (h : step ctx s stmt = .ok (next, t)) (stmts : List Statement) :
    build ctx s (stmt :: stmts) = build next t stmts := by
  simp only [build, run, h]

theorem exists_of_build_cons {ctx : Context} {s u : Cascade} {stmt : Statement}
    {stmts : List Statement} (h : build ctx s (stmt :: stmts) = .ok u) :
    ∃ next t, step ctx s stmt = .ok (next, t) ∧ build next t stmts = .ok u := by
  cases hstep : step ctx s stmt with
  | error e => simp [build, run, hstep] at h
  | ok r => exact ⟨r.1, r.2, rfl, by rwa [build_cons_of_step hstep] at h⟩

/-- A statement is refused for its condition only, wherever it is applied. -/
theorem exists_step_iff {ctx : Context} {s : Cascade} {stmt : Statement} :
    (∃ r, step ctx s stmt = .ok r) ↔ stmt.isAccepted = true := by
  have hwrite : ∀ target mode ds, (∃ r, s.writeStyle ctx target mode ds = .ok r) ↔
      (Descriptor.ofCondition target.condition).toOption.isSome = true := fun target mode ds => by
    unfold writeStyle
    cases Descriptor.ofCondition target.condition <;>
      simp [bind, Except.bind, pure, Except.pure, Except.toOption]
  cases stmt with
  | createStyle target ds => exact hwrite target .set ds
  | alterStyle target mode ds => exact hwrite target mode ds
  | _ => simp [step, Statement.isAccepted]

/-- A file is applied to the end when each of its statements is accepted. -/
theorem exists_build_of_isAccepted {stmts : List Statement}
    (h : ∀ stmt ∈ stmts, stmt.isAccepted = true) (ctx : Context) (s : Cascade) :
    ∃ t, build ctx s stmts = .ok t := by
  induction stmts generalizing ctx s with
  | nil => exact ⟨s, rfl⟩
  | cons stmt stmts ih =>
    obtain ⟨hstmt, hrest⟩ := List.forall_mem_cons.1 h
    obtain ⟨⟨next, t⟩, hstep⟩ := exists_step_iff.2 hstmt
    rw [build_cons_of_step hstep]
    exact ih hrest next t

theorem build_of_buildTimeless {fault : ClockFault} {ctx : Context} {s t : Cascade}
    {stmts : List Statement} (h : buildTimeless fault ctx s stmts = .ok t) :
    build ctx s stmts = .ok t := by
  induction stmts generalizing ctx s with
  | nil =>
    obtain rfl : s = t := Except.ok.inj h
    rfl
  | cons stmt stmts ih =>
    simp only [buildTimeless, bind_eq_ok, mapError_eq_ok] at h
    obtain ⟨⟨next, after⟩, hstep, hrest⟩ := h
    rw [build_cons_of_step hstep]
    split at hrest
    · simp [throw, throwThe, MonadExceptOf.throw, bind, Except.bind] at hrest
    · exact ih hrest

/-- A file that is applied at the time of a clock is applied at some time, also if the clock is at
fault and nothing asks for the time. -/
theorem exists_build_of_buildAt {clock : Except ClockFault String} {ctx : Context} {s t : Cascade}
    {stmts : List Statement} (h : buildAt clock ctx s stmts = .ok t) :
    ∃ now, build { ctx with now } s stmts = .ok t := by
  cases clock with
  | ok now => exact ⟨now, mapError_eq_ok.1 h⟩
  | error fault => exact ⟨ctx.now, build_of_buildTimeless h⟩

end Cascade

/-! ## 2. Names that are there -/

namespace Cascade

/-- Every selector and every layer of a cascade is in another one too. -/
structure Grows (s t : Cascade) : Prop where
  selectors : s.selectors.keys ⊆ t.selectors.keys
  layers : s.layers.entries.keys ⊆ t.layers.entries.keys

theorem Grows.refl (s : Cascade) : s.Grows s :=
  ⟨List.Subset.refl _, List.Subset.refl _⟩

theorem Grows.trans {s t u : Cascade} (h : s.Grows t) (h' : t.Grows u) : s.Grows u :=
  ⟨List.Subset.trans h.selectors h'.selectors, List.Subset.trans h.layers h'.layers⟩

end Cascade

theorem Table.keys_subset_put {κ α : Type} [DecidableEq κ] [Keyed κ] (t : Table κ α) (k : κ)
    (v : α) : t.keys ⊆ (t.put k v).keys := by
  have hwrite : ∀ es : List (κ × α), es.map (·.1) ⊆ (write k v es).map (·.1) := by
    intro es
    induction es with
    | nil => simp
    | cons e es ih =>
      by_cases he : Keyed.key e.1 = Keyed.key k
      · simp [write, he]
      · simp only [write, he, if_false, List.map_cons]
        exact List.cons_subset_cons _ ih
  exact hwrite t.entries

theorem LayerRegistry.keys_subset_encounter (r : LayerRegistry) (name : Json) (p : Provenance) :
    r.entries.keys ⊆ (r.encounter name p).entries.keys := by
  unfold LayerRegistry.encounter
  split
  · exact List.Subset.refl _
  · exact r.entries.keys_subset_put name p

/-- A layer that is only met gets no place in the declared order. -/
theorem LayerRegistry.declared_encounter (r : LayerRegistry) (name : Json) (p : Provenance) :
    (r.encounter name p).declared = r.declared := by
  unfold LayerRegistry.encounter
  split
  · rfl
  · rfl

theorem LayerRegistry.keys_subset_declare (r : LayerRegistry) (names : List Json) (p : Provenance) :
    r.entries.keys ⊆ (r.declare names p).entries.keys := by
  unfold LayerRegistry.declare
  induction names generalizing r with
  | nil => exact List.Subset.refl _
  | cons name names ih =>
    refine List.Subset.trans (List.Subset.trans (r.keys_subset_encounter name p) ?_) (ih _)
    simp only [declareOne]
    split
    · exact List.Subset.refl _
    · exact List.Subset.refl _

namespace Cascade

variable {s : Cascade}

theorem grows_putEntry (s : Cascade) (name : Json) (e : SelectorEntry) :
    s.Grows { s with selectors := s.selectors.put name e } :=
  ⟨s.selectors.keys_subset_put name e, List.Subset.refl _⟩

theorem grows_referenceSelector (s : Cascade) (ctx : Context) (name : Json) :
    s.Grows (s.referenceSelector ctx name) := by
  unfold referenceSelector
  split
  · exact .refl s
  · exact s.grows_putEntry name _

theorem grows_deleteSelector (s : Cascade) (ctx : Context) (name : Json) :
    s.Grows (s.deleteSelector ctx name) := by
  unfold deleteSelector
  split
  · split
    · exact .refl s
    · exact s.grows_putEntry name _
  · exact .refl s

theorem grows_deleteToken (s : Cascade) (ctx : Context) (name : Json) :
    s.Grows (s.deleteToken ctx name) := by
  unfold deleteToken
  split
  · split
    · exact .refl s
    · exact ⟨List.Subset.refl _, List.Subset.refl _⟩
  · exact .refl s

theorem grows_mentions (names : List String) (p : Context × Cascade) :
    p.2.Grows (names.foldl mention p).2 := by
  induction names generalizing p with
  | nil => exact .refl p.2
  | cons name names ih =>
    exact (p.2.grows_referenceSelector p.1 (.text name)).trans (ih (mention p name))

theorem grows_writeStyle {ctx after : Context} {target : StyleTarget} {mode : WriteMode}
    {ds : List Declaration} {t : Cascade} (h : s.writeStyle ctx target mode ds = .ok (after, t)) :
    s.Grows t := by
  simp only [writeStyle, bind_eq_ok, pure_eq_ok, Prod.mk.injEq] at h
  obtain ⟨wrappers, -, rfl, rfl⟩ := h
  have hmentions := grows_mentions (selectorsOf target) (ctx, s)
  exact ⟨hmentions.selectors, hmentions.layers⟩

theorem grows_step {ctx ctx' : Context} {stmt : Statement} {t : Cascade}
    (h : step ctx s stmt = .ok (ctx', t)) : s.Grows t := by
  cases stmt with
  | createStyle target ds | alterStyle target mode ds =>
    exact grows_writeStyle h
  | createLayers names =>
    obtain ⟨rfl, rfl⟩ := Prod.mk.inj (Except.ok.inj h)
    exact ⟨List.Subset.refl _, s.layers.keys_subset_declare _ _⟩
  | setLayer name =>
    obtain ⟨rfl, rfl⟩ := Prod.mk.inj (Except.ok.inj h)
    exact ⟨List.Subset.refl _, s.layers.keys_subset_encounter _ _⟩
  | createSelector name definition =>
    obtain ⟨rfl, rfl⟩ := Prod.mk.inj (Except.ok.inj h)
    exact s.grows_putEntry _ _
  | dropSelector name =>
    obtain ⟨rfl, rfl⟩ := Prod.mk.inj (Except.ok.inj h)
    exact s.grows_deleteSelector ctx _
  | dropToken name | deleteToken name =>
    obtain ⟨rfl, rfl⟩ := Prod.mk.inj (Except.ok.inj h)
    exact s.grows_deleteToken ctx _
  | createStartingStyle selector ds =>
    obtain ⟨rfl, rfl⟩ := Prod.mk.inj (Except.ok.inj h)
    have hrefs := s.grows_referenceSelector ctx (.text selector)
    exact ⟨hrefs.selectors, hrefs.layers⟩
  | _ =>
    obtain ⟨rfl, rfl⟩ := Prod.mk.inj (Except.ok.inj h)
    exact ⟨List.Subset.refl _, List.Subset.refl _⟩

theorem grows_build {ctx : Context} {stmts : List Statement} {t : Cascade}
    (h : build ctx s stmts = .ok t) : s.Grows t := by
  induction stmts generalizing ctx s with
  | nil => exact Except.ok.inj h ▸ .refl s
  | cons stmt stmts ih =>
    obtain ⟨next, u, hstep, hrest⟩ := exists_of_build_cons h
    exact (grows_step hstep).trans (ih hrest)

end Cascade

end StyleLedger
