import StyleLedger.Proofs.Cascade.Kept
import StyleLedger.Proofs.Source.Evaluation
import StyleLedger.Proofs.Store.Reloaded

/-!
A file that writes styles is undone by a file that drops them.

The first file writes styles of one selector while one layer is set, where there have been none. It
leaves more behind than its buckets: selectors become known, and so does the layer, and the clock
goes on. None of this shows. A selector that was only mentioned has no definition, a layer that was
only met has no place in the declared order, and the clock does not show at all. So every statement
of both files keeps the definitions, the declared layers and the other buckets as they were
(`isBeside_step`). After the second file there are no buckets of the selector and the layer
(`buckets_of_drops`), hence all buckets are the original ones, with their order and their times.

* `Cascade.actsUnder` — whether the statements of a file act under a layer only.
* `Cascade.IsBeside` — the invariant.
-/

namespace StyleLedger

open Outcome
open Keyed (key)

/-! ## 1. Other buckets -/

/-- A test of keys does not see a write under a key that fails it. -/
theorem Table.filter_put {κ α : Type} [DecidableEq κ] [Keyed κ] {p : κ → Bool} {k : κ}
    (hp : ∀ l, key l = key k → p l = false) (t : Table κ α) (v : α) :
    ((t.put k v).filter fun l _ => p l) = t.filter fun l _ => p l := by
  rcases write_cases k v t.entries with ⟨before, d, after, hes, hd, hwrite⟩ | ⟨-, hwrite⟩
  · simp only [filter, put, hwrite]
    simp [hes, hp d.1 hd]
  · simp [filter, put, hwrite, hp k rfl]

namespace BucketIndex

variable {index : BucketIndex} {k : BucketKey} {selector layer : Json}

theorem drop_drop (index : BucketIndex) (selector layer : Json) :
    ((index.drop selector layer).1.drop selector layer).1 = (index.drop selector layer).1 := by
  simp [drop, Table.filter]

/-- Where there are no buckets of a selector and a layer, dropping them leaves all buckets. -/
theorem buckets_drop_of_free (h : ∀ l ∈ index.buckets.keys, l.isFor selector layer = false) :
    (index.drop selector layer).1.buckets = index.buckets := by
  refine congrArg Table.mk (List.filter_eq_self.2 fun e he => ?_)
  simp [h e.1 (Table.mem_keys_of_mem he)]

theorem drop_putTouched (h : k.isFor selector layer = true)
    (properties : Table Json StyleProperty) :
    ((index.putTouched k properties).drop selector layer).1.buckets =
      (index.drop selector layer).1.buckets := by
  have hkey : ∀ l, key l = key k → (!l.isFor selector layer) = false := fun l hl => by
    rw [BucketKey.isFor_congr hl, h]
    rfl
  exact Table.filter_put hkey _ _

/-- What is written to a bucket is dropped with it. -/
theorem drop_writeAll (h : k.isFor selector layer = true) (ctx : Context) (mode : WriteMode)
    (ds : List Declaration) :
    ((Cascade.writeAll ctx mode ds index k).drop selector layer).1.buckets =
      (index.drop selector layer).1.buckets := by
  unfold Cascade.writeAll
  split
  · cases hk : index.get? k with
    | none => rw [touch_of_eq_none hk]
    | some b => rw [touch_of_isSome (by simp [hk]), drop_putTouched h]
  · clear * - h
    induction ds generalizing index with
    | nil => rfl
    | cons d ds ih =>
      obtain ⟨p, heq⟩ := exists_writeOne_eq ctx mode k index d
      rw [List.foldl_cons, ih, heq, drop_putTouched h]

theorem drop_writeKeys {keys : List BucketKey} (h : ∀ k ∈ keys, k.isFor selector layer = true)
    (ctx : Context) (mode : WriteMode) (ds : List Declaration) :
    ((keys.foldl (Cascade.writeAll ctx mode ds) index).drop selector layer).1.buckets =
      (index.drop selector layer).1.buckets := by
  induction keys generalizing index with
  | nil => rfl
  | cons k keys ih =>
    obtain ⟨hk, hkeys⟩ := List.forall_mem_cons.1 h
    rw [List.foldl_cons, ih hkeys, drop_writeAll hk]

end BucketIndex

/-! ## 2. Statements under a layer -/

/-- Whether a statement writes a style of a selector. -/
def Statement.writesStyleOf (selector : String) : Statement → Bool
  | .createStyle target _ | .alterStyle target _ _ => target.selector = selector
  | _ => false

/-- Whether a statement drops the styles of a selector. -/
def Statement.dropsStyleOf (selector : String) : Statement → Bool
  | .dropStyle name => name = selector
  | _ => false

theorem Statement.isAccepted_of_dropsStyleOf {selector : String} {stmt : Statement}
    (h : stmt.dropsStyleOf selector = true) : stmt.isAccepted = true := by
  cases stmt with
  | dropStyle name => rfl
  | _ => simp [dropsStyleOf] at h

namespace Cascade

/-- Whether the statements of a file, besides setting layers and spacing modes, only do what is
allowed, and do it while `layer` is set; `active` is the layer that is set before the first one. -/
def actsUnder (layer : Option String) (allowed : Statement → Bool) (active : Option String) :
    List Statement → Bool
  | [] => true
  | .setLayer name :: stmts => actsUnder layer allowed (some name) stmts
  | .setSpacing _ :: stmts => actsUnder layer allowed active stmts
  | stmt :: stmts => decide (active = layer) && allowed stmt && actsUnder layer allowed active stmts

/-- Setting a layer or a spacing mode is always accepted. -/
theorem isAccepted_of_actsUnder {layer active : Option String} {allowed : Statement → Bool}
    (hallowed : ∀ stmt, allowed stmt = true → stmt.isAccepted = true) {stmts : List Statement}
    (h : actsUnder layer allowed active stmts = true) :
    ∀ stmt ∈ stmts, stmt.isAccepted = true := by
  fun_induction actsUnder with
  | case1 => simp
  | case2 _ _ _ ih => exact List.forall_mem_cons.2 ⟨rfl, ih h⟩
  | case3 _ _ _ ih => exact List.forall_mem_cons.2 ⟨rfl, ih h⟩
  | case4 active stmt stmts _ _ ih =>
    simp only [Bool.and_eq_true] at h
    exact List.forall_mem_cons.2 ⟨hallowed stmt h.1.2, ih h.2⟩

/-- A cascade is what another one is, but for the buckets of a selector and a layer, for selectors
that are known without a definition, for layers without a place, and for the clock. -/
structure IsBeside (selector layer : Json) (s t : Cascade) : Prop where
  definitions : t.definitions = s.definitions
  declared : t.layers.declared = s.layers.declared
  buckets : (t.buckets.drop selector layer).1.buckets = (s.buckets.drop selector layer).1.buckets
  rest : t = { s with selectors := t.selectors, layers := t.layers, buckets := t.buckets }

theorem IsBeside.refl (selector layer : Json) (s : Cascade) : s.IsBeside selector layer s :=
  ⟨rfl, rfl, rfl, rfl⟩

theorem IsBeside.trans {selector layer : Json} {s t u : Cascade} (h : s.IsBeside selector layer t)
    (h' : t.IsBeside selector layer u) : s.IsBeside selector layer u where
  definitions := h'.definitions.trans h.definitions
  declared := h'.declared.trans h.declared
  buckets := h'.buckets.trans h.buckets
  rest := by
    rw [h'.rest, h.rest]

/-- A selector that is mentioned is not defined. -/
theorem definitions_referenceSelector (s : Cascade) (ctx : Context) (name : Json) :
    (s.referenceSelector ctx name).definitions = s.definitions := by
  unfold referenceSelector
  split
  · rfl
  · next hname =>
    have hnew : ∀ l ∈ s.selectors.keys, key l ≠ key name := fun l hl heq => by
      obtain ⟨e, he, rfl⟩ := List.mem_map.1 hl
      exact hname (Table.isSome_get?_iff.2 ⟨e, he, heq⟩)
    rw [definitions, Table.put_of_not_mem hnew]
    simp [definitions]

theorem definitions_mentions (names : List String) (p : Context × Cascade) :
    (names.foldl mention p).2.definitions = p.2.definitions := by
  induction names generalizing p with
  | nil => rfl
  | cons name names ih =>
    exact (ih (mention p name)).trans (p.2.definitions_referenceSelector p.1 (.text name))

theorem activeLayer_mentions (names : List String) (p : Context × Cascade) :
    (names.foldl mention p).1.activeLayer = p.1.activeLayer := by
  induction names generalizing p with
  | nil => rfl
  | cons name names ih => exact (ih (mention p name)).trans (by simp [mention])

section Steps

variable {s t : Cascade} {ctx next : Context} {selector : String} {layer : Option String}
  {allowed : Statement → Bool} {stmt : Statement} {stmts : List Statement}

theorem isBeside_writeStyle {target : StyleTarget} {mode : WriteMode} {ds : List Declaration}
    (h : s.writeStyle ctx target mode ds = .ok (next, t)) :
    s.IsBeside (.text target.selector) (.textOrNull ctx.activeLayer) t ∧
      next.activeLayer = ctx.activeLayer := by
  simp only [writeStyle, bind_eq_ok, pure_eq_ok, Prod.mk.injEq] at h
  obtain ⟨wrappers, -, rfl, rfl⟩ := h
  have hmentions := mentions_eq (selectorsOf target) (ctx, s)
  have hkeys : ∀ k ∈ keysOf ctx.activeLayer target wrappers,
      k.isFor (.text target.selector) (.textOrNull ctx.activeLayer) = true := fun k hk => by
    obtain ⟨d, -, rfl⟩ := List.mem_map.1 hk
    simp [BucketKey.isFor, Json.alike]
  refine ⟨⟨definitions_mentions _ (ctx, s), ?_, ?_, ?_⟩, activeLayer_mentions _ (ctx, s)⟩
  · rw [hmentions]
  · refine (BucketIndex.drop_writeKeys hkeys _ _ _).trans ?_
    rw [hmentions]
  · rw [hmentions]

/-- A statement that writes or drops styles of a selector, under a layer, leaves everything else. -/
theorem isBeside_step
    (hallowed : ∀ stmt, allowed stmt = true →
      stmt.writesStyleOf selector = true ∨ stmt.dropsStyleOf selector = true)
    (hacts : actsUnder layer allowed ctx.activeLayer (stmt :: stmts) = true)
    (hstep : step ctx s stmt = .ok (next, t)) :
    s.IsBeside (.text selector) (.textOrNull layer) t ∧
      actsUnder layer allowed next.activeLayer stmts = true := by
  have hwrite : ∀ {target mode ds}, (decide (ctx.activeLayer = layer) && allowed stmt &&
      actsUnder layer allowed ctx.activeLayer stmts) = true → target.selector = selector →
      s.writeStyle ctx target mode ds = .ok (next, t) →
      s.IsBeside (.text selector) (.textOrNull layer) t ∧
        actsUnder layer allowed next.activeLayer stmts = true := by
    rintro target mode ds hacts rfl hw
    simp only [Bool.and_eq_true, decide_eq_true_eq] at hacts
    obtain ⟨⟨rfl, -⟩, hrest⟩ := hacts
    obtain ⟨hbeside, hactive⟩ := isBeside_writeStyle hw
    exact ⟨hbeside, hactive ▸ hrest⟩
  cases stmt with
  | setLayer name =>
    obtain ⟨rfl, rfl⟩ := Prod.mk.inj (Except.ok.inj hstep)
    exact ⟨⟨rfl, LayerRegistry.declared_encounter _ _ _, rfl, rfl⟩, hacts⟩
  | setSpacing mode =>
    obtain ⟨rfl, rfl⟩ := Prod.mk.inj (Except.ok.inj hstep)
    exact ⟨.refl _ _ s, hacts⟩
  | createStyle target ds | alterStyle target mode ds =>
    have hselector := hacts
    simp only [actsUnder, Bool.and_eq_true] at hselector
    have hwrites := (hallowed _ hselector.1.2).resolve_right (by simp [Statement.dropsStyleOf])
    exact hwrite hacts (of_decide_eq_true hwrites) hstep
  | dropStyle name =>
    obtain ⟨rfl, rfl⟩ := Prod.mk.inj (Except.ok.inj hstep)
    simp only [actsUnder, Bool.and_eq_true, decide_eq_true_eq] at hacts
    obtain ⟨⟨rfl, hname⟩, hrest⟩ := hacts
    have hdrops := (hallowed _ hname).resolve_left (by simp [Statement.writesStyleOf])
    obtain rfl : name = selector := of_decide_eq_true hdrops
    exact ⟨⟨rfl, rfl, by rw [BucketIndex.drop_drop], rfl⟩, hrest⟩
  | _ =>
    -- Every other statement would have to be allowed, and is neither a write nor a drop.
    simp only [actsUnder, Bool.and_eq_true] at hacts
    simpa [Statement.writesStyleOf, Statement.dropsStyleOf] using hallowed _ hacts.1.2

/-- What one statement leaves as it was, all of them do. -/
theorem isBeside_build
    (hallowed : ∀ stmt, allowed stmt = true →
      stmt.writesStyleOf selector = true ∨ stmt.dropsStyleOf selector = true)
    (hacts : actsUnder layer allowed ctx.activeLayer stmts = true)
    (h : build ctx s stmts = .ok t) : s.IsBeside (.text selector) (.textOrNull layer) t := by
  induction stmts generalizing ctx s with
  | nil =>
    obtain rfl : s = t := Except.ok.inj h
    exact .refl _ _ s
  | cons stmt stmts ih =>
    obtain ⟨next, v, hstep, hrest⟩ := exists_of_build_cons h
    obtain ⟨hbeside, hacts⟩ := isBeside_step hallowed hacts hstep
    exact hbeside.trans (ih hacts hrest)

/-- A file that drops the styles of a selector under a layer drops their buckets, whether it does so
once or more often. -/
theorem buckets_of_drops
    (hacts : actsUnder layer (·.dropsStyleOf selector) ctx.activeLayer stmts = true)
    (h : build ctx s stmts = .ok t) : t.buckets =
      if stmts.any (·.dropsStyleOf selector) then
        (s.buckets.drop (.text selector) (.textOrNull layer)).1
      else s.buckets := by
  induction stmts generalizing ctx s with
  | nil =>
    obtain rfl : s = t := Except.ok.inj h
    rfl
  | cons stmt stmts ih =>
    obtain ⟨next, v, hstep, hrest⟩ := exists_of_build_cons h
    cases stmt with
    | setLayer name =>
      obtain ⟨rfl, rfl⟩ := Prod.mk.inj (Except.ok.inj hstep)
      exact (ih hacts hrest).trans rfl
    | setSpacing mode =>
      obtain ⟨rfl, rfl⟩ := Prod.mk.inj (Except.ok.inj hstep)
      exact (ih (by exact hacts) hrest).trans rfl
    | dropStyle name =>
      obtain ⟨rfl, rfl⟩ := Prod.mk.inj (Except.ok.inj hstep)
      simp only [actsUnder, Bool.and_eq_true, decide_eq_true_eq] at hacts
      obtain ⟨⟨rfl, hname⟩, hacts⟩ := hacts
      obtain rfl : name = selector := of_decide_eq_true hname
      rw [ih hacts hrest, List.any_cons, hname, Bool.true_or, if_pos rfl]
      split
      · exact BucketIndex.drop_drop _ _ _
      · rfl
    | _ => simp [actsUnder, Statement.dropsStyleOf] at hacts

end Steps

/-! ## 3. Sheets -/

/-- A cascade beside another one that has the same buckets has the same sheet, or is refused one for
the same reason. -/
theorem IsBeside.compile_eq {selector layer : Json} {s t : Cascade}
    (h : s.IsBeside selector layer t) (hbuckets : t.buckets.buckets = s.buckets.buckets)
    (config : CompilerConfig) : t.compile config = s.compile config := by
  -- A sheet reads selectors through their definitions and layers through the declared order.
  obtain ⟨selectors, layers, index, rfl⟩ : ∃ selectors layers index,
    t = { s with selectors, layers, buckets := index } := ⟨_, _, _, h.rest⟩
  have hdeclared : layers.declared = s.layers.declared := h.declared
  have hindex : index.buckets = s.buckets.buckets := hbuckets
  have hcell : selectorCell { s with selectors, layers, buckets := index } = s.selectorCell := by
    funext name
    rw [selectorCell, selectorCell, h.definitions]
  have hresolvable : isResolvable { s with selectors, layers, buckets := index } =
      s.isResolvable := by
    funext name
    rw [isResolvable, isResolvable, h.definitions]
  have hsheet : Sheet.ofCascade { s with selectors, layers, buckets := index } config =
      Sheet.ofCascade s config := by
    simp only [Sheet.ofCascade, Sheet.preambleOf, Sheet.rulesOf, Sheet.ruleOf, Sheet.scopeCell,
      Sheet.fullBuckets, Sheet.layerOrderOf, liveTokens, hcell, hdeclared, hindex]
  have hcheck : Sheet.checkCascade { s with selectors, layers, buckets := index } config =
      Sheet.checkCascade s config := by
    simp only [Sheet.checkCascade, Sheet.checkBucket, Sheet.checkSelector, Sheet.fullBuckets,
      liveTokens, hresolvable, hindex]
  rw [compile, compile, Sheet.plan, Sheet.plan, hsheet, hcheck]

/-! ## 4. Files -/

namespace IsReachable

variable {migrations : List String} {ctx : Context} {s : Cascade}

/-- Wherever statements and reloads have led to: where a layer has no buckets of a selector, a file
writes styles of the selector under the layer, and a later file drops them. Then all buckets are the
original ones, in their order and with their times, and so is the style sheet. -/
theorem exists_build_undone (h : IsReachable migrations ctx s) {selector : String}
    {layer : Option String}
    (hfree : ∀ k ∈ s.buckets.buckets.keys, k.isFor (.text selector) (.textOrNull layer) = false)
    (o o' : Occasion) {up down : List Statement}
    (hup : actsUnder layer (·.writesStyleOf selector) none up = true)
    (haccepted : ∀ stmt ∈ up, stmt.isAccepted = true)
    (hdown : actsUnder layer (·.dropsStyleOf selector) none down = true)
    (hdrops : down.any (·.dropsStyleOf selector) = true) :
    ∃ t u, Cascade.build o.context s up = .ok t ∧ Cascade.build o'.context t down = .ok u ∧
      u.buckets.buckets = s.buckets.buckets ∧
      ∀ config, ∃ css, s.compile config = .ok css ∧ u.compile config = .ok css := by
  obtain ⟨t, ht⟩ := exists_build_of_isAccepted haccepted o.context s
  have hdownAccepted :=
    isAccepted_of_actsUnder (fun _ hd => Statement.isAccepted_of_dropsStyleOf hd) hdown
  obtain ⟨u, hu⟩ := exists_build_of_isAccepted hdownAccepted o'.context t
  have hwritten := isBeside_build (fun _ hw => .inl hw) hup ht
  have hdropped := isBeside_build (fun _ hd => .inr hd) hdown hu
  have hbuckets : u.buckets.buckets = s.buckets.buckets := by
    rw [buckets_of_drops hdown hu, if_pos hdrops, hwritten.buckets,
      BucketIndex.buckets_drop_of_free hfree]
  refine ⟨t, u, ht, hu, hbuckets, fun config => ⟨_, h.compile_eq config, ?_⟩⟩
  rw [(hwritten.trans hdropped).compile_eq hbuckets, h.compile_eq]

/-- A style with two alternatives under a layer. Outside of it the selector has another style. -/
theorem exists_build_undone_layered : ∃ first up down t u,
    Source.parse "CREATE STYLE SELECTOR a (b = c);" false = .ok first ∧
    Source.parse
      "SET LAYER = m; ALTER STYLE SELECTOR a WHERE width <= 1px OR width >= 3px ADD b = d;"
      false = .ok up ∧
    Source.parse "SET LAYER = m; DROP STYLE SELECTOR a;" false = .ok down ∧
    Cascade.build {} (Cascade.run {} {} first).state up = .ok t ∧
    Cascade.build { now := "09:00" } t down = .ok u ∧
    u.buckets.buckets = (Cascade.run {} {} first).state.buckets.buckets ∧
    (Cascade.run {} {} first).state.compile {} = .ok ".a \x7b\n  b: c;\n\x7d\n" ∧
    u.compile {} = .ok ".a \x7b\n  b: c;\n\x7d\n" := by
  obtain ⟨_, hparse, hfiles⟩ := exists_ok_of_any
    (x := do
      let first ← Source.parse "CREATE STYLE SELECTOR a (b = c);" false
      let up ← Source.parse
        "SET LAYER = m; ALTER STYLE SELECTOR a WHERE width <= 1px OR width >= 3px ADD b = d;"
        false
      let down ← Source.parse "SET LAYER = m; DROP STYLE SELECTOR a;" false
      return (first, up, down))
    (p := fun (r : List Statement × List Statement × List Statement) =>
      let s := (Cascade.run {} {} r.1).state
      decide ((∀ k ∈ s.buckets.buckets.keys, k.isFor (.text "a") (.text "m") = false) ∧
        actsUnder (some "m") (·.writesStyleOf "a") none r.2.1 = true ∧
        (∀ stmt ∈ r.2.1, stmt.isAccepted = true) ∧
        actsUnder (some "m") (·.dropsStyleOf "a") none r.2.2 = true ∧
        r.2.2.any (·.dropsStyleOf "a") = true ∧
        (s.compile {}).toOption = some ".a \x7b\n  b: c;\n\x7d\n"))
    (by
      rw [Source.parse_ofList, Source.parse_ofList, Source.parse_ofList]
      decide +kernel)
  simp only [bind_eq_ok, pure_eq_ok] at hparse
  obtain ⟨first, hfirst, up, hup, down, hdown, rfl⟩ := hparse
  obtain ⟨hfree, hwrites, haccepted, hactsDown, hdrops, hcss⟩ := of_decide_eq_true hfiles
  have hstart : IsReachable [adhocMigration] {} {} := .start {} (by decide)
  have hreach := hstart.run fun stmt hstmt => ⟨_, _, first, hfirst, hstmt⟩
  obtain ⟨t, u, ht, hu, hbuckets, hcompile⟩ := hreach.exists_build_undone hfree
    {} { now := "09:00" } hwrites haccepted hactsDown hdrops
  obtain ⟨css, hleft, hright⟩ := hcompile {}
  rw [hleft] at hcss
  obtain rfl := Option.some.inj hcss
  exact ⟨first, up, down, t, u, hfirst, hup, hdown, ht, hu, hbuckets, hleft, hright⟩

end IsReachable

end Cascade

end StyleLedger
