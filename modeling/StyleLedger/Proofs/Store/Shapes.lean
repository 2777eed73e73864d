import StyleLedger.Proofs.Store.Blobs

/-!
The shapes of stored texts.

A stored text is a structured value, and its reader takes values of one shape only: lists of
declarations or of keyframes, or the tree of a definition. A shape is said here by the fields that a
value has, without the reader, and with a property of the cells in it. Of any cells, the shape is
what the reader takes; of texts, what it makes of the value is plain.

* `Json.Lists` — a value that holds items.
* `StoredDeclaration.Shape`, `StoredKeyframe.Shape`, `Selector.Shape` — the shapes.
* `StoredDeclaration.listOfJson_iff`, `StoredKeyframe.ofJson_iff`, `Selector.exists_ofJson_iff` —
  what their readers take.
-/

namespace StyleLedger

open Outcome

/-! ## 1. Fields and items -/

namespace Json

/-- A value holds some items: it is a list of them, or empty otherwise. -/
def Lists (v : Json) (items : List Json) : Prop :=
  v = .array items ∨ items = [] ∧ (v = .text "" ∨ v = .object [])

theorem asItems_eq_ok {otherwise : ShapeError} {v : Json} {items : List Json} :
    v.asItems otherwise = .ok items ↔ v.Lists items := by
  have hempty : (Except.ok [] : Except ShapeError (List Json)) = .ok items ↔ items = [] :=
    ⟨fun h => (Except.ok.inj h).symm, fun h => h ▸ rfl⟩
  unfold asItems Lists
  cases v with
  | array vs => simp
  | text s =>
    by_cases hs : s = ""
    · simp [hs, hempty]
    · simp [hs]
  | object fields =>
    cases fields with
    | nil => simp [hempty]
    | cons f fs => simp
  | _ => simp

theorem required_eq_ok {name : String} {fields : List (String × Json)} {v : Json} :
    required name fields = .ok v ↔ field? name fields = some v := by
  unfold required
  cases field? name fields with
  | none => simp
  | some w => simp

/-- A field is below its object. -/
theorem depth_of_field? {name : String} {fields : List (String × Json)} {v : Json}
    (h : field? name fields = some v) : v.depth ≤ depthFields fields := by
  induction fields with
  | nil => simp [field?, Table.lookup] at h
  | cons f fs ih =>
    simp only [field?, Table.lookup] at h ih
    simp only [depthFields]
    split at h
    · obtain rfl := Option.some.inj h
      exact Nat.le_max_left _ _
    · exact Nat.le_trans (ih h) (Nat.le_max_right _ _)

/-- An item is below the value that holds it. -/
theorem Lists.depth_lt {v : Json} {items : List Json} (h : v.Lists items) {w : Json}
    (hw : w ∈ items) : w.depth < v.depth := by
  have hitems : ∀ {vs : List Json}, w ∈ vs → w.depth ≤ depthItems vs := by
    intro vs hw
    induction vs with
    | nil => simp at hw
    | cons u us ih =>
      simp only [depthItems]
      rcases List.mem_cons.1 hw with rfl | hw
      · exact Nat.le_max_left _ _
      · exact Nat.le_trans (ih hw) (Nat.le_max_right _ _)
  rcases h with rfl | ⟨rfl, -⟩
  · exact Nat.lt_succ_of_le (hitems hw)
  · simp at hw

end Json

/-! ## 2. Declarations and keyframes -/

namespace StoredDeclaration

/-- A value with a name and a value. -/
def Shape (P : Json → Prop) (v : Json) : Prop :=
  ∃ fields name value, v = .object fields ∧ Json.field? "name" fields = some name ∧
    Json.field? "value" fields = some value ∧ P name ∧ P value

/-- A list of declarations. -/
def ListShape (P : Json → Prop) (v : Json) : Prop :=
  ∃ items, v.Lists items ∧ ∀ i ∈ items, Shape P i

variable {P Q : Json → Prop}

theorem Shape.mono {v : Json} (h : Shape P v) (hPQ : ∀ w, P w → Q w) : Shape Q v := by
  obtain ⟨fields, name, value, rfl, hname, hvalue, hP⟩ := h
  exact ⟨fields, name, value, rfl, hname, hvalue, hPQ _ hP.1, hPQ _ hP.2⟩

theorem ListShape.mono {v : Json} (h : ListShape P v) (hPQ : ∀ w, P w → Q w) : ListShape Q v := by
  obtain ⟨items, hitems, hshape⟩ := h
  exact ⟨items, hitems, fun i hi => (hshape i hi).mono hPQ⟩

theorem ofJson_eq_ok {v : Json} {d : StoredDeclaration} : ofJson v = .ok d ↔
    ∃ fields, v = .object fields ∧ Json.field? "name" fields = some d.name ∧
      Json.field? "value" fields = some d.value := by
  cases v with
  | object fields =>
    simp only [ofJson, bind_eq_ok, pure_eq_ok, Json.required_eq_ok, Json.object.injEq,
      exists_eq_left']
    constructor
    · rintro ⟨name, hname, value, hvalue, rfl⟩
      exact ⟨hname, hvalue⟩
    · rintro ⟨hname, hvalue⟩
      exact ⟨_, hname, _, hvalue, rfl⟩
  | _ => simp [ofJson]

theorem ofJson_iff {v : Json} :
    (∃ d, ofJson v = .ok d ∧ P d.name ∧ P d.value) ↔ Shape P v := by
  simp only [ofJson_eq_ok, Shape]
  constructor
  · rintro ⟨d, ⟨fields, rfl, hname, hvalue⟩, hP⟩
    exact ⟨fields, _, _, rfl, hname, hvalue, hP⟩
  · rintro ⟨fields, name, value, rfl, hname, hvalue, hP⟩
    exact ⟨⟨name, value⟩, ⟨fields, rfl, hname, hvalue⟩, hP⟩

/-- Lists of declarations are what their reader takes. -/
theorem listOfJson_iff {v : Json} :
    (∃ ds, listOfJson v = .ok ds ∧ ∀ d ∈ ds, P d.name ∧ P d.value) ↔ ListShape P v := by
  simp only [listOfJson, bind_eq_ok, Json.asItems_eq_ok, ListShape, ← ofJson_iff,
    ← exists_mapM_forall_iff]
  constructor
  · rintro ⟨ds, ⟨items, hitems, hds⟩, hP⟩
    exact ⟨items, hitems, ds, hds, hP⟩
  · rintro ⟨items, hitems, ds, hds, hP⟩
    exact ⟨ds, ⟨items, hitems, hds⟩, hP⟩

end StoredDeclaration

namespace StoredKeyframe

/-- A value with an offset, and with a list of declarations if it has properties. -/
def Shape (P : Json → Prop) (v : Json) : Prop :=
  ∃ fields offset, v = .object fields ∧ Json.field? "offset" fields = some offset ∧
    ∀ w, Json.field? "props" fields = some w → StoredDeclaration.ListShape P w

/-- A list of keyframes. -/
def ListShape (P : Json → Prop) (v : Json) : Prop :=
  ∃ items, v.Lists items ∧ ∀ i ∈ items, Shape P i

variable {P Q : Json → Prop}

theorem ListShape.mono {v : Json} (h : ListShape P v) (hPQ : ∀ w, P w → Q w) : ListShape Q v := by
  obtain ⟨items, hitems, hshape⟩ := h
  refine ⟨items, hitems, fun i hi => ?_⟩
  obtain ⟨fields, offset, rfl, hoffset, hprops⟩ := hshape i hi
  exact ⟨fields, offset, rfl, hoffset, fun w hw => (hprops w hw).mono hPQ⟩

theorem ofJson_iff {v : Json} :
    (∃ f, ofJson v = .ok f ∧ ∀ d ∈ f.declarations, P d.name ∧ P d.value) ↔ Shape P v := by
  have hempty : StoredDeclaration.ListShape P (.array []) := ⟨[], .inl rfl, by simp⟩
  cases v with
  | object fields =>
    simp only [ofJson, bind_eq_ok, pure_eq_ok, Json.required_eq_ok, Shape, Json.object.injEq,
      exists_and_left, exists_eq_left', ← StoredDeclaration.listOfJson_iff] at hempty ⊢
    constructor
    · rintro ⟨f, ⟨offset, hoffset, ds, hds, rfl⟩, hP⟩
      refine ⟨offset, hoffset, fun w hw => ⟨ds, ?_, hP⟩⟩
      rwa [hw] at hds
    · rintro ⟨offset, hoffset, hprops⟩
      cases hw : Json.field? "props" fields with
      | none =>
        obtain ⟨ds, hds, hP⟩ := hempty
        exact ⟨⟨offset, ds⟩, ⟨offset, hoffset, ds, hds, rfl⟩, hP⟩
      | some w =>
        obtain ⟨ds, hds, hP⟩ := hprops w hw
        exact ⟨⟨offset, ds⟩, ⟨offset, hoffset, ds, hds, rfl⟩, hP⟩
  | _ => simp [ofJson, Shape]

end StoredKeyframe

/-! ## 3. Definitions -/

namespace Selector

/-- The kinds of definitions with a single value. -/
def simpleKinds : List String := ["Element", "Class", "Id", "Pseudo", "PseudoElement"]

/-- The kinds of definitions with two sides, and the fields of these. -/
def pairKinds : List (String × String × String) :=
  [("Child", "parent", "child"), ("Descendant", "ancestor", "descendant")]

/-- A tree of definitions, each with the fields of its kind. -/
inductive Shape (P : Json → Prop) : Json → Prop
  | simple {fields : List (String × Json)} {kind : String} {v : Json}
      (hkind : Json.field? "kind" fields = some (.text kind)) (hsimple : kind ∈ simpleKinds)
      (hv : Json.field? "value" fields = some v) (hP : P v) : Shape P (.object fields)
  | attr {fields : List (String × Json)} {name : Json}
      (hkind : Json.field? "kind" fields = some (.text "Attr"))
      (hname : Json.field? "name" fields = some name) (hP : P name)
      (hrest : ∀ part ∈ ["value", "operator", "flag"], ∀ v, Json.field? part fields = some v →
        v = .null ∨ P v) : Shape P (.object fields)
  | reference {fields : List (String × Json)} {name : Json}
      (hkind : Json.field? "kind" fields = some (.text "Ref"))
      (hname : Json.field? "name" fields = some name) (hP : P name) : Shape P (.object fields)
  | parts {fields : List (String × Json)} {kind : String} {v : Json} {items : List Json}
      (hkind : Json.field? "kind" fields = some (.text kind)) (hparts : kind ∈ ["And", "Or"])
      (hv : Json.field? "selectors" fields = some v) (hitems : v.Lists items)
      (hshape : ∀ i ∈ items, Shape P i) : Shape P (.object fields)
  | pair {fields : List (String × Json)} {kind left right : String} {l r : Json}
      (hkind : Json.field? "kind" fields = some (.text kind))
      (hpair : (kind, left, right) ∈ pairKinds) (hl : Json.field? left fields = some l)
      (hr : Json.field? right fields = some r) (hleft : Shape P l) (hright : Shape P r) :
      Shape P (.object fields)
  | join {fields : List (String × Json)} {l r : Json} (kind : JoinKind)
      (hkind : Json.field? "kind" fields = some (.text "Join"))
      (hjoin : Json.field? "joinType" fields = some (.text kind.name))
      (hl : Json.field? "left" fields = some l) (hr : Json.field? "right" fields = some r)
      (hleft : Shape P l) (hright : Shape P r) : Shape P (.object fields)

variable {P Q : Json → Prop}

theorem Shape.mono {v : Json} (h : Shape P v) (hPQ : ∀ w, P w → Q w) : Shape Q v := by
  induction h with
  | simple hkind hsimple hv hP => exact .simple hkind hsimple hv (hPQ _ hP)
  | attr hkind hname hP hrest =>
    exact .attr hkind hname (hPQ _ hP) fun part hpart v hv =>
      (hrest part hpart v hv).imp_right (hPQ v)
  | reference hkind hname hP => exact .reference hkind hname (hPQ _ hP)
  | parts hkind hparts hv hitems _ ih => exact .parts hkind hparts hv hitems ih
  | pair hkind hpair hl hr _ _ ihl ihr => exact .pair hkind hpair hl hr ihl ihr
  | join kind hkind hjoin hl hr _ _ ihl ihr => exact .join kind hkind hjoin hl hr ihl ihr

theorem joinKindOf_eq_ok {v : Json} {k : JoinKind} : joinKindOf v = .ok k ↔ v = .text k.name := by
  constructor
  · intro h
    unfold joinKindOf at h
    simp only at h
    split at h
    · next s =>
      split at h
      · next k' hk =>
        obtain rfl := Except.ok.inj h
        have := List.find?_some hk
        rw [of_decide_eq_true this]
      · simp at h
    · simp at h
  · rintro rfl
    exact joinKindOf_name k

theorem mem_simpleKinds_iff {kind : String} :
    kind ∈ simpleKinds ↔ ∃ make, ofSimple? kind = some make := by
  unfold ofSimple? simpleKinds
  repeat' split
  all_goals simp_all

/-- A simple definition of texts is plain. -/
theorem isPlain_of_ofSimple? {kind : String} {make : Json → Selector}
    (h : ofSimple? kind = some make) {v : Json} (hv : v.IsString) : (make v).IsPlain := by
  unfold ofSimple? at h
  repeat' split at h
  all_goals first | exact Option.some.inj h ▸ hv | simp at h

/-- A value of the shape of a definition is read, and what is read of texts is plain. -/
theorem Shape.exists_ofJsonWithin {v : Json} (h : Shape P v) :
    ∀ {depth : Nat}, v.depth ≤ depth → ∃ s, ofJsonWithin depth v = .ok s ∧
      ((∀ w, P w → w.IsString) → s.IsPlain) := by
  have hpos : ∀ {fields : List (String × Json)} {depth : Nat},
      (Json.object fields).depth ≤ depth → ∃ d, depth = d + 1 ∧ Json.depthFields fields ≤ d := by
    intro fields depth hdepth
    rw [Json.depth] at hdepth
    exact ⟨depth - 1, by omega, by omega⟩
  induction h with
  | @simple fields kind v hkind hsimple hv hP =>
    intro depth hdepth
    obtain ⟨depth, rfl, -⟩ := hpos hdepth
    obtain ⟨make, hmake⟩ := mem_simpleKinds_iff.1 hsimple
    refine ⟨make v, ?_, fun hstring => isPlain_of_ofSimple? hmake (hstring v hP)⟩
    simp [ofJsonWithin, Json.optional, Json.required, hkind, hmake, hv]
  | @attr fields name hkind hname hP hrest =>
    intro depth hdepth
    obtain ⟨depth, rfl, -⟩ := hpos hdepth
    refine ⟨.attr name (Json.optional "value" fields) (Json.optional "operator" fields)
      (Json.optional "flag" fields), ?_, fun hstring => ?_⟩
    · simp [ofJsonWithin, Json.optional, Json.required, hkind, hname, ofSimple?, bind, Except.bind,
        pure, Except.pure]
    · have hword : ∀ part ∈ ["value", "operator", "flag"], (Json.optional part fields).IsWord := by
        intro part hpart
        rw [Json.optional]
        cases hv : Json.field? part fields with
        | none => exact Json.isWord_null
        | some v => exact (hrest part hpart v hv).imp_right (hstring v)
      exact ⟨hstring name hP, hword _ (by simp), hword _ (by simp), hword _ (by simp)⟩
  | @reference fields name hkind hname hP =>
    intro depth hdepth
    obtain ⟨depth, rfl, -⟩ := hpos hdepth
    refine ⟨.reference name, ?_, fun hstring => hstring name hP⟩
    simp [ofJsonWithin, Json.optional, Json.required, hkind, hname, ofSimple?]
  | @parts fields kind v items hkind hparts hv hitems _ ih =>
    intro depth hdepth
    obtain ⟨depth, rfl, hfields⟩ := hpos hdepth
    have hbelow := Json.depth_of_field? hv
    have hread : ∀ i ∈ items, ∃ s, ofJsonWithin depth i = .ok s ∧
        ((∀ w, P w → w.IsString) → s.IsPlain) := by
      intro i hi
      have hlt := hitems.depth_lt hi
      exact ih i hi (by omega)
    obtain ⟨ss, hss, hplain⟩ := exists_mapM_forall_iff.2 hread
    have hitems' : v.asItems .lacking = .ok items := Json.asItems_eq_ok.2 hitems
    have harePlain : (∀ w, P w → w.IsString) → ArePlain ss := fun hstring =>
      (arePlain_iff ss).2 fun s hs => hplain s hs hstring
    simp only [List.mem_cons, List.not_mem_nil, or_false] at hparts
    rcases hparts with rfl | rfl
    · refine ⟨.and ss, ?_, harePlain⟩
      simp [ofJsonWithin, Json.optional, Json.required, hkind, hv, ofSimple?, hitems', hss, bind,
        Except.bind, Functor.map, Except.map]
    · refine ⟨.or ss, ?_, harePlain⟩
      simp [ofJsonWithin, Json.optional, Json.required, hkind, hv, ofSimple?, hitems', hss, bind,
        Except.bind, Functor.map, Except.map]
  | @pair fields kind left right l r hkind hpair hl hr _ _ ihl ihr =>
    intro depth hdepth
    obtain ⟨depth, rfl, hfields⟩ := hpos hdepth
    have hbelowl := Json.depth_of_field? hl
    have hbelowr := Json.depth_of_field? hr
    obtain ⟨a, ha, hplaina⟩ := ihl (show l.depth ≤ depth by omega)
    obtain ⟨b, hb, hplainb⟩ := ihr (show r.depth ≤ depth by omega)
    simp only [pairKinds, List.mem_cons, List.not_mem_nil, or_false, Prod.mk.injEq] at hpair
    rcases hpair with ⟨rfl, rfl, rfl⟩ | ⟨rfl, rfl, rfl⟩
    · refine ⟨.child a b, ?_, fun hstring => ⟨hplaina hstring, hplainb hstring⟩⟩
      simp [ofJsonWithin, Json.optional, Json.required, hkind, hl, hr, ofSimple?, ha, hb, bind,
        Except.bind, pure, Except.pure]
    · refine ⟨.descendant a b, ?_, fun hstring => ⟨hplaina hstring, hplainb hstring⟩⟩
      simp [ofJsonWithin, Json.optional, Json.required, hkind, hl, hr, ofSimple?, ha, hb, bind,
        Except.bind, pure, Except.pure]
  | @join fields l r kind hkind hjoin hl hr _ _ ihl ihr =>
    intro depth hdepth
    obtain ⟨depth, rfl, hfields⟩ := hpos hdepth
    have hbelowl := Json.depth_of_field? hl
    have hbelowr := Json.depth_of_field? hr
    obtain ⟨a, ha, hplaina⟩ := ihl (show l.depth ≤ depth by omega)
    obtain ⟨b, hb, hplainb⟩ := ihr (show r.depth ≤ depth by omega)
    refine ⟨.join kind a b, ?_, fun hstring => ⟨hplaina hstring, hplainb hstring⟩⟩
    simp [ofJsonWithin, Json.optional, Json.required, hkind, hjoin, hl, hr, ofSimple?, ha, hb,
      joinKindOf_name, bind, Except.bind, pure, Except.pure]

/-- What is read has the shape of a definition. -/
theorem shape_of_ofJsonWithin : ∀ {depth : Nat} {v : Json} {s : Selector},
    ofJsonWithin depth v = .ok s → Shape (fun _ => True) v := by
  intro depth
  induction depth with
  | zero =>
    intro v s h
    simp [ofJsonWithin] at h
  | succ depth ih =>
    intro v s h
    cases v with
    | object fields =>
      rw [ofJsonWithin] at h
      simp only at h
      cases hkind : Json.field? "kind" fields with
      | none => simp [Json.optional, hkind] at h
      | some kind =>
        simp only [Json.optional, hkind, Option.getD_some] at h
        cases kind with
        | text name =>
          simp only at h
          have hparts : ∀ {ss : List Selector}, name ∈ ["And", "Or"] → (do
              let items ← (← Json.required "selectors" fields).asItems .lacking
              items.mapM (ofJsonWithin depth)) = .ok ss →
              Shape (fun _ => True) (.object fields) := by
            intro ss hname hss
            simp only [bind_eq_ok, Json.required_eq_ok, Json.asItems_eq_ok] at hss
            obtain ⟨v, hv, items, hitems, hss⟩ := hss
            refine .parts hkind hname hv hitems fun i hi => ?_
            obtain ⟨s, hs⟩ := exists_of_mapM hss i hi
            exact ih hs
          split at h
          · next make hmake =>
            simp only [map_eq_ok, Json.required_eq_ok] at h
            obtain ⟨v, hv, rfl⟩ := h
            exact .simple hkind (mem_simpleKinds_iff.2 ⟨make, hmake⟩) hv trivial
          split at h
          · next hname =>
            subst hname
            simp only [bind_eq_ok, Json.required_eq_ok] at h
            obtain ⟨name, hname, -⟩ := h
            exact .attr hkind hname trivial fun _ _ _ _ => .inr trivial
          split at h
          · next hname =>
            subst hname
            simp only [map_eq_ok, Json.required_eq_ok] at h
            obtain ⟨name, hname, -⟩ := h
            exact .reference hkind hname trivial
          split at h
          · next hname =>
            obtain ⟨ss, hss, -⟩ := map_eq_ok.1 h
            exact hparts (by simp [hname]) hss
          split at h
          · next hname =>
            obtain ⟨ss, hss, -⟩ := map_eq_ok.1 h
            exact hparts (by simp [hname]) hss
          split at h
          · next hname =>
            subst hname
            simp only [bind_eq_ok, Json.required_eq_ok] at h
            obtain ⟨a, ⟨l, hl, ha⟩, b, ⟨r, hr, hb⟩, -⟩ := h
            exact .pair hkind (by simp [pairKinds]) hl hr (ih ha) (ih hb)
          split at h
          · next hname =>
            subst hname
            simp only [bind_eq_ok, Json.required_eq_ok] at h
            obtain ⟨a, ⟨l, hl, ha⟩, b, ⟨r, hr, hb⟩, -⟩ := h
            exact .pair hkind (by simp [pairKinds]) hl hr (ih ha) (ih hb)
          split at h
          · next hname =>
            subst hname
            simp only [bind_eq_ok, Json.required_eq_ok, joinKindOf_eq_ok] at h
            obtain ⟨v, hjoin, k, rfl, a, ⟨l, hl, ha⟩, b, ⟨r, hr, hb⟩, -⟩ := h
            exact .join k hkind hjoin hl hr (ih ha) (ih hb)
          · simp at h
        | _ => simp at h
    | _ => simp [ofJsonWithin] at h

/-- Trees of definitions are what the reader of definitions takes. -/
theorem exists_ofJson_iff {v : Json} : (∃ s, ofJson v = .ok s) ↔ Shape (fun _ => True) v := by
  constructor
  · rintro ⟨s, hs⟩
    exact shape_of_ofJsonWithin hs
  · intro h
    obtain ⟨s, hs, -⟩ := h.exists_ofJsonWithin (Nat.le_refl _)
    exact ⟨s, hs⟩

/-- A definition that is read of texts is plain. -/
theorem Shape.isPlain {v : Json} (h : Shape Json.IsString v) {s : Selector}
    (hs : ofJson v = .ok s) : s.IsPlain := by
  obtain ⟨s', hs', hplain⟩ := h.exists_ofJsonWithin (Nat.le_refl _)
  obtain rfl := Except.ok.inj (hs.symm.trans hs')
  exact hplain fun _ hw => hw

end Selector

end StyleLedger
