import StyleLedger.Proofs.Json.RoundTrip
import StyleLedger.Proofs.Statement

/-!
Stored definitions, declarations and keyframes are read back.

Each is stored as the text of a structured value. When its parts are texts, as statements write
them, that value is plain and its text is read as the value; what is left is that every shape is
recognised by the names of its fields.

* `Selector.ofJson_toJson` — definitions.
* `StoredDeclaration.listOfText_listToText`, `StoredKeyframe.listOfText_listToText` — lists of
  declarations and of keyframes whose parts are texts.
-/

namespace StyleLedger

open Outcome

namespace Selector

/-! ## 1. Definitions -/

mutual

theorem toJson_isPlain : ∀ {s : Selector}, IsPlain s → s.toJson.IsPlain
  | .element v, h | .cls v, h | .id v, h | .pseudo v, h | .pseudoElement v, h
  | .reference v, h => by
    obtain ⟨t, rfl⟩ := h
    simp [toJson, simple, Json.IsPlain, Json.HasPlain]
  | .attr name value operator flag, h => by
    obtain ⟨⟨n, rfl⟩, rfl | ⟨v, rfl⟩, rfl | ⟨o, rfl⟩, rfl | ⟨f, rfl⟩⟩ := h <;>
      simp [toJson, optionalField, Json.isNull, Json.IsPlain, Json.HasPlain]
  | .and parts, h | .or parts, h => by
    have := toJsons_arePlain h
    simp [toJson, Json.IsPlain, Json.HasPlain, this]
  | .child p c, h | .descendant p c, h | .join _ p c, h => by
    have hp := toJson_isPlain h.1
    have hc := toJson_isPlain h.2
    simp [toJson, Json.IsPlain, Json.HasPlain, hp, hc]

theorem toJsons_arePlain : ∀ {ss : List Selector}, ArePlain ss → Json.ArePlain (toJsons ss)
  | [], _ => trivial
  | _ :: _, h => ⟨toJson_isPlain h.1, toJsons_arePlain h.2⟩

end

/-! The reader of definitions goes one level down per step, so the depth of a written definition
is enough for it. -/

theorem ofJsonWithin_simple {make : Json → Selector} {kind : String}
    (h : ofSimple? kind = some make) (depth : Nat) (v : Json) :
    ofJsonWithin (depth + 1) (simple kind v) = .ok (make v) := by
  simp [simple, ofJsonWithin, Json.optional, Json.required, Json.field?, Table.lookup, h]

theorem joinKindOf_name (k : JoinKind) : joinKindOf (.text k.name) = .ok k := by
  cases k <;> simp [joinKindOf, JoinKind.ofName?, JoinKind.name]

mutual

theorem ofJsonWithin_toJson : ∀ {s : Selector} (depth : Nat), IsPlain s → s.toJson.depth ≤ depth →
    ofJsonWithin depth s.toJson = .ok s
  | .element v, depth + 1, _, _ | .cls v, depth + 1, _, _ | .id v, depth + 1, _, _
  | .pseudo v, depth + 1, _, _ | .pseudoElement v, depth + 1, _, _ =>
    ofJsonWithin_simple rfl depth v
  | .reference v, depth + 1, _, _ => by
    simp [toJson, ofJsonWithin, Json.optional, Json.required, Json.field?, Table.lookup, ofSimple?]
  | .attr name value operator flag, depth + 1, h, _ => by
    obtain ⟨⟨n, rfl⟩, rfl | ⟨v, rfl⟩, rfl | ⟨o, rfl⟩, rfl | ⟨f, rfl⟩⟩ := h <;>
      simp [toJson, optionalField, Json.isNull, ofJsonWithin, Json.optional, Json.required,
        Json.field?, Table.lookup, ofSimple?, bind, Except.bind, pure, Except.pure]
  | .and parts, depth + 1, h, hdepth | .or parts, depth + 1, h, hdepth => by
    simp only [toJson, Json.depth, Json.depthFields] at hdepth
    have hparts := ofJsonWithin_toJsons depth h (by omega)
    simp [toJson, ofJsonWithin, Json.optional, Json.required, Json.field?, Table.lookup, ofSimple?,
      Json.asItems, hparts, bind, Except.bind, Functor.map, Except.map]
  | .child p c, depth + 1, h, hdepth | .descendant p c, depth + 1, h, hdepth
  | .join _ p c, depth + 1, h, hdepth => by
    simp only [toJson, Json.depth, Json.depthFields] at hdepth
    have hp := ofJsonWithin_toJson depth h.1 (by omega)
    have hc := ofJsonWithin_toJson depth h.2 (by omega)
    simp [toJson, ofJsonWithin, Json.optional, Json.required, Json.field?, Table.lookup, ofSimple?,
      joinKindOf_name, hp, hc, bind, Except.bind, pure, Except.pure]

theorem ofJsonWithin_toJsons : ∀ {ss : List Selector} (depth : Nat), ArePlain ss →
    Json.depthItems (toJsons ss) ≤ depth → (toJsons ss).mapM (ofJsonWithin depth) = .ok ss
  | [], _, _, _ => rfl
  | s :: ss, depth, h, hdepth => by
    simp only [toJsons, Json.depthItems] at hdepth
    have hs := ofJsonWithin_toJson depth h.1 (by omega)
    have hss := ofJsonWithin_toJsons depth h.2 (by omega)
    simp [toJsons, List.mapM_cons, hs, hss, bind, Except.bind, pure, Except.pure]

end

/-- A stored definition is read back. -/
theorem ofJson_toJson {s : Selector} (h : IsPlain s) : ofJson s.toJson = .ok s :=
  ofJsonWithin_toJson _ h (Nat.le_refl _)

end Selector

/-! ## 2. Declarations and keyframes -/

theorem Json.write_isTrue {v : Json} (h : v.IsPlain) : (Json.text v.write).isTrue = true := by
  obtain ⟨c, cs, heq, -⟩ := exists_encode_eq h
  simp [Json.isTrue, Json.write, heq]

/-- The text of a plain value in a cell is read, and is not taken for an absent one. -/
theorem Json.ofCell_write {v : Json} (h : v.IsPlain) (other : Json) :
    Json.ofCell ((Json.text v.write).orElse other) = .ok v := by
  rw [Json.orElse, if_pos (Json.write_isTrue h)]
  exact Json.ofText_write h

theorem Json.arePlain_map {α : Type} {f : α → Json} {xs : List α} (h : ∀ x ∈ xs, (f x).IsPlain) :
    Json.ArePlain (xs.map f) := by
  induction xs with
  | nil => trivial
  | cons x xs ih =>
    exact ⟨h x List.mem_cons_self, ih fun y hy => h y (List.mem_cons_of_mem x hy)⟩

namespace StoredDeclaration

/-- The name and the value are texts. -/
def IsPlain (d : StoredDeclaration) : Prop :=
  d.name.IsString ∧ d.value.IsString

theorem toJson_isPlain {d : StoredDeclaration} (h : d.IsPlain) : d.toJson.IsPlain := by
  obtain ⟨⟨n, hn⟩, v, hv⟩ := h
  simp [toJson, hn, hv, Json.IsPlain, Json.HasPlain]

theorem ofJson_toJson (d : StoredDeclaration) : ofJson d.toJson = .ok d := by
  simp [toJson, ofJson, Json.required, Json.field?, Table.lookup, bind, Except.bind, pure,
    Except.pure]

theorem listOfJson_toJson (ds : List StoredDeclaration) :
    listOfJson (.array (ds.map toJson)) = .ok ds :=
  mapM_map_eq_ok fun d _ => ofJson_toJson d

/-- A stored list of declarations is read back. -/
theorem listOfText_listToText {ds : List StoredDeclaration} (h : ∀ d ∈ ds, d.IsPlain) :
    listOfText (.text (listToText ds)) = .ok ds := by
  have hplain : (Json.array (ds.map toJson)).IsPlain :=
    Json.arePlain_map fun d hd => toJson_isPlain (h d hd)
  rw [listOfText, listToText, Json.ofCell_write hplain]
  exact listOfJson_toJson ds

end StoredDeclaration

namespace StoredKeyframe

/-- The offset and all declarations are texts. -/
def IsPlain (f : StoredKeyframe) : Prop :=
  f.offset.IsString ∧ ∀ d ∈ f.declarations, d.IsPlain

theorem toJson_isPlain {f : StoredKeyframe} (h : f.IsPlain) : f.toJson.IsPlain := by
  obtain ⟨⟨o, ho⟩, hds⟩ := h
  have := Json.arePlain_map fun d hd => StoredDeclaration.toJson_isPlain (hds d hd)
  simp [toJson, ho, Json.IsPlain, Json.HasPlain, this]

theorem ofJson_toJson (f : StoredKeyframe) : ofJson f.toJson = .ok f := by
  have hds := StoredDeclaration.listOfJson_toJson f.declarations
  simp [toJson, ofJson, Json.required, Json.field?, Table.lookup, hds, bind, Except.bind, pure,
    Except.pure]

/-- A stored list of keyframes is read back. -/
theorem listOfText_listToText {fs : List StoredKeyframe} (h : ∀ f ∈ fs, f.IsPlain) :
    listOfText (.text (listToText fs)) = .ok fs := by
  have hplain : (Json.array (fs.map toJson)).IsPlain :=
    Json.arePlain_map fun f hf => toJson_isPlain (h f hf)
  rw [listOfText, listToText, Json.ofCell_write hplain]
  exact mapM_map_eq_ok fun f _ => ofJson_toJson f

end StoredKeyframe

end StyleLedger
