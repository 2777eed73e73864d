import Mathlib.Data.List.Induction
import Mathlib.Data.List.Perm.Basic
import StyleLedger.Proofs.Sheet.Texts
import StyleLedger.Proofs.Source.Evaluation
import StyleLedger.Proofs.Store.Anchored
import StyleLedger.Sheet.Plan

/-!
Where the rules of a style sheet stand in its text.

A sheet lists its rules in bucket order. Its text divides them twice: by layer, in an order that
comes from three sources and is made free of repetitions, and inside a layer by scope, in the order
in which the scopes are met. The text is here cut into parts, whose lines are written out, and the
parts are compared with the rules: none is lost, repeated or put into a wrong part, and each part
keeps the order of its rules.

Both divisions list their keys in the order of first mention, so one predicate serves for both. It
is proved for a growing list of mentions, one mention at a time.

* `FirstMentions` — the items of a list, each once, in the order of first mention.
* `Table.IsGrouping` — what groups are, compared with the list they are made from.
* `SheetRule.IsFor` — what a rule has from its bucket.
* `LayerPart`, `ScopePart` — the parts of a text that hold rules.
* `IsArrangement` — rules that are arranged in parts.
-/

namespace StyleLedger

open Keyed (key)
open Outcome

/-! ## 1. Lists in the order of first mention -/

section Mentions

variable {α β : Type} [DecidableEq β]

/-- The items of a list, each once, in the order in which they are first mentioned. -/
structure FirstMentions (mentions items : List β) : Prop where
  mem_iff : ∀ x, x ∈ items ↔ x ∈ mentions
  order : items.Pairwise fun x y => mentions.idxOf x < mentions.idxOf y

namespace FirstMentions

variable {mentions items : List β}

theorem nil : FirstMentions ([] : List β) [] :=
  ⟨fun _ => Iff.rfl, List.Pairwise.nil⟩

theorem nodup (h : FirstMentions mentions items) : items.Nodup :=
  h.order.imp fun hlt heq => by simp [heq] at hlt

/-- A further mention at the end moves none of those before. -/
theorem order_append (h : FirstMentions mentions items) (more : List β) :
    items.Pairwise fun x y => (mentions ++ more).idxOf x < (mentions ++ more).idxOf y := by
  refine h.order.imp_of_mem fun hx hy hlt => ?_
  rwa [List.idxOf_append_of_mem ((h.mem_iff _).1 hx), List.idxOf_append_of_mem ((h.mem_iff _).1 hy)]

/-- Another mention of a known item changes nothing. -/
theorem again (h : FirstMentions mentions items) {x : β} (hx : x ∈ mentions) :
    FirstMentions (mentions ++ [x]) items := by
  refine ⟨fun y => ?_, h.order_append [x]⟩
  rw [h.mem_iff, List.mem_append, List.mem_singleton]
  exact ⟨.inl, fun hy => hy.elim (fun hy => hy) fun hyx => hyx ▸ hx⟩

/-- A new item goes to the end. -/
theorem new (h : FirstMentions mentions items) {x : β} (hx : x ∉ mentions) :
    FirstMentions (mentions ++ [x]) (items ++ [x]) := by
  refine ⟨fun y => by simp [h.mem_iff], List.pairwise_append.2
    ⟨h.order_append [x], List.pairwise_singleton _ _, fun y hy z hz => ?_⟩⟩
  have hy : y ∈ mentions := (h.mem_iff y).1 hy
  rw [List.mem_singleton.1 hz, List.idxOf_append_of_mem hy, List.idxOf_append_of_notMem hx]
  exact Nat.lt_add_right _ (List.idxOf_lt_length_of_mem hy)

end FirstMentions

/-- A list that is divided by a key, each key taken once, is only rearranged. -/
theorem flatMap_filter_perm (f : α → β) : ∀ {ks : List β}, ks.Nodup → ∀ {xs : List α},
    (∀ x ∈ xs, f x ∈ ks) → (ks.flatMap fun k => xs.filter fun x => f x = k).Perm xs
  | [], _, xs, hmem => by
    obtain rfl : xs = [] := List.eq_nil_iff_forall_not_mem.2 fun x hx => by simpa using hmem x hx
    exact List.Perm.nil
  | k :: ks, hks, xs, hmem => by
    obtain ⟨hk, hks⟩ := List.nodup_cons.1 hks
    -- what has another key than the first is divided by the remaining keys
    have hrest : ∀ l ∈ ks, (xs.filter fun x => f x = l) =
        (xs.filter fun x => !decide (f x = k)).filter fun x => f x = l := by
      intro l hl
      rw [List.filter_filter]
      refine List.filter_congr fun x _ => ?_
      by_cases hx : f x = l
      · have hlk : l ≠ k := fun h => hk (h ▸ hl)
        simp [hx, hlk]
      · simp [hx]
    have hmem : ∀ x ∈ xs.filter fun x => !decide (f x = k), f x ∈ ks := fun x hx => by
      obtain ⟨hx, hne⟩ := List.mem_filter.1 hx
      exact (List.mem_cons.1 (hmem x hx)).resolve_left (by simpa using hne)
    have ih := flatMap_filter_perm f hks hmem
    rw [List.flatMap_cons, List.flatMap_congr hrest]
    exact (ih.append_left _).trans (List.filter_append_perm _ xs)

end Mentions

/-! ## 2. Groups -/

namespace Table

variable {κ α : Type} [DecidableEq κ] [Keyed κ]

/-- A table of groups: its keys are those of the items, in the order of first mention, and each
group holds the items of its key in their order. -/
structure IsGrouping (f : α → κ) (xs : List α) (t : Table κ (List α)) : Prop where
  keys : FirstMentions (xs.map fun x => key (f x)) (t.entries.map fun e => key e.1)
  group : ∀ e ∈ t.entries, e.2 = xs.filter fun x => key (f x) = key e.1

namespace IsGrouping

variable {f : α → κ} {xs : List α} {t : Table κ (List α)}

theorem isDistinct (h : IsGrouping f xs t) : t.IsDistinct :=
  List.pairwise_map.1 h.keys.nodup

/-- The group that an item belongs to, as far as it has been made. -/
theorem get?_getD (h : IsGrouping f xs t) (x : α) :
    (t.get? (f x)).getD [] = xs.filter fun y => key (f y) = key (f x) := by
  cases hget : t.get? (f x) with
  | some g =>
    obtain ⟨l, hl, hmem⟩ := lookup_mem hget
    have hgroup : g = xs.filter fun y => key (f y) = key l := h.group (l, g) hmem
    rw [Option.getD_some, hgroup, hl]
  | none =>
    refine (List.filter_eq_nil_iff.2 fun y hy hyx => ?_).symm
    have hkey : key (f x) ∈ t.entries.map fun e => key e.1 :=
      (h.keys.mem_iff _).2 (List.mem_map.2 ⟨y, hy, of_decide_eq_true hyx⟩)
    obtain ⟨e, he, hex⟩ := List.mem_map.1 hkey
    have hsome : (t.get? (f x)).isSome := isSome_get?_iff.2 ⟨e, he, hex⟩
    simp [hget] at hsome

/-- One more item goes to the end of its group. -/
theorem concat (h : IsGrouping f xs t) (x : α) :
    IsGrouping f (xs ++ [x]) (t.put (f x) ((t.get? (f x)).getD [] ++ [x])) := by
  constructor
  · have hkeys := congrArg (List.map key) (keys_put t (f x) ((t.get? (f x)).getD [] ++ [x]))
    simp only [Table.keys, List.map_map] at hkeys
    rw [List.map_append, List.map_singleton]
    show FirstMentions _ (List.map (key ∘ Prod.fst) _)
    rw [hkeys]
    split
    · next hsome =>
      obtain ⟨e, he, hex⟩ := isSome_get?_iff.1 hsome
      rw [List.map_map]
      exact h.keys.again ((h.keys.mem_iff _).1 (List.mem_map.2 ⟨e, he, hex⟩))
    · next hnone =>
      rw [List.map_append, List.map_map, List.map_singleton]
      refine h.keys.new fun hmem => hnone ?_
      obtain ⟨e, he, hex⟩ := List.mem_map.1 ((h.keys.mem_iff _).2 hmem)
      exact isSome_get?_iff.2 ⟨e, he, hex⟩
  · intro e he
    rw [List.filter_append]
    rcases h.isDistinct.mem_put he with ⟨hkey, hvalue⟩ | ⟨hold, hkey⟩
    · rw [hvalue, h.get?_getD, hkey]
      simp
    · rw [h.group e hold]
      simp [Ne.symm hkey]

end IsGrouping

/-- The groups of a list group it. -/
theorem isGrouping_groups (f : α → κ) (xs : List α) : IsGrouping f xs ⟨groups f xs⟩ := by
  induction xs using List.reverseRecOn with
  | nil => exact ⟨.nil, by simp [groups, empty]⟩
  | append_singleton xs x ih =>
    have hgroups : (⟨groups f (xs ++ [x])⟩ : Table κ (List α)) =
        Table.put ⟨groups f xs⟩ (f x) ((Table.get? ⟨groups f xs⟩ (f x)).getD [] ++ [x]) := by
      simp only [groups, List.foldl_append, List.foldl_cons, List.foldl_nil]
    rw [hgroups]
    exact ih.concat x

end Table

/-! ## 3. The order of the layers -/

namespace Sheet

theorem distinct_concat (xs : List Json) (x : Json) : distinct (xs ++ [x]) =
    if (distinct xs).any x.alike then distinct xs else distinct xs ++ [x] := by
  rw [distinct, List.foldl_append]
  rfl

/-- A list is made free of repetitions by keeping first mentions. -/
theorem firstMentions_distinct (xs : List Json) :
    FirstMentions (xs.map key) ((distinct xs).map key) := by
  induction xs using List.reverseRecOn with
  | nil => exact .nil
  | append_singleton xs x ih =>
    have hseen : (distinct xs).any x.alike = true ↔ key x ∈ xs.map key := by
      rw [← ih.mem_iff, List.any_eq_true, List.mem_map]
      exact exists_congr fun y => and_congr_right fun _ => by
        simp only [Json.alike, decide_eq_true_eq]
        exact eq_comm
    rw [distinct_concat, List.map_append, List.map_singleton]
    split
    · next hany => exact ih.again (hseen.1 hany)
    · next hany =>
      rw [List.map_append, List.map_singleton]
      exact ih.new fun hmem => hany (hseen.2 hmem)

/-- The layers that are mentioned anywhere: as a default, by a declaration, by a bucket. -/
def layerMentions (s : Cascade) (config : CompilerConfig) : List Json :=
  config.defaultLayers.map .text ++ s.layers.declared ++
    (s.buckets.buckets.keys.map (·.layer)).filter (!·.isNull)

end Sheet

/-! ## 4. Rules and buckets -/

/-- A rule is for a bucket: it stands in the layer of the bucket, its selector and its scope are
what the names in the key of the bucket stand for, and it has a declaration for each property. -/
structure SheetRule.IsFor (r : SheetRule) (s : Cascade) (k : BucketKey) (b : Bucket) : Prop where
  selector : r.selector = s.selectorCell k.selector
  layer : r.layer = k.layer
  scopeRoot : r.scopeRoot = if k.scopeRoot.isTrue then s.selectorCell k.scopeRoot else .null
  scopeLimit : r.scopeLimit = if k.scopeLimit.isTrue then s.selectorCell k.scopeLimit else .null
  descriptor : r.descriptor = k.descriptor
  names : r.declarations.map (·.name) =
    b.properties.entries.map fun p => Value.cssName p.1.shown

theorem Sheet.isFor_ruleOf (s : Cascade) (config : CompilerConfig) (k : BucketKey) (b : Bucket) :
    (Sheet.ruleOf s config k b).IsFor s k b where
  selector := rfl
  layer := rfl
  scopeRoot := rfl
  scopeLimit := rfl
  descriptor := rfl
  names := List.map_map

/-! ## 5. The parts of a text -/

/-- Rules that are written together because they have one scope. -/
structure ScopePart where
  scope : Json × Json
  rules : List SheetRule

namespace ScopePart

open Sheet (headLine endLine scopeText)

/-- Rules outside any scope are bare, all others stand under one header. -/
def lines (p : ScopePart) : List String :=
  if p.scope = (.null, .null) then p.rules.flatMap (·.lines [""] 0)
  else headLine 0 (scopeText p.scope) :: (p.rules.flatMap (·.lines [] 1) ++ [endLine 0, ""])

theorem lines_mk (scope : Json × Json) (rules : List SheetRule) :
    lines ⟨scope, rules⟩ = Sheet.scopeLines scope rules := by
  have hbare : Sheet.ruleLines [""] "" = (·.lines [""] 0) :=
    funext fun r => r.ruleLines_eq [""] 0
  have hscoped : Sheet.ruleLines [] Sheet.indentStep = (·.lines [] 1) := by
    rw [← Sheet.indentation_one]
    exact funext fun r => r.ruleLines_eq [] 1
  obtain ⟨root, limit⟩ := scope
  unfold lines Sheet.scopeLines
  split
  · next hscope =>
    obtain ⟨rfl, rfl⟩ := Prod.mk.inj hscope
    rw [hbare]
  · next hscope =>
    split
    · next hnull => exact absurd hnull hscope
    · next heq =>
      obtain ⟨rfl, rfl⟩ := Prod.mk.inj heq
      rw [hscoped, Sheet.scopeHeader_eq]
      rfl

end ScopePart

/-- The rules of a layer, or those outside any layer, divided by scope. -/
structure LayerPart where
  layer : Json
  scopes : List ScopePart

namespace LayerPart

open Sheet (headLine endLine layerText)

/-- The rules of a part, in the order in which they are written. -/
def rules (p : LayerPart) : List SheetRule :=
  p.scopes.flatMap (·.rules)

/-- The scopes of a layer stand inside one block, those outside any layer do not. -/
def lines (p : LayerPart) : List String :=
  if p.layer = .null then p.scopes.flatMap (·.lines)
  else headLine 0 (layerText p.layer) :: (p.scopes.flatMap (·.lines) ++ [endLine 0, ""])

/-- A part divides rules by their scopes: each scope has one place, and there its rules stand in
their order. -/
structure Divides (p : LayerPart) (rules : List SheetRule) : Prop where
  scopes : FirstMentions (rules.map fun r => key r.scope) (p.scopes.map fun q => key q.scope)
  group : ∀ q ∈ p.scopes, q.rules = rules.filter fun r => key r.scope = key q.scope

theorem Divides.perm {p : LayerPart} {rules : List SheetRule} (h : p.Divides rules) :
    p.rules.Perm rules := by
  have hcover : ∀ r ∈ rules, key r.scope ∈ p.scopes.map fun q => key q.scope := fun r hr =>
    (h.scopes.mem_iff _).2 (List.mem_map_of_mem hr)
  have hperm := flatMap_filter_perm (fun r : SheetRule => key r.scope) h.scopes.nodup hcover
  rwa [List.flatMap_map, ← List.flatMap_congr h.group] at hperm

/-- The part of a layer that holds some rules. -/
def ofRules (layer : Json) (rules : List SheetRule) : LayerPart :=
  ⟨layer, (Sheet.scopeGroups rules).map fun e => ⟨e.1, e.2⟩⟩

theorem divides_ofRules (layer : Json) (rules : List SheetRule) :
    (ofRules layer rules).Divides rules := by
  have h := Table.isGrouping_groups SheetRule.scope rules
  refine ⟨?_, fun q hq => ?_⟩
  · rw [ofRules, List.map_map]
    exact h.keys
  · obtain ⟨e, he, rfl⟩ := List.mem_map.1 hq
    exact h.group e he

theorem scopes_lines (layer : Json) (rules : List SheetRule) :
    (ofRules layer rules).scopes.flatMap (·.lines) = Sheet.rulesLines rules := by
  rw [ofRules, List.flatMap_map]
  simp only [ScopePart.lines_mk]
  rfl

end LayerPart

/-- Rules that are arranged in parts, layer by layer; `mentions` are the mentions of layers that
decide on their order. -/
structure IsArrangement (mentions : List Json) (rules : List SheetRule) (unlayered : LayerPart)
    (layers : List LayerPart) : Prop where
  /-- No rule is lost or repeated. -/
  perm : ((unlayered :: layers).flatMap (·.rules)).Perm rules
  /-- The first part is that outside any layer. -/
  outside : unlayered.layer = .null
  /-- The layers that have a part are those in use. -/
  used : ∀ layer : Json, (∃ p ∈ layers, key p.layer = key layer) ↔
    layer ≠ .null ∧ ∃ r ∈ rules, key r.layer = key layer
  /-- Every layer is mentioned. -/
  mentioned : ∀ p ∈ layers, key p.layer ∈ mentions
  /-- The layers stand in the order of their first mentions; hence each has one part. -/
  order : layers.Pairwise fun p q => mentions.idxOf (key p.layer) < mentions.idxOf (key q.layer)
  /-- Each part holds the rules of its layer, divided by scope. -/
  divided : ∀ p ∈ unlayered :: layers, p.Divides (rules.filter fun r => key r.layer = key p.layer)

/-! ## 6. The parts of a sheet -/

namespace Sheet

variable (sheet : Sheet)

/-- The lines before the rules: the imports, the tokens, and the blocks of the preamble. -/
def front : List String :=
  (if sheet.imports = [] then [] else sheet.imports.map importText ++ [""]) ++
    (if sheet.root = [] then [] else nestedLines [""] 0 [":root"] sheet.root) ++
    sheet.preamble.flatMap fun b => blockText 0 b ++ [""]

/-- The lines after the rules. -/
def back : List String :=
  sheet.keyframes.flatMap (fun b => blockText 0 b ++ [""]) ++
    sheet.raw.flatMap fun css => [css.shown, ""]

theorem importLines_eq (imports : List SheetImport) : importLines imports =
    if imports = [] then [] else imports.map importText ++ [""] := by
  cases imports <;> rfl

theorem rootLines_eq (root : List SheetDeclaration) : rootLines root =
    if root = [] then [] else nestedLines [""] 0 [":root"] root := by
  cases root with
  | nil => rfl
  | cons d ds =>
    rw [nestedLines_cons, nestedLines_nil, rootLines, ← indentation_one]
    rfl

theorem blockLines_outer (bs : List SheetBlock) :
    (bs.flatMap fun b => blockLines "" b ++ [""]) = bs.flatMap fun b => blockText 0 b ++ [""] :=
  List.flatMap_congr fun b _ => congrArg (· ++ [""]) (blockLines_eq 0 b)

/-- The part of a layer of a sheet. -/
def partOf (layer : Json) : LayerPart :=
  .ofRules layer (sheet.rulesIn layer)

/-- The parts of the layers in use, in order. -/
def layerParts : List LayerPart :=
  (sheet.layerOrder.filter fun layer => !(sheet.rulesIn layer).isEmpty).map sheet.partOf

/-- The rules of a sheet that are written: those outside any layer, then those of each layer. -/
def writtenRules : List SheetRule :=
  (sheet.partOf .null :: sheet.layerParts).flatMap (·.rules)

theorem rulesIn_eq (layer : Json) :
    sheet.rulesIn layer = sheet.rules.filter fun r => key r.layer = key layer :=
  rfl

theorem lines_partOf_null : (sheet.partOf .null).lines = rulesLines (sheet.rulesIn .null) :=
  LayerPart.scopes_lines .null (sheet.rulesIn .null)

/-- A layer without rules has no lines, any other the lines of its part. -/
theorem layerLines_eq {layer : Json} (hlayer : layer ≠ .null) : sheet.layerLines layer =
    if (sheet.rulesIn layer).isEmpty then [] else (sheet.partOf layer).lines := by
  have hlines : (sheet.partOf layer).lines = headLine 0 (layerText layer) ::
      (rulesLines (sheet.rulesIn layer) ++ [endLine 0, ""]) := by
    rw [← LayerPart.scopes_lines layer]
    exact if_neg hlayer
  rw [hlines, layerLines]
  cases sheet.rulesIn layer <;> rfl

theorem flatMap_layerLines (hnull : ∀ layer ∈ sheet.layerOrder, layer ≠ .null) :
    sheet.layerOrder.flatMap sheet.layerLines = sheet.layerParts.flatMap (·.lines) := by
  rw [layerParts, List.flatMap_map]
  generalize sheet.layerOrder = order at hnull
  induction order with
  | nil => rfl
  | cons layer order ih =>
    obtain ⟨hlayer, hnull⟩ := List.forall_mem_cons.1 hnull
    rw [List.flatMap_cons, ih hnull, layerLines_eq sheet hlayer, List.filter_cons]
    cases (sheet.rulesIn layer).isEmpty <;> simp

/-- The text of a sheet, cut into its parts. -/
theorem lines_eq (hnull : ∀ layer ∈ sheet.layerOrder, layer ≠ .null) : sheet.lines =
    sheet.front ++ (sheet.partOf .null :: sheet.layerParts).flatMap (·.lines) ++ sheet.back := by
  rw [List.flatMap_cons, lines_partOf_null, ← flatMap_layerLines sheet hnull]
  simp only [lines, front, back, importLines_eq, rootLines_eq, blockLines_outer,
    List.append_assoc]

theorem mem_layerParts {p : LayerPart} : p ∈ sheet.layerParts ↔
    ∃ layer ∈ sheet.layerOrder, sheet.rulesIn layer ≠ [] ∧ sheet.partOf layer = p := by
  simp [layerParts, and_assoc]

section Order

variable {sheet} {mentions : List Json}
  (horder : FirstMentions mentions (sheet.layerOrder.map key))
  (hnull : ∀ layer ∈ sheet.layerOrder, layer ≠ .null)
  (hrules : ∀ r ∈ sheet.rules, r.layer ≠ .null → key r.layer ∈ mentions)

include horder hnull hrules

/-- A layer has a part if and only if a rule is in it. -/
theorem exists_mem_layerParts_iff (layer : Json) :
    (∃ p ∈ sheet.layerParts, key p.layer = key layer) ↔
      layer ≠ .null ∧ ∃ r ∈ sheet.rules, key r.layer = key layer := by
  constructor
  · rintro ⟨p, hp, hkey⟩
    obtain ⟨l, hl, hused, rfl⟩ := sheet.mem_layerParts.1 hp
    have hkey : key l = key layer := hkey
    obtain ⟨r, hr⟩ := List.exists_mem_of_ne_nil _ hused
    rw [rulesIn_eq, List.mem_filter] at hr
    refine ⟨?_, r, hr.1, (of_decide_eq_true hr.2).trans hkey⟩
    rintro rfl
    exact hnull l hl (Json.key_eq_null_iff.1 (hkey.trans Json.key_null))
  · rintro ⟨hlayer, r, hr, hkey⟩
    have hmention : key r.layer ∈ mentions := hrules r hr fun h => hlayer
      (Json.key_eq_null_iff.1 (by rw [← hkey, h, Json.key_null]))
    obtain ⟨l, hl, hlr⟩ := List.mem_map.1 ((horder.mem_iff _).2 hmention)
    have hmem : r ∈ sheet.rulesIn l := by
      rw [rulesIn_eq]
      exact List.mem_filter.2 ⟨hr, decide_eq_true hlr.symm⟩
    exact ⟨_, sheet.mem_layerParts.2 ⟨l, hl, List.ne_nil_of_mem hmem, rfl⟩, hlr.trans hkey⟩

/-- The parts of a sheet arrange its rules, if its layers stand in the order of first mention and
every layer of a rule is mentioned. -/
theorem isArrangement_layerParts :
    IsArrangement mentions sheet.rules (sheet.partOf .null) sheet.layerParts := by
  have hused := exists_mem_layerParts_iff horder hnull hrules
  have hsorted : sheet.layerParts.Pairwise fun p q =>
      mentions.idxOf (key p.layer) < mentions.idxOf (key q.layer) :=
    List.pairwise_map.2 ((List.pairwise_map.1 horder.order).sublist List.filter_sublist)
  have hdivided : ∀ p ∈ sheet.partOf .null :: sheet.layerParts,
      p.Divides (sheet.rules.filter fun r => key r.layer = key p.layer) := by
    refine List.forall_mem_cons.2 ⟨LayerPart.divides_ofRules _ _, fun p hp => ?_⟩
    obtain ⟨layer, -, -, rfl⟩ := sheet.mem_layerParts.1 hp
    exact LayerPart.divides_ofRules _ _
  -- the keys of the parts are distinct and reach every rule
  have hnodup : ((sheet.partOf .null :: sheet.layerParts).map fun p => key p.layer).Nodup := by
    rw [List.map_cons, List.nodup_cons]
    refine ⟨fun hmem => ?_, List.pairwise_map.2 (hsorted.imp fun hlt heq => ?_)⟩
    · obtain ⟨p, hp, hkey⟩ := List.mem_map.1 hmem
      exact ((hused .null).1 ⟨p, hp, hkey⟩).1 rfl
    · rw [heq] at hlt
      exact lt_irrefl _ hlt
  have hcover : ∀ r ∈ sheet.rules,
      key r.layer ∈ (sheet.partOf .null :: sheet.layerParts).map fun p => key p.layer := by
    intro r hr
    by_cases hlayer : r.layer = .null
    · rw [hlayer]
      exact List.mem_cons_self
    · obtain ⟨p, hp, hkey⟩ := (hused r.layer).2 ⟨hlayer, r, hr, rfl⟩
      exact List.mem_cons_of_mem _ (List.mem_map.2 ⟨p, hp, hkey⟩)
  have hperm := flatMap_filter_perm (fun r : SheetRule => key r.layer) hnodup hcover
  rw [List.flatMap_map] at hperm
  exact
    { perm := (List.Perm.flatMap_left _ fun p hp => (hdivided p hp).perm).trans hperm
      outside := rfl
      used := hused
      mentioned := fun p hp => by
        obtain ⟨layer, hlayer, -, rfl⟩ := sheet.mem_layerParts.1 hp
        exact (horder.mem_iff _).1 (List.mem_map_of_mem hlayer)
      order := hsorted
      divided := hdivided }

end Order

end Sheet

/-! ## 7. Layers that statements declare -/

namespace LayerRegistry

/-- What is declared is what was, and some of the names. -/
theorem mem_declare {r : LayerRegistry} {names : List Json} {p : Provenance} {n : Json}
    (hn : n ∈ (r.declare names p).declared) : n ∈ r.declared ∨ n ∈ names := by
  unfold declare at hn
  induction names generalizing r with
  | nil => exact .inl hn
  | cons name names ih =>
    rcases ih hn with hold | hnames
    · simp only [declareOne] at hold
      split at hold
      · exact .inl (declared_encounter r name p ▸ hold)
      · rcases List.mem_append.1 hold with hold | hnew
        · exact .inl (declared_encounter r name p ▸ hold)
        · exact .inr (List.mem_singleton.1 hnew ▸ List.mem_cons_self)
    · exact .inr (List.mem_cons_of_mem _ hnames)

end LayerRegistry

namespace Cascade

variable {s t : Cascade}

/-- Everything that a statement can do to the layers: nothing, declaring some, or taking note of
one. -/
theorem layers_of_step {ctx ctx' : Context} {stmt : Statement}
    (h : step ctx s stmt = .ok (ctx', t)) :
    t.layers = s.layers ∨
      (∃ names : List String, t.layers = s.layers.declare (names.map .text) ctx.provenance) ∨
      ∃ name : String, t.layers = s.layers.encounter (.text name) ctx.provenance := by
  have hwrite : ∀ {target mode ds}, s.writeStyle ctx target mode ds = .ok (ctx', t) →
      t.layers = s.layers := by
    intro target mode ds h
    simp only [writeStyle, bind_eq_ok, pure_eq_ok, Prod.mk.injEq] at h
    obtain ⟨wrappers, -, -, rfl⟩ := h
    rw [mentions_eq]
  cases stmt with
  | createStyle target ds | alterStyle target mode ds => exact .inl (hwrite h)
  | createLayers names =>
    obtain ⟨rfl, rfl⟩ := Prod.mk.inj (Except.ok.inj h)
    exact .inr (.inl ⟨names, rfl⟩)
  | setLayer name =>
    obtain ⟨rfl, rfl⟩ := Prod.mk.inj (Except.ok.inj h)
    exact .inr (.inr ⟨name, rfl⟩)
  | dropToken name | deleteToken name =>
    obtain ⟨rfl, rfl⟩ := Prod.mk.inj (Except.ok.inj h)
    exact .inl (by rw [deleteToken_eq])
  | dropSelector name =>
    obtain ⟨rfl, rfl⟩ := Prod.mk.inj (Except.ok.inj h)
    exact .inl (by rw [deleteSelector_eq])
  | createStartingStyle selector ds =>
    obtain ⟨rfl, rfl⟩ := Prod.mk.inj (Except.ok.inj h)
    exact .inl (by rw [referenceSelector_eq])
  | _ =>
    obtain ⟨rfl, rfl⟩ := Prod.mk.inj (Except.ok.inj h)
    exact .inl rfl

/-- Every layer that a statement declares is a text. -/
theorem isString_declared_step {ctx ctx' : Context} {stmt : Statement}
    (hs : ∀ n ∈ s.layers.declared, n.IsString) (h : step ctx s stmt = .ok (ctx', t)) :
    ∀ n ∈ t.layers.declared, n.IsString := by
  intro n hn
  rcases layers_of_step h with hsame | ⟨names, hdeclare⟩ | ⟨name, hencounter⟩
  · exact hs n (hsame ▸ hn)
  · rw [hdeclare] at hn
    rcases LayerRegistry.mem_declare hn with hold | hnames
    · exact hs n hold
    · obtain ⟨name, -, rfl⟩ := List.mem_map.1 hnames
      exact Json.isString_text name
  · rw [hencounter, LayerRegistry.declared_encounter] at hn
    exact hs n hn

/-- The layers that are read back as declared are among those that were stored. -/
theorem IsTyped.isString_declared_reload {log : List LogEntry} (h : s.IsTyped)
    (hreload : (Snapshot.ofCascade s log).toCascade = .ok t) :
    ∀ n ∈ t.layers.declared, n.IsString := by
  simp only [Snapshot.toCascade, bind_eq_ok, pure_eq_ok] at hreload
  obtain ⟨_, -, _, -, layers, hlayers, _, -, _, -, _, -, _, -, _, -, _, -, _, -, _, -, _, -, _, -,
    _, -, rfl⟩ := hreload
  simp only [Snapshot.layerRegistry, Snapshot.sortedBy, bind_eq_ok, pure_eq_ok] at hlayers
  obtain ⟨_, -, _, ⟨-, -, rfl⟩, rfl⟩ := hlayers
  intro n hn
  obtain ⟨row, hrow, rfl⟩ := List.mem_map.1 hn
  have hmem := List.mem_of_mem_filter (List.mem_mergeSort.1 hrow)
  obtain ⟨e, he, rfl⟩ := List.mem_map.1 hmem
  rw [(Snapshot.get_layerRow s.layers e.1 e.2).1]
  exact (h.layers e he).1

namespace IsReachable

variable {migrations : List String} {ctx : Context}

theorem isString_declared (h : IsReachable migrations ctx s) :
    ∀ n ∈ s.layers.declared, n.IsString := by
  induction h with
  | start => simp
  | file _ _ _ ih => exact ih
  | statement _ _ hstep ih => exact isString_declared_step ih hstep
  | reload hprevious hreload _ => exact hprevious.isTyped.isString_declared_reload hreload

/-- In the text of a style sheet no rule is lost, repeated or misplaced. There is one rule for each
bucket that holds something, with the layer and the scope of the bucket. The rules outside any layer
come first. Then each layer in use has one block, in the order of the default layers, the declared
ones and those of the buckets; and in each of these parts the rules of one scope stand together, in
bucket order, under one header or bare. -/
theorem exists_arrangement (h : IsReachable migrations ctx s) (config : CompilerConfig) :
    ∃ unlayered layers,
      (Sheet.ofCascade s config).render = "\n".intercalate
        ((Sheet.ofCascade s config).front ++ (unlayered :: layers).flatMap (·.lines) ++
          (Sheet.ofCascade s config).back) ∧
      List.Forall₂ (fun r e => r.IsFor s e.1 e.2) (Sheet.ofCascade s config).rules
        (s.buckets.buckets.entries.filter fun e => e.2.properties.entries ≠ []) ∧
      IsArrangement ((Sheet.layerMentions s config).map key) (Sheet.ofCascade s config).rules
        unlayered layers := by
  have horder := Sheet.firstMentions_distinct (Sheet.layerMentions s config)
  have hnull : ∀ layer ∈ (Sheet.ofCascade s config).layerOrder, layer ≠ .null := by
    rintro layer hlayer rfl
    have hmention : Json.null ∈ Sheet.layerMentions s config := by
      obtain ⟨l, hl, hkey⟩ := List.mem_map.1 ((horder.mem_iff _).1 (List.mem_map_of_mem hlayer))
      exact Json.key_eq_null_iff.1 (hkey.trans Json.key_null) ▸ hl
    rcases List.mem_append.1 hmention with hmention | hbucket
    · rcases List.mem_append.1 hmention with hdefault | hdeclared
      · simp at hdefault
      · obtain ⟨text, htext⟩ := h.isString_declared _ hdeclared
        simp at htext
    · simp [Json.isNull] at hbucket
  have hrules : ∀ r ∈ (Sheet.ofCascade s config).rules, r.layer ≠ .null →
      key r.layer ∈ (Sheet.layerMentions s config).map key := by
    intro r hr hlayer
    obtain ⟨⟨k, b⟩, he, rfl⟩ := List.mem_map.1 hr
    have hfilled : (!k.layer.isNull) = true := by
      change k.layer ≠ .null at hlayer
      cases hcell : k.layer <;> simp_all [Json.isNull]
    exact List.mem_map_of_mem (List.mem_append_right _ (List.mem_filter.2
      ⟨List.mem_map_of_mem (Table.mem_keys_of_mem (List.mem_of_mem_filter he)), hfilled⟩))
  have hfull : Sheet.fullBuckets s =
      s.buckets.buckets.entries.filter fun e => e.2.properties.entries ≠ [] :=
    List.filter_congr fun e _ => by
      cases hentries : e.2.properties.entries <;> simp [Table.isEmpty, hentries]
  have hfor : List.Forall₂ (fun r e => r.IsFor s e.1 e.2) (Sheet.ofCascade s config).rules
      (Sheet.fullBuckets s) :=
    List.forall₂_map_left_iff.2 (List.forall₂_same.2 fun e _ => Sheet.isFor_ruleOf s config e.1 e.2)
  refine ⟨(Sheet.ofCascade s config).partOf .null, (Sheet.ofCascade s config).layerParts, ?_,
    hfull ▸ hfor, Sheet.isArrangement_layerParts horder hnull hrules⟩
  rw [Sheet.render, Sheet.lines_eq _ hnull]

/-- A rule outside any layer and two layers, in one of which a scope with a limit has two rules
around one of the scope without it. -/
def layeredScope : String :=
  "CREATE STYLE SELECTOR a (b = c);
   SET LAYER = z; CREATE STYLE SELECTOR a (b = d);
   SET LAYER = m; CREATE STYLE SELECTOR a SCOPED TO r LIMIT t (b = e);
   CREATE STYLE SELECTOR a SCOPED TO r (b = f);
   ALTER STYLE SELECTOR a SCOPED TO r LIMIT t WHERE width >= 9px SET b = g;"

/-- Its lines where the second layer is a default one. -/
def layeredScopeLines : List String :=
  [".a \x7b", "  b: c;", "\x7d", "",
    "@layer m \x7b",
    "@scope (.r) to (.t) \x7b",
    "  .a \x7b", "    b: e;", "  \x7d",
    "  @media (min-width: 9px) \x7b", "    .a \x7b", "      b: g;", "    \x7d", "  \x7d",
    "\x7d", "",
    "@scope (.r) \x7b", "  .a \x7b", "    b: f;", "  \x7d", "\x7d", "",
    "\x7d", "",
    "@layer z \x7b",
    ".a \x7b", "  b: d;", "\x7d", "",
    "\x7d", ""]

/-- The second layer comes first because it is a default one, though only once, and the rules of its
scope with the limit stand together. -/
theorem exists_arrangement_pair : ∃ stmts, Source.parse layeredScope false = .ok stmts ∧
    let s := (Cascade.run {} {} stmts).state
    let sheet := Sheet.ofCascade s { defaultLayers := ["m", "m"] }
    sheet.rules.map (·.layer) = [.null, .text "z", .text "m", .text "m", .text "m"] ∧
      sheet.render = "\n".intercalate layeredScopeLines ∧
      ∃ unlayered layers,
        sheet.render = "\n".intercalate
          (sheet.front ++ (unlayered :: layers).flatMap (·.lines) ++ sheet.back) ∧
        List.Forall₂ (fun r e => r.IsFor s e.1 e.2) sheet.rules
          (s.buckets.buckets.entries.filter fun e => e.2.properties.entries ≠ []) ∧
        IsArrangement ((Sheet.layerMentions s { defaultLayers := ["m", "m"] }).map key) sheet.rules
          unlayered layers := by
  obtain ⟨stmts, hparse, hfacts⟩ := exists_ok_of_any (x := Source.parse layeredScope false)
    (p := fun stmts =>
      let sheet := Sheet.ofCascade (Cascade.run {} {} stmts).state { defaultLayers := ["m", "m"] }
      decide (sheet.rules.map (·.layer) = [.null, .text "z", .text "m", .text "m", .text "m"] ∧
        sheet.lines = layeredScopeLines))
    (by
      unfold layeredScope
      rw [Source.parse_ofList]
      decide +kernel)
  obtain ⟨hlayers, hlines⟩ := of_decide_eq_true hfacts
  have hparsed : ∀ stmt ∈ stmts, stmt.IsParsed := fun stmt hstmt => ⟨_, _, stmts, hparse, hstmt⟩
  have hstart : IsReachable [adhocMigration] {} {} := .start {} (by decide)
  exact ⟨stmts, hparse, hlayers, congrArg "\n".intercalate hlines,
    exists_arrangement (hstart.run hparsed) { defaultLayers := ["m", "m"] }⟩

end IsReachable

end Cascade

end StyleLedger
