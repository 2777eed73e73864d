import Mathlib.Data.Prod.Lex
import StyleLedger.Proofs.Sheet.Emission
import StyleLedger.Proofs.Source.Evaluation
import StyleLedger.Proofs.Store.Reloaded
import StyleLedger.Query

/-!
The order in which questions are answered, and the order of the text.

A question for a selector is answered with rules in bucket order. The text of the sheet has the same
rules in another order: it is a stable sort of the bucket order, first by the place of the layer and
then by the place of the scope in that layer (`Sheet.IsLayered.writtenRules_eq`). The two orders of
an answer agree when no rule stands behind one of a later place, and not otherwise; and so it is for
the last rule that says something of a property (`Cascade.IsReachable.answers_in_bucket_order`).

* `sortedBy` — a list, sorted stably by rank; it is the only such list (`eq_sortedBy`).
* `Sheet.place` — where a rule stands; `Sheet.writtenRules` has the rules in this order.
* `lastHolder?` — the rule that decides on the final value of a property.
-/

namespace StyleLedger

open Keyed (key)
open Outcome

/-! ## 1. Stable sorts -/

section Stable

variable {α β : Type} [LinearOrder β] (rank : α → β)

/-- A list, sorted stably by rank. -/
def sortedBy (xs : List α) : List α :=
  xs.mergeSort fun x y => rank x ≤ rank y

variable {rank} {xs ys : List α}

theorem sortedBy_perm (xs : List α) : (sortedBy rank xs).Perm xs :=
  List.mergeSort_perm _ _

theorem pairwise_sortedBy (xs : List α) :
    (sortedBy rank xs).Pairwise fun x y => rank x ≤ rank y := by
  have hsorted : (sortedBy rank xs).Pairwise fun x y => decide (rank x ≤ rank y) = true :=
    List.pairwise_mergeSort
      (fun x y z hxy hyz => decide_eq_true ((of_decide_eq_true hxy).trans (of_decide_eq_true hyz)))
      (fun x y => by simpa using le_total (rank x) (rank y)) xs
  exact hsorted.imp fun hle => of_decide_eq_true hle

/-- Items of one rank keep their order. -/
theorem sublist_sortedBy (xs : List α) (b : β) :
    (xs.filter fun x => rank x = b).Sublist (sortedBy rank xs) := by
  refine List.sublist_mergeSort
    (fun x y z hxy hyz => decide_eq_true ((of_decide_eq_true hxy).trans (of_decide_eq_true hyz)))
    (fun x y => by simpa using le_total (rank x) (rank y)) ?_ List.filter_sublist
  refine List.pairwise_of_forall_mem_list fun x hx y hy => decide_eq_true (le_of_eq ?_)
  rw [of_decide_eq_true (List.mem_filter.1 hx).2, of_decide_eq_true (List.mem_filter.1 hy).2]

/-- Two sorted lists with the same items of each rank, in the same order, are the same. -/
theorem eq_of_pairwise_of_filter : ∀ {xs ys : List α},
    (xs.Pairwise fun x y => rank x ≤ rank y) → (ys.Pairwise fun x y => rank x ≤ rank y) →
    (∀ b, (xs.filter fun x => rank x = b) = ys.filter fun y => rank y = b) → xs = ys
  | [], ys, _, _, hfilter => by
    refine (List.eq_nil_iff_forall_not_mem.2 fun y hy => ?_).symm
    have hmem : y ∈ ys.filter fun z => rank z = rank y := List.mem_filter.2 ⟨hy, by simp⟩
    rw [← hfilter] at hmem
    exact List.not_mem_nil hmem
  | x :: xs, [], _, _, hfilter => by simpa using hfilter (rank x)
  | x :: xs, y :: ys, hxs, hys, hfilter => by
    rw [List.pairwise_cons] at hxs hys
    -- each head occurs in the other list, so neither rank is below the other
    have hx : x ∈ (y :: ys).filter fun z => rank z = rank x := by
      rw [← hfilter]
      simp
    have hy : y ∈ (x :: xs).filter fun z => rank z = rank y := by
      rw [hfilter]
      simp
    have hrank : rank x = rank y := by
      refine le_antisymm ?_ ?_
      · rcases List.mem_cons.1 (List.mem_filter.1 hy).1 with rfl | hy
        · exact le_rfl
        · exact hxs.1 y hy
      · rcases List.mem_cons.1 (List.mem_filter.1 hx).1 with rfl | hx
        · exact le_rfl
        · exact hys.1 x hx
    have hhead := hfilter (rank x)
    simp only [List.filter_cons, hrank, decide_true, if_true, List.cons.injEq] at hhead
    obtain ⟨rfl, -⟩ := hhead
    refine congrArg (x :: ·) (eq_of_pairwise_of_filter hxs.2 hys.2 fun b => ?_)
    have hb := hfilter b
    simp only [List.filter_cons] at hb
    split at hb
    · exact (List.cons.inj hb).2
    · exact hb

/-- A sorted list that has the items of another one, those of one rank in their order, is its stable
sort. -/
theorem eq_sortedBy (hperm : ys.Perm xs) (hsorted : ys.Pairwise fun x y => rank x ≤ rank y)
    (hsub : ∀ b, (xs.filter fun x => rank x = b).Sublist ys) : ys = sortedBy rank xs := by
  have hfilter : ∀ {zs : List α}, zs.Perm xs → ∀ b,
      (xs.filter fun x => rank x = b).Sublist zs →
      (xs.filter fun x => rank x = b) = zs.filter fun z => rank z = b := by
    intro zs hperm b hsub
    have hsub := hsub.filter fun z => rank z = b
    simp only [List.filter_filter, Bool.and_self] at hsub
    exact hsub.eq_of_length (hperm.filter _).length_eq.symm
  refine eq_of_pairwise_of_filter hsorted (pairwise_sortedBy xs) fun b => ?_
  rw [← hfilter hperm b (hsub b), hfilter (sortedBy_perm xs) b (sublist_sortedBy xs b)]

/-- What is selected from a stable sort is the stable sort of what is selected. -/
theorem filter_sortedBy (xs : List α) (p : α → Bool) :
    (sortedBy rank xs).filter p = sortedBy rank (xs.filter p) := by
  refine eq_sortedBy ((sortedBy_perm xs).filter p) ((pairwise_sortedBy xs).sublist
    List.filter_sublist) fun b => ?_
  rw [List.filter_comm]
  exact (sublist_sortedBy xs b).filter p

/-- A list that a stable sort leaves as it is, is sorted. -/
theorem eq_sortedBy_self_iff : xs = sortedBy rank xs ↔ xs.Pairwise fun x y => rank x ≤ rank y := by
  constructor
  · intro h
    rw [h]
    exact pairwise_sortedBy xs
  · intro h
    exact eq_sortedBy (List.Perm.refl xs) h fun _ => List.filter_sublist

/-- The last item stays the last one when none before it has a higher rank, and not otherwise. -/
theorem getLast?_sortedBy_iff {x : α} (hlast : xs.getLast? = some x) :
    (sortedBy rank xs).getLast? = some x ↔ ∀ y ∈ xs, rank y ≤ rank x := by
  obtain ⟨xs, rfl⟩ := List.getLast?_eq_some_iff.1 hlast
  constructor
  · intro h y hy
    obtain ⟨zs, hzs⟩ := List.getLast?_eq_some_iff.1 h
    have hsorted : (sortedBy rank (xs ++ [x])).Pairwise fun x y => rank x ≤ rank y :=
      pairwise_sortedBy _
    have hy : y ∈ zs ++ [x] := hzs ▸ (sortedBy_perm (xs ++ [x])).mem_iff.2 hy
    rw [hzs, List.pairwise_append] at hsorted
    rcases List.mem_append.1 hy with hy | hy
    · exact hsorted.2.2 y hy x List.mem_cons_self
    · exact le_of_eq (congrArg rank (List.mem_singleton.1 hy))
  · intro h
    have heq : sortedBy rank xs ++ [x] = sortedBy rank (xs ++ [x]) := by
      refine eq_sortedBy ((sortedBy_perm xs).append_right [x]) ?_ fun b => ?_
      · refine List.pairwise_append.2 ⟨pairwise_sortedBy xs, List.pairwise_singleton _ _, ?_⟩
        intro y hy z hz
        rw [List.mem_singleton.1 hz]
        exact h y (List.mem_append_left _ ((sortedBy_perm xs).mem_iff.1 hy))
      · rw [List.filter_append]
        exact (sublist_sortedBy xs b).append List.filter_sublist
    rw [← heq, List.getLast?_concat]

end Stable

/-! ## 2. The rules in the order of the text -/

/-- Where an item is first mentioned. -/
def firstMention {β : Type} [DecidableEq β] (mentions : List β) (x : β) : ℕ :=
  mentions.idxOf x

theorem firstMention_inj {β : Type} [DecidableEq β] {mentions : List β} {x y : β}
    (hx : x ∈ mentions) : firstMention mentions x = firstMention mentions y ↔ x = y :=
  List.idxOf_inj hx

namespace LayerPart

variable {p : LayerPart} {rules : List SheetRule}

/-- The rules of a part stand in the order of their scopes. -/
theorem Divides.pairwise (h : p.Divides rules) : p.rules.Pairwise fun r t =>
    firstMention (rules.map fun r => key r.scope) (key r.scope) ≤
      firstMention (rules.map fun r => key r.scope) (key t.scope) := by
  have hscope : ∀ q ∈ p.scopes, ∀ r ∈ q.rules, key r.scope = key q.scope := by
    intro q hq r hr
    rw [h.group q hq] at hr
    exact of_decide_eq_true (List.mem_filter.1 hr).2
  refine List.pairwise_flatMap.2 ⟨fun q hq => ?_, ?_⟩
  · refine List.pairwise_of_forall_mem_list fun r hr t ht => ?_
    rw [hscope q hq r hr, hscope q hq t ht]
  · refine (List.pairwise_map.1 h.scopes.order).imp_of_mem fun hq hq' hlt r hr t ht => ?_
    rw [hscope _ hq r hr, hscope _ hq' t ht]
    exact hlt.le

/-- The rules of one scope keep their order. -/
theorem Divides.sublist (h : p.Divides rules) {r : SheetRule} (hr : r ∈ rules) :
    (rules.filter fun t => key t.scope = key r.scope).Sublist p.rules := by
  obtain ⟨q, hq, hscope⟩ := List.mem_map.1 ((h.scopes.mem_iff _).2 (List.mem_map_of_mem hr))
  rw [← hscope, ← h.group q hq, LayerPart.rules, List.flatMap_def]
  exact List.sublist_flatten_of_mem (List.mem_map_of_mem hq)

end LayerPart

namespace Sheet

variable (sheet : Sheet)

/-- The parts of the text that hold rules. -/
def parts : List LayerPart :=
  sheet.partOf .null :: sheet.layerParts

/-- Where a layer stands; what is outside any layer stands before all layers. -/
def layerPlace (layer : Json) : ℕ :=
  firstMention ((.null :: sheet.layerOrder).map key) (key layer)

/-- Where the scope of a rule stands in its layer. -/
def scopePlace (r : SheetRule) : ℕ :=
  firstMention ((sheet.rulesIn r.layer).map fun t => key t.scope) (key r.scope)

/-- Where a rule stands: its layer first, and in the layer its scope. -/
def place (r : SheetRule) : ℕ ×ₗ ℕ :=
  toLex (sheet.layerPlace r.layer, sheet.scopePlace r)

/-- The layers of a sheet stand in an order that has each of them once. -/
structure IsLayered : Prop where
  nodup : (sheet.layerOrder.map key).Nodup
  filled : ∀ layer ∈ sheet.layerOrder, layer ≠ .null
  covers : ∀ r ∈ sheet.rules, r.layer ≠ .null → key r.layer ∈ sheet.layerOrder.map key

variable {sheet}

theorem rulesIn_congr {l m : Json} (h : key l = key m) : sheet.rulesIn l = sheet.rulesIn m := by
  rw [rulesIn_eq, rulesIn_eq, h]

theorem layerPlace_null : sheet.layerPlace .null = 0 := by
  rw [layerPlace, firstMention, List.map_cons, List.idxOf_cons_self]

theorem layerPlace_of_ne_null {layer : Json} (h : layer ≠ .null) :
    sheet.layerPlace layer = firstMention (sheet.layerOrder.map key) (key layer) + 1 := by
  have hkey : key Json.null ≠ key layer := by
    rw [Json.key_null]
    exact fun heq => h (Json.key_eq_null_iff.1 heq.symm)
  rw [layerPlace, firstMention, List.map_cons, List.idxOf_cons_ne _ hkey]
  rfl

namespace IsLayered

variable (h : sheet.IsLayered)

include h

theorem firstMentions :
    FirstMentions (sheet.layerOrder.map key) (sheet.layerOrder.map key) := by
  refine ⟨fun _ => Iff.rfl, List.pairwise_iff_getElem.2 fun i j hi hj hij => ?_⟩
  rw [h.nodup.idxOf_getElem, h.nodup.idxOf_getElem]
  exact hij

theorem isArrangement : IsArrangement (sheet.layerOrder.map key) sheet.rules (sheet.partOf .null)
    sheet.layerParts :=
  isArrangement_layerParts h.firstMentions h.filled h.covers

theorem ne_null {p : LayerPart} (hp : p ∈ sheet.layerParts) : p.layer ≠ .null := by
  obtain ⟨layer, hlayer, -, rfl⟩ := sheet.mem_layerParts.1 hp
  exact h.filled layer hlayer

theorem divides {p : LayerPart} (hp : p ∈ sheet.parts) : p.Divides (sheet.rulesIn p.layer) :=
  h.isArrangement.divided p hp

theorem layer_of_mem {p : LayerPart} (hp : p ∈ sheet.parts) {r : SheetRule} (hr : r ∈ p.rules) :
    key r.layer = key p.layer := by
  have hmem : r ∈ sheet.rulesIn p.layer := (h.divides hp).perm.mem_iff.1 hr
  exact of_decide_eq_true (List.mem_filter.1 hmem).2

theorem exists_part {r : SheetRule} (hr : r ∈ sheet.rules) :
    ∃ p ∈ sheet.parts, key p.layer = key r.layer := by
  by_cases hlayer : r.layer = .null
  · exact ⟨_, List.mem_cons_self, congrArg key hlayer.symm⟩
  · obtain ⟨p, hp, hkey⟩ := (h.isArrangement.used r.layer).2 ⟨hlayer, r, hr, rfl⟩
    exact ⟨p, List.mem_cons_of_mem _ hp, hkey⟩

theorem pairwise_layerPlace :
    sheet.parts.Pairwise fun p q => sheet.layerPlace p.layer < sheet.layerPlace q.layer := by
  refine List.pairwise_cons.2 ⟨fun q hq => ?_, h.isArrangement.order.imp_of_mem fun hp hq hlt => ?_⟩
  · change sheet.layerPlace .null < sheet.layerPlace q.layer
    rw [layerPlace_null, layerPlace_of_ne_null (h.ne_null hq)]
    exact Nat.succ_pos _
  · rw [layerPlace_of_ne_null (h.ne_null hp), layerPlace_of_ne_null (h.ne_null hq)]
    exact Nat.succ_lt_succ hlt

theorem layerPlace_of_mem {p : LayerPart} (hp : p ∈ sheet.parts) {r : SheetRule}
    (hr : r ∈ p.rules) : sheet.layerPlace r.layer = sheet.layerPlace p.layer := by
  rw [layerPlace, layerPlace, h.layer_of_mem hp hr]

/-- The text has the rules in the order of their places. -/
theorem pairwise_writtenRules :
    sheet.writtenRules.Pairwise fun r t => sheet.place r ≤ sheet.place t := by
  refine List.pairwise_flatMap.2 ⟨fun p hp => ?_, ?_⟩
  · refine (h.divides hp).pairwise.imp_of_mem fun {r t} hr ht hle => ?_
    rw [place, place, Prod.Lex.toLex_le_toLex, h.layerPlace_of_mem hp hr,
      h.layerPlace_of_mem hp ht]
    refine .inr ⟨rfl, ?_⟩
    change sheet.scopePlace r ≤ sheet.scopePlace t
    rwa [scopePlace, scopePlace, rulesIn_congr (h.layer_of_mem hp hr),
      rulesIn_congr (h.layer_of_mem hp ht)]
  · refine h.pairwise_layerPlace.imp_of_mem fun {p q} hp hq hlt r hr t ht => ?_
    rw [place, place, Prod.Lex.toLex_le_toLex, h.layerPlace_of_mem hp hr,
      h.layerPlace_of_mem hq ht]
    exact .inl hlt

/-- Rules are in one place when their layers and scopes are the same. -/
theorem place_eq_iff {r t : SheetRule} (hr : r ∈ sheet.rules) :
    sheet.place r = sheet.place t ↔ key r.layer = key t.layer ∧ key r.scope = key t.scope := by
  have hlayer : sheet.layerPlace r.layer = sheet.layerPlace t.layer ↔
      key r.layer = key t.layer := by
    refine firstMention_inj ?_
    by_cases hnull : r.layer = .null
    · exact List.mem_map.2 ⟨.null, List.mem_cons_self, congrArg key hnull.symm⟩
    · exact List.mem_cons_of_mem _ (h.covers r hr hnull)
  have hscope : key r.layer = key t.layer →
      (sheet.scopePlace r = sheet.scopePlace t ↔ key r.scope = key t.scope) := by
    intro hkey
    have hin : r ∈ sheet.rulesIn r.layer := List.mem_filter.2 ⟨hr, decide_eq_true rfl⟩
    rw [scopePlace, scopePlace, ← rulesIn_congr hkey]
    exact firstMention_inj (List.mem_map_of_mem (f := fun t : SheetRule => key t.scope) hin)
  rw [place, place, toLex_inj, Prod.mk.injEq, hlayer]
  exact and_congr_right hscope

/-- Rules in one place keep their order. -/
theorem sublist_writtenRules (b : ℕ ×ₗ ℕ) :
    (sheet.rules.filter fun r => sheet.place r = b).Sublist sheet.writtenRules := by
  rcases hb : sheet.rules.filter fun r => sheet.place r = b with - | ⟨r, rest⟩
  · exact List.nil_sublist _
  have hmem : r ∈ sheet.rules.filter fun r => sheet.place r = b := hb ▸ List.mem_cons_self
  obtain ⟨hr, hplace⟩ := List.mem_filter.1 hmem
  obtain rfl := of_decide_eq_true hplace
  obtain ⟨p, hp, hlayer⟩ := h.exists_part hr
  have hin : r ∈ sheet.rulesIn p.layer := List.mem_filter.2 ⟨hr, decide_eq_true hlayer.symm⟩
  have heq : (sheet.rules.filter fun t => sheet.place t = sheet.place r) =
      (sheet.rulesIn p.layer).filter fun t => key t.scope = key r.scope := by
    rw [rulesIn_eq, List.filter_filter]
    refine List.filter_congr fun t ht => ?_
    rw [← Bool.decide_and, decide_eq_decide, h.place_eq_iff ht, hlayer, and_comm]
  rw [← hb, heq, writtenRules, List.flatMap_def]
  exact ((h.divides hp).sublist hin).trans (List.sublist_flatten_of_mem (List.mem_map_of_mem hp))

/-- The text has the rules sorted stably by their places. -/
theorem writtenRules_eq : sheet.writtenRules = sortedBy sheet.place sheet.rules :=
  eq_sortedBy h.isArrangement.perm h.pairwise_writtenRules h.sublist_writtenRules

end IsLayered

end Sheet

/-! ## 3. Final values -/

/-- Whether a rule says something of a property. -/
def SheetRule.holds (property : String) (r : SheetRule) : Bool :=
  r.declarations.any fun d => d.name = property

/-- The last rule that says something of a property. -/
def lastHolder? (property : String) (rules : List SheetRule) : Option SheetRule :=
  (rules.filter (·.holds property)).getLast?

/-- The last value of a property in some declarations. -/
def lastValue? (property : String) (ds : List SheetDeclaration) : Option Json :=
  ((ds.filter fun d => d.name = property).getLast?).map (·.value)

/-- What is found among reversed entries is the last entry of the key. -/
theorem Table.lookup_reverse {α : Type} (k : String) (es : List (String × α)) :
    lookup k es.reverse = ((es.filter fun e => e.1 = k).getLast?).map (·.2) := by
  have hlookup : ∀ es : List (String × α),
      lookup k es = ((es.filter fun e => e.1 = k).head?).map (·.2) := by
    intro es
    induction es with
    | nil => rfl
    | cons e es ih => by_cases he : e.1 = k <;> simp [lookup, he, ih]
  rw [hlookup, List.filter_reverse, List.head?_reverse]

/-- The last value in the declarations of some rules is that of the last rule which says something
of the property. -/
theorem lastValue?_flatMap (property : String) (rules : List SheetRule) :
    lastValue? property (rules.flatMap (·.declarations)) =
      (lastHolder? property rules).bind fun r => lastValue? property r.declarations := by
  induction rules using List.reverseRecOn with
  | nil => rfl
  | append_singleton rules r ih =>
    simp only [lastValue?, lastHolder?, List.flatMap_append, List.filter_append,
      List.getLast?_append, List.flatMap_singleton] at ih ⊢
    by_cases hr : r.holds property = true
    · have hne : (r.declarations.filter fun d => d.name = property) ≠ [] := by
        obtain ⟨d, hd, hname⟩ := List.any_eq_true.1 hr
        exact List.ne_nil_of_mem (List.mem_filter.2 ⟨hd, hname⟩)
      obtain ⟨d, hd⟩ := Option.isSome_iff_exists.1 (List.getLast?_isSome.2 hne)
      simp only [hd, hr, List.filter_cons, List.filter_nil, if_true, List.getLast?_singleton,
        Option.some_or, Option.map_some, Option.bind_some]
    · have hnil : (r.declarations.filter fun d => d.name = property) = [] :=
        List.filter_eq_nil_iff.2 fun d hd hname => hr (List.any_eq_true.2 ⟨d, hd, hname⟩)
      simpa [hr, hnil] using ih

/-- What some rules say of all properties. -/
def mergedProperties (rules : List SheetRule) : Table String Json :=
  Table.ofList (rules.flatMap fun r => r.declarations.map fun d => (d.name, d.value))

theorem finalProperties_perm (rules : List SheetRule) :
    (finalProperties rules).Perm (mergedProperties rules).entries :=
  List.mergeSort_perm _ _

theorem isCanonical_mergedProperties (rules : List SheetRule) :
    (mergedProperties rules).IsCanonical :=
  Table.isCanonical_ofList fun e _ => key_string e.1

/-- No property has two final values. -/
theorem nodup_finalProperties (rules : List SheetRule) :
    ((finalProperties rules).map (·.1)).Nodup :=
  ((finalProperties_perm rules).map _).nodup_iff.2 (isCanonical_mergedProperties rules).distinct

/-- The final value of a property is the last one in the last rule that says something of it. -/
theorem mem_finalProperties {rules : List SheetRule} {property : String} {v : Json} :
    (property, v) ∈ finalProperties rules ↔ ∃ r, lastHolder? property rules = some r ∧
      lastValue? property r.declarations = some v := by
  have hentries : (rules.flatMap fun r => r.declarations.map fun d => (d.name, d.value)) =
      (rules.flatMap (·.declarations)).map fun d => (d.name, d.value) := by
    rw [List.map_flatMap]
  have hlast : (mergedProperties rules).get? property =
      lastValue? property (rules.flatMap (·.declarations)) := by
    rw [mergedProperties, Table.get?_ofList, Table.lookup_reverse, hentries, List.filter_map,
      List.getLast?_map, Option.map_map]
    rfl
  rw [(finalProperties_perm rules).mem_iff,
    ← (isCanonical_mergedProperties rules).get?_eq_some_iff (key_string property), hlast,
    lastValue?_flatMap, Option.bind_eq_some_iff]

/-! ## 4. Answers -/

theorem Json.alike_text_iff {v : Json} {s : String} : v.alike (.text s) = true ↔ v = .text s := by
  rw [Json.alike, decide_eq_true_eq]
  exact ⟨fun h => (Json.isWord_text s).eq_of_key_eq h, fun h => by rw [h]⟩

namespace Sheet

/-- The rules of a selector, in the order of the text. -/
def writtenFor (sheet : Sheet) (target : String) : List SheetRule :=
  sheet.writtenRules.filter fun r => r.selector = .text target

/-- An answer in bucket order, compared with the text. -/
structure IsAnswer (sheet : Sheet) (target : String) (answer : List SheetRule) : Prop where
  /-- The rules are those of the selector. -/
  rules : answer = sheet.rules.filter fun r => r.selector = .text target
  /-- The text has them sorted stably by the places of their layers and scopes. -/
  writtenFor_eq : sheet.writtenFor target = sortedBy sheet.place answer
  /-- The orders agree exactly when no rule stands behind one of a later place. -/
  agrees_iff : answer = sheet.writtenFor target ↔
    answer.Pairwise fun r t => sheet.place r ≤ sheet.place t
  /-- Each property has one final value. -/
  nodup : ((finalProperties answer).map (·.1)).Nodup
  /-- The final value is the last one in the last rule that says something of the property. -/
  final_iff : ∀ property v, (property, v) ∈ finalProperties answer ↔
    ∃ r, lastHolder? property answer = some r ∧ lastValue? property r.declarations = some v
  /-- This rule is the last one in the text, too, exactly when no other rule that says something of
  the property has a later place. -/
  last_iff : ∀ property r, lastHolder? property answer = some r →
    (lastHolder? property (sheet.writtenFor target) = some r ↔
      ∀ t ∈ answer, t.holds property = true → sheet.place t ≤ sheet.place r)

theorem IsLayered.isAnswer {sheet : Sheet} (h : sheet.IsLayered) (target : String) :
    sheet.IsAnswer target (sheet.rules.filter fun r => r.selector = .text target) := by
  have hwritten : sheet.writtenFor target = sortedBy sheet.place
      (sheet.rules.filter fun r => r.selector = .text target) := by
    rw [writtenFor, h.writtenRules_eq, filter_sortedBy]
  exact
    { rules := rfl
      writtenFor_eq := hwritten
      agrees_iff := by
        rw [hwritten]
        exact eq_sortedBy_self_iff
      nodup := nodup_finalProperties _
      final_iff := fun property v => mem_finalProperties
      last_iff := fun property r hr => by
        rw [hwritten, lastHolder?, filter_sortedBy, getLast?_sortedBy_iff hr]
        simp only [List.mem_filter, and_imp] }

end Sheet

namespace Cascade.IsReachable

variable {migrations : List String} {ctx : Context} {s : Cascade}

/-- Every layer that has a place is filled, and every rule is in one of them or outside all. -/
theorem isLayered (h : IsReachable migrations ctx s) (config : CompilerConfig) :
    (Sheet.ofCascade s config).IsLayered := by
  have horder := Sheet.firstMentions_distinct (Sheet.layerMentions s config)
  refine ⟨horder.nodup, ?_, fun r hr hlayer => (horder.mem_iff _).2 ?_⟩
  · rintro layer hlayer rfl
    obtain ⟨l, hl, hkey⟩ := List.mem_map.1 ((horder.mem_iff _).1 (List.mem_map_of_mem hlayer))
    obtain rfl := Json.key_eq_null_iff.1 (hkey.trans Json.key_null)
    simp only [Sheet.layerMentions, List.mem_append, List.mem_filter] at hl
    rcases hl with (hdefault | hdeclared) | ⟨-, hbucket⟩
    · simp at hdefault
    · obtain ⟨text, htext⟩ := h.isString_declared _ hdeclared
      simp at htext
    · simp [Json.isNull] at hbucket
  · obtain ⟨e, he, rfl⟩ := List.mem_map.1 hr
    have hfilled : (!e.1.layer.isNull) = true := by
      cases hcell : e.1.layer with
      | null => exact absurd hcell hlayer
      | _ => rfl
    exact List.mem_map_of_mem (List.mem_append_right _ (List.mem_filter.2
      ⟨List.mem_map_of_mem (Table.mem_keys_of_mem (List.mem_of_mem_filter he)), hfilled⟩))

/-- What a question is about is a text: that of a known selector, or the question itself. -/
theorem exists_targetOf (h : IsReachable migrations ctx s) (name : String) :
    ∃ target : String, s.targetOf name = .ok (.text target) ∧
      Json.text target = if s.selectors.contains (.text name) then s.selectorCell (.text name)
        else .text name := by
  have hlegible := h.isSettled.1.isLegible
  by_cases hknown : s.selectors.contains (.text name) = true
  · obtain ⟨target, htarget⟩ := hlegible.isString_selectorCell (Json.isString_text name)
    refine ⟨target, ?_, by rw [if_pos hknown, htarget]⟩
    have hcheck : Sheet.checkSelector s (.text name) = .ok () :=
      ShapeError.require_of_true (hlegible.isResolvable (Json.isString_text name)) _
    rw [targetOf, if_pos hknown, resolved, bind_of_ok hcheck, htarget]
    rfl
  · exact ⟨name, by rw [targetOf, if_neg hknown], by rw [if_neg hknown]⟩

/-- A question is answered with the rules of its target, in bucket order. -/
theorem exists_rulesFor (h : IsReachable migrations ctx s) (config : CompilerConfig)
    (name : String) : ∃ target : String,
      (Json.text target = if s.selectors.contains (.text name) then s.selectorCell (.text name)
        else .text name) ∧
      s.rulesFor config name = .ok (.text target,
        (Sheet.ofCascade s config).rules.filter fun r => r.selector = .text target) := by
  obtain ⟨target, htarget, hcell⟩ := h.exists_targetOf name
  have hanswer : (Sheet.ofCascade s config).rules.filter (·.selector.alike (.text target)) =
      (Sheet.ofCascade s config).rules.filter fun r => r.selector = .text target := by
    refine List.filter_congr fun r _ => ?_
    rw [Bool.eq_iff_iff, Json.alike_text_iff, decide_eq_true_eq]
  refine ⟨target, hcell, ?_⟩
  rw [rulesFor, htarget, h.plan_eq config, ← hanswer]
  rfl

/-- A question for a selector is answered, in whatever statements and reloads have led to, with the
rules of that selector in bucket order. This is the order of the text, and the final value of a
property is that of the last rule in the text, only as far as the places of the rules allow it. -/
theorem answers_in_bucket_order (h : IsReachable migrations ctx s) (config : CompilerConfig)
    (name : String) : ∃ sheet target answer, Sheet.plan s config = .ok sheet ∧
      s.rulesFor config name = .ok (.text target, answer) ∧
      (Json.text target = if s.selectors.contains (.text name) then s.selectorCell (.text name)
        else .text name) ∧
      sheet.render = "\n".intercalate
        (sheet.front ++ sheet.parts.flatMap (·.lines) ++ sheet.back) ∧
      sheet.IsAnswer target answer := by
  obtain ⟨target, hcell, hrules⟩ := h.exists_rulesFor config name
  have hlayered := h.isLayered config
  refine ⟨_, target, _, h.plan_eq config, hrules, hcell, ?_, hlayered.isAnswer target⟩
  rw [Sheet.render, Sheet.lines_eq _ hlayered.filled]
  rfl

/-- A plain rule of a selector, one with a wrapper and one with a scope. -/
def threeCards : String :=
  "CREATE STYLE SELECTOR card (color = red);
   ALTER STYLE SELECTOR card WHERE width >= 600px SET color = green;
   CREATE STYLE SELECTOR card SCOPED TO nav (color = blue);"

/-- The lines of its sheet. -/
def threeCardsLines : List String :=
  [".card \x7b", "  color: red;", "\x7d", "",
    "@media (min-width: 600px) \x7b", "  .card \x7b", "    color: green;", "  \x7d", "", "\x7d", "",
    "@scope (.nav) \x7b", "  .card \x7b", "    color: blue;", "  \x7d", "\x7d", ""]

/-- All three are found in the order of the text. -/
theorem answers_in_bucket_order_card : ∃ stmts sheet answer,
    Source.parse threeCards false = .ok stmts ∧
    Sheet.plan (Cascade.run {} {} stmts).state {} = .ok sheet ∧
    sheet.render = "\n".intercalate threeCardsLines ∧
    (Cascade.run {} {} stmts).state.rulesFor {} "card" = .ok (.text ".card", answer) ∧
    answer.map (·.declarations.map (·.value)) =
      [[.text "red"], [.text "green"], [.text "blue"]] ∧
    answer = sheet.writtenFor ".card" := by
  obtain ⟨stmts, hparse, hfacts⟩ := exists_ok_of_any (x := Source.parse threeCards false)
    (p := fun stmts =>
      let s := (Cascade.run {} {} stmts).state
      let sheet := Sheet.ofCascade s {}
      let answer := sheet.rules.filter fun r => r.selector = .text ".card"
      decide ((if s.selectors.contains (.text "card") then s.selectorCell (.text "card")
        else .text "card") = .text ".card" ∧ sheet.lines = threeCardsLines ∧
          answer.map (·.declarations.map (·.value)) =
            [[.text "red"], [.text "green"], [.text "blue"]] ∧
          answer.Pairwise fun r t => sheet.place r ≤ sheet.place t))
    (by
      unfold threeCards
      rw [Source.parse_ofList]
      decide +kernel)
  obtain ⟨hcard, hlines, hvalues, hsorted⟩ := of_decide_eq_true hfacts
  obtain ⟨sheet, target, answer, hplan, hrules, htarget, -, hanswer⟩ :=
    answers_in_bucket_order (of_parse hparse) {} "card"
  obtain rfl : Sheet.ofCascade _ {} = sheet :=
    Except.ok.inj (((of_parse hparse).plan_eq {}).symm.trans hplan)
  obtain rfl : ".card" = target := (Json.text.inj (htarget.trans hcard)).symm
  exact ⟨stmts, _, answer, hparse, hplan, congrArg "\n".intercalate hlines, hrules,
    hanswer.rules ▸ hvalues, hanswer.agrees_iff.2 (hanswer.rules ▸ hsorted)⟩

/-- A rule that is scoped before another one is not; the text has it last, the answer does not. -/
theorem not_answers_in_written_order : ¬∀ {migrations : List String} {ctx : Context} {s : Cascade},
    IsReachable migrations ctx s → ∀ (config : CompilerConfig) (name target : String)
      (sheet : Sheet) (answer : List SheetRule), Sheet.plan s config = .ok sheet →
      s.rulesFor config name = .ok (.text target, answer) →
        answer = sheet.writtenFor target := by
  intro hclaim
  obtain ⟨stmts, hparse, hfacts⟩ := exists_ok_of_any (x := Source.parse
    ("CREATE STYLE SELECTOR card (color = red); " ++
      "CREATE STYLE SELECTOR card SCOPED TO nav (color = blue); " ++
      "ALTER STYLE SELECTOR card WHERE width >= 600px SET color = green;") false)
    (p := fun stmts =>
      let s := (Cascade.run {} {} stmts).state
      let sheet := Sheet.ofCascade s {}
      decide ((if s.selectors.contains (.text "card") then s.selectorCell (.text "card")
        else .text "card") = .text ".card" ∧
          (sheet.rules.filter fun r => r.selector = .text ".card") ≠ sheet.writtenFor ".card"))
    (by
      rw [← String.ofList_append, ← String.ofList_append, Source.parse_ofList]
      decide +kernel)
  obtain ⟨hcard, hne⟩ := of_decide_eq_true hfacts
  have hreach := of_parse hparse
  obtain ⟨target, htarget, hrules⟩ := hreach.exists_rulesFor {} "card"
  obtain rfl : ".card" = target := (Json.text.inj (htarget.trans hcard)).symm
  exact hne (hclaim hreach {} "card" _ _ _ (hreach.plan_eq {}) hrules)

end Cascade.IsReachable

end StyleLedger
