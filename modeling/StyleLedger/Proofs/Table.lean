import StyleLedger.Store.Codec
import Mathlib.Data.List.Nodup
import Mathlib.Data.List.Pairwise

/-!
Tables whose keys are spelled in one way only.

Statements address tables by texts, and a text is found under itself. A table that only statements
have written is therefore *canonical*: every key is the one it is found under, and no key occurs
twice. In a canonical table looking a key up is membership, writing a key concerns its entry alone,
and writing all entries into an empty table, in order, gives the table back (`foldl_putRow`), which
is how tables come back from rows.

* `Table.IsCanonical` — keys are plain and distinct.
* `Table.All` — what holds of every entry.
* `Table.map` — the table with every value replaced; reads and writes commute with it.
* `Table.IsDistinct` — keys may be spelled in several ways, but no two are spellings of one.
-/

namespace StyleLedger.Table

open Keyed (key)

variable {κ α β : Type}

/-- Something holds of every entry. -/
def All (P : κ → α → Prop) (t : Table κ α) : Prop :=
  ∀ e ∈ t.entries, P e.1 e.2

/-- The table with every value replaced. -/
def map (f : α → β) (t : Table κ α) : Table κ β :=
  ⟨t.entries.map fun e => (e.1, f e.2)⟩

theorem All.imp {P Q : κ → α → Prop} {t : Table κ α} (h : t.All P) (hPQ : ∀ k v, P k v → Q k v) :
    t.All Q :=
  fun e he => hPQ e.1 e.2 (h e he)

theorem all_empty (P : κ → α → Prop) : ({} : Table κ α).All P := by
  intro e he
  simp at he

theorem All.filter {P : κ → α → Prop} {t : Table κ α} (h : t.All P) (p : κ → α → Bool) :
    (t.filter p).All P :=
  fun e he => h e (List.mem_of_mem_filter he)

@[simp] theorem keys_map (f : α → β) (t : Table κ α) : (t.map f).keys = t.keys := by
  simp [keys, map, Function.comp_def]

@[simp] theorem isEmpty_map (f : α → β) (t : Table κ α) : (t.map f).isEmpty = t.isEmpty := by
  simp [isEmpty, map]

theorem values_map (f : α → β) (t : Table κ α) : (t.map f).values = t.values.map f := by
  simp [values, map, Function.comp_def]

/-- A test that looks at what is left of a value selects the same entries. -/
theorem map_filter (f : α → β) {p : κ → α → Bool} {q : κ → β → Bool}
    (h : ∀ k v, p k v = q k (f v)) (t : Table κ α) : (t.filter p).map f = (t.map f).filter q := by
  simp only [map, filter, List.filter_map, Function.comp_def, h]

variable [DecidableEq κ] [Keyed κ]

/-! ## 1. What an operation leaves -/

/-- A written table holds the old entries and the new value, under the key or another spelling
of it. -/
theorem mem_write {k : κ} {v : α} : ∀ {es : List (κ × α)} {e : κ × α}, e ∈ write k v es →
    e ∈ es ∨ (e.2 = v ∧ (e.1 = k ∨ ∃ old, (e.1, old) ∈ es))
  | [], e, h => by
    obtain rfl : e = (k, v) := by simpa [write] using h
    exact .inr ⟨rfl, .inl rfl⟩
  | d :: es, e, h => by
    by_cases hd : key d.1 = key k
    · simp only [write, hd, if_true, List.mem_cons] at h
      rcases h with rfl | h
      · exact .inr ⟨rfl, .inr ⟨d.2, List.mem_cons_self⟩⟩
      · exact .inl (List.mem_cons_of_mem d h)
    · simp only [write, hd, if_false, List.mem_cons] at h
      rcases h with rfl | h
      · exact .inl List.mem_cons_self
      · rcases mem_write h with h | ⟨hv, h | ⟨old, h⟩⟩
        · exact .inl (List.mem_cons_of_mem d h)
        · exact .inr ⟨hv, .inl h⟩
        · exact .inr ⟨hv, .inr ⟨old, List.mem_cons_of_mem d h⟩⟩

/-- What holds of keys and of values still does after a write. -/
theorem All.put {K : κ → Prop} {V : α → Prop} {t : Table κ α}
    (h : t.All fun k v => K k ∧ V v) {k : κ} {v : α} (hk : K k) (hv : V v) :
    (t.put k v).All fun k v => K k ∧ V v := by
  intro e he
  rcases mem_write he with he | ⟨rfl, rfl | ⟨old, he⟩⟩
  · exact h e he
  · exact ⟨hk, hv⟩
  · exact ⟨(h _ he).1, hv⟩

theorem All.respell {K : κ → Prop} {V : α → Prop} {t : Table κ α}
    (h : t.All fun k v => K k ∧ V v) {k : κ} (hk : K k) :
    (t.respell k).All fun k v => K k ∧ V v := by
  intro e he
  obtain ⟨d, hd, rfl⟩ := List.mem_map.1 he
  split
  · exact ⟨hk, (h d hd).2⟩
  · exact h d hd

theorem All.erase {P : κ → α → Prop} {t : Table κ α} (h : t.All P) (k : κ) : (t.erase k).All P :=
  fun e he => h e (List.mem_of_mem_filter he)

theorem lookup_mem {k : κ} {v : α} : ∀ {es : List (κ × α)}, lookup k es = some v →
    ∃ l, key l = key k ∧ (l, v) ∈ es
  | [], h => by simp [lookup] at h
  | e :: es, h => by
    by_cases he : key e.1 = key k
    · simp only [lookup, he, if_true, Option.some.injEq] at h
      exact ⟨e.1, he, by rw [← h]; exact List.mem_cons_self⟩
    · simp only [lookup, he, if_false] at h
      obtain ⟨l, hl, hmem⟩ := lookup_mem h
      exact ⟨l, hl, List.mem_cons_of_mem e hmem⟩

/-- What holds of every entry holds of the value that is found. -/
theorem All.get? {P : α → Prop} {K : κ → Prop} {t : Table κ α} (h : t.All fun k v => K k ∧ P v)
    {k : κ} {v : α} (hv : t.get? k = some v) : P v := by
  obtain ⟨l, -, hl⟩ := lookup_mem hv
  exact (h _ hl).2

/-! ## 2. Replaced values -/

theorem lookup_map (f : α → β) (k : κ) (es : List (κ × α)) :
    lookup k (es.map fun e => (e.1, f e.2)) = (lookup k es).map f := by
  induction es with
  | nil => rfl
  | cons e es ih =>
    by_cases he : key e.1 = key k
    · simp [lookup, he]
    · simp [lookup, he, ih]

theorem get?_map (f : α → β) (t : Table κ α) (k : κ) : (t.map f).get? k = (t.get? k).map f :=
  lookup_map f k t.entries

theorem contains_map (f : α → β) (t : Table κ α) (k : κ) :
    (t.map f).contains k = t.contains k := by
  simp [contains, get?_map]

theorem map_put (f : α → β) (t : Table κ α) (k : κ) (v : α) :
    (t.put k v).map f = (t.map f).put k (f v) := by
  have hwrite : ∀ es : List (κ × α), (write k v es).map (fun e => (e.1, f e.2)) =
      write k (f v) (es.map fun e => (e.1, f e.2)) := by
    intro es
    induction es with
    | nil => rfl
    | cons e es ih =>
      by_cases he : key e.1 = key k
      · simp [write, he]
      · simp [write, he, ih]
  simp only [map, put, hwrite]

theorem map_erase (f : α → β) (t : Table κ α) (k : κ) : (t.erase k).map f = (t.map f).erase k := by
  simp only [map, erase, List.filter_map]
  rfl

theorem map_respell (f : α → β) (t : Table κ α) (k : κ) :
    (t.respell k).map f = (t.map f).respell k := by
  simp only [map, respell, List.map_map]
  congr 1
  refine List.map_congr_left fun e _ => ?_
  simp only [Function.comp_apply]
  split <;> rfl

theorem map_putRow (f : α → β) (t : Table κ α) (k : κ) (v : α) :
    (Snapshot.putRow t (k, v)).map f = Snapshot.putRow (t.map f) (k, f v) := by
  rw [Snapshot.putRow, Snapshot.putRow, map_respell, map_put]

/-! ## 3. Canonical tables -/

/-- Every key is the one it is found under, and no key occurs twice. -/
structure IsCanonical (t : Table κ α) : Prop where
  plain : ∀ k ∈ t.keys, key k = k
  distinct : t.keys.Nodup

omit [DecidableEq κ] in
theorem isCanonical_empty : ({} : Table κ α).IsCanonical :=
  ⟨by simp [keys], by simp [keys]⟩

omit [DecidableEq κ] in
theorem IsCanonical.of_keys_sublist {t : Table κ α} {u : Table κ β} (h : t.IsCanonical)
    (hsub : u.keys.Sublist t.keys) : u.IsCanonical :=
  ⟨fun k hk => h.plain k (hsub.subset hk), h.distinct.sublist hsub⟩

omit [DecidableEq κ] in
theorem IsCanonical.filter {t : Table κ α} (h : t.IsCanonical) (p : κ → α → Bool) :
    (t.filter p).IsCanonical :=
  h.of_keys_sublist (List.filter_sublist.map _)

theorem IsCanonical.erase {t : Table κ α} (h : t.IsCanonical) (k : κ) : (t.erase k).IsCanonical :=
  h.of_keys_sublist (List.filter_sublist.map _)

omit [DecidableEq κ] [Keyed κ] in
theorem mem_keys_of_mem {t : Table κ α} {e : κ × α} (h : e ∈ t.entries) : e.1 ∈ t.keys :=
  List.mem_map_of_mem h

/-- In a canonical table a key that is there is written in place, any other at the end. -/
theorem write_eq {k : κ} {v : α} (hk : key k = k) : ∀ {es : List (κ × α)},
    (∀ e ∈ es, key e.1 = e.1) → (write k v es).map (·.1) =
      if k ∈ es.map (·.1) then es.map (·.1) else es.map (·.1) ++ [k]
  | [], _ => by simp [write]
  | e :: es, h => by
    have he : key e.1 = e.1 := h e List.mem_cons_self
    have ih := write_eq (v := v) hk fun d hd => h d (List.mem_cons_of_mem e hd)
    by_cases hek : e.1 = k
    · simp [write, hk, hek]
    · have hke : k ≠ e.1 := Ne.symm hek
      simp only [write, he, hk, hek, if_false, List.map_cons, ih, List.mem_cons, hke, false_or]
      split
      · rfl
      · rfl

theorem IsCanonical.keys_put {t : Table κ α} (h : t.IsCanonical) {k : κ} (hk : key k = k) (v : α) :
    (t.put k v).keys = if k ∈ t.keys then t.keys else t.keys ++ [k] :=
  write_eq hk fun _ he => h.plain _ (mem_keys_of_mem he)

theorem IsCanonical.put {t : Table κ α} (h : t.IsCanonical) {k : κ} (hk : key k = k) (v : α) :
    (t.put k v).IsCanonical := by
  by_cases hmem : k ∈ t.keys
  · have hkeys : (t.put k v).keys = t.keys := by rw [h.keys_put hk, if_pos hmem]
    exact h.of_keys_sublist (hkeys ▸ List.Sublist.refl _)
  · have hkeys : (t.put k v).keys = t.keys ++ [k] := by rw [h.keys_put hk, if_neg hmem]
    refine ⟨fun l hl => ?_, ?_⟩
    · rw [hkeys, List.mem_append, List.mem_singleton] at hl
      rcases hl with hl | rfl
      · exact h.plain l hl
      · exact hk
    · rw [hkeys, List.nodup_append]
      refine ⟨h.distinct, by simp, fun a ha b hb => ?_⟩
      rw [List.mem_singleton.1 hb]
      exact fun hab => hmem (hab ▸ ha)

theorem IsCanonical.get?_eq_some_iff {t : Table κ α} (h : t.IsCanonical) {k : κ}
    (hk : key k = k) {v : α} : t.get? k = some v ↔ (k, v) ∈ t.entries := by
  constructor
  · intro hv
    obtain ⟨l, hl, hmem⟩ := lookup_mem hv
    rw [h.plain l (mem_keys_of_mem hmem), hk] at hl
    rwa [hl] at hmem
  · obtain ⟨es⟩ := t
    intro hmem
    have hplain := h.plain
    have hdistinct := h.distinct
    simp only [keys] at hplain hdistinct hmem
    clear h
    induction es with
    | nil => simp at hmem
    | cons e es ih =>
      rw [List.map_cons, List.nodup_cons] at hdistinct
      by_cases hek : e.1 = k
      · have hv : e = (k, v) := by
          rcases List.mem_cons.1 hmem with rfl | hmem
          · rfl
          · exact absurd (List.mem_map_of_mem hmem) (hek ▸ hdistinct.1)
        simp [Table.get?, lookup, hv]
      · have htail : (k, v) ∈ es := by
          rcases List.mem_cons.1 hmem with rfl | hmem
          · exact absurd rfl hek
          · exact hmem
        have he : key e.1 = e.1 := hplain e.1 (by simp)
        simp only [Table.get?, lookup, he, hk, hek, if_false]
        exact ih htail (fun l hl => hplain l (List.mem_cons_of_mem _ hl)) hdistinct.2

theorem IsCanonical.contains_iff {t : Table κ α} (h : t.IsCanonical) {k : κ} (hk : key k = k) :
    t.contains k = true ↔ k ∈ t.keys := by
  rw [contains, Option.isSome_iff_exists]
  constructor
  · rintro ⟨v, hv⟩
    exact mem_keys_of_mem ((h.get?_eq_some_iff hk).1 hv)
  · intro hmem
    obtain ⟨e, he, rfl⟩ := List.mem_map.1 hmem
    exact ⟨e.2, (h.get?_eq_some_iff hk).2 he⟩

theorem IsCanonical.get?_eq_none {t : Table κ α} (h : t.IsCanonical) {k : κ} (hk : key k = k)
    (hmem : k ∉ t.keys) : t.get? k = none := by
  rw [← h.contains_iff hk, contains, Bool.not_eq_true, Option.isSome_eq_false_iff] at hmem
  exact Option.isNone_iff_eq_none.1 hmem

/-- A written table holds the new entry and the old entries of other keys. -/
theorem IsCanonical.mem_put_iff {t : Table κ α} (h : t.IsCanonical) {k : κ} (hk : key k = k) {v : α}
    {e : κ × α} : e ∈ (t.put k v).entries ↔ e = (k, v) ∨ e ∈ t.entries ∧ e.1 ≠ k := by
  by_cases he : key e.1 = e.1
  · rw [← (h.put hk v).get?_eq_some_iff he, get?_put, he, hk]
    by_cases hek : e.1 = k
    · simp [hek, Prod.ext_iff, eq_comm]
    · simp [hek, Prod.ext_iff, h.get?_eq_some_iff he]
  · constructor
    · intro hmem
      exact absurd ((h.put hk v).plain _ (mem_keys_of_mem hmem)) he
    · rintro (rfl | ⟨hmem, -⟩)
      · exact absurd hk he
      · exact absurd (h.plain _ (mem_keys_of_mem hmem)) he

theorem IsCanonical.all_put {P : κ → α → Prop} {t : Table κ α} (h : t.IsCanonical)
    (hall : t.All P) {k : κ} (hk : key k = k) {v : α} (hv : P k v) : (t.put k v).All P := by
  intro e he
  rcases (h.mem_put_iff hk).1 he with rfl | ⟨he, -⟩
  · exact hv
  · exact hall e he

/-! ## 4. Tables written entry by entry -/

theorem put_of_not_mem {t : Table κ α} {k : κ} {v : α} (h : ∀ l ∈ t.keys, key l ≠ key k) :
    t.put k v = ⟨t.entries ++ [(k, v)]⟩ := by
  have hwrite : ∀ es : List (κ × α), (∀ e ∈ es, key e.1 ≠ key k) →
      write k v es = es ++ [(k, v)] := by
    intro es hes
    induction es with
    | nil => rfl
    | cons e es ih =>
      have he := hes e List.mem_cons_self
      simp [write, he, ih fun d hd => hes d (List.mem_cons_of_mem e hd)]
  rw [put, hwrite t.entries fun e he => h _ (mem_keys_of_mem he)]

theorem IsCanonical.respell_eq {t : Table κ α} (h : t.IsCanonical) {k : κ} (hk : key k = k) :
    t.respell k = t := by
  have hsame : ∀ e ∈ t.entries, (if key e.1 = key k then (k, e.2) else e) = e := by
    intro e he
    rw [h.plain _ (mem_keys_of_mem he), hk]
    split
    · next heq => rw [← heq]
    · rfl
  rw [respell, List.map_congr_left hsame, List.map_id']

/-- The first of some entries goes to the end of a table that stays canonical with all of them. -/
theorem put_of_canonical_append {t : Table κ α} {e : κ × α} {es : List (κ × α)}
    (h : IsCanonical ⟨t.entries ++ e :: es⟩) : t.put e.1 e.2 = ⟨t.entries ++ [e]⟩ := by
  refine put_of_not_mem fun l hl hle => ?_
  have hdistinct := h.distinct
  have hplain := h.plain
  simp only [keys, List.map_append, List.map_cons] at hdistinct hplain
  have hll : key l = l := hplain l (List.mem_append_left _ hl)
  have hee : key e.1 = e.1 := hplain e.1 (by simp)
  rw [hll, hee] at hle
  exact (List.nodup_append.1 hdistinct).2.2 l hl e.1 List.mem_cons_self hle

omit [DecidableEq κ] in
theorem canonical_append_left {es ds : List (κ × α)} (h : IsCanonical ⟨es ++ ds⟩) :
    IsCanonical (⟨es⟩ : Table κ α) :=
  h.of_keys_sublist (by simp [keys])

/-- Entries written in order stand in that order. -/
theorem foldl_put : ∀ {es : List (κ × α)} {t : Table κ α}, IsCanonical ⟨t.entries ++ es⟩ →
    es.foldl (fun t e => t.put e.1 e.2) t = ⟨t.entries ++ es⟩
  | [], t, _ => by simp
  | e :: es, t, h => by
    rw [List.foldl_cons, put_of_canonical_append h, foldl_put (by simpa using h)]
    simp

theorem lookup_append (k : κ) (es ds : List (κ × α)) :
    lookup k (es ++ ds) = (lookup k es).or (lookup k ds) := by
  induction es with
  | nil => rfl
  | cons e es ih =>
    by_cases he : key e.1 = key k
    · simp [lookup, he]
    · simp [lookup, he, ih]

/-- Of several values that are written under one key the last one counts. -/
theorem get?_foldl_put (es : List (κ × α)) (t : Table κ α) (k : κ) :
    (es.foldl (fun t e => t.put e.1 e.2) t).get? k = (lookup k es.reverse).or (t.get? k) := by
  induction es generalizing t with
  | nil => rfl
  | cons e es ih =>
    rw [List.foldl_cons, ih, get?_put, List.reverse_cons, lookup_append, Option.or_assoc]
    congr 1
    by_cases he : key e.1 = key k
    · simp [lookup, he]
    · simp [lookup, he, Ne.symm he]

theorem get?_ofList (es : List (κ × α)) (k : κ) : (ofList es).get? k = lookup k es.reverse := by
  rw [ofList, get?_foldl_put, get?_empty, Option.or_none]

theorem isCanonical_ofList {es : List (κ × α)} (h : ∀ e ∈ es, key e.1 = e.1) :
    (ofList es).IsCanonical := by
  have hfold : ∀ t : Table κ α, t.IsCanonical →
      (es.foldl (fun t e => t.put e.1 e.2) t).IsCanonical := by
    induction es with
    | nil => exact fun t ht => ht
    | cons e es ih =>
      obtain ⟨he, hes⟩ := List.forall_mem_cons.1 h
      exact fun t ht => ih hes _ (ht.put he e.2)
  exact hfold _ isCanonical_empty

/-- Items looked up by a text of theirs. -/
theorem lookup_map_self (name : α → String) (k : String) (xs : List α) :
    lookup k (xs.map fun x => (name x, x)) = xs.find? fun x => name x = k := by
  induction xs with
  | nil => rfl
  | cons x xs ih =>
    by_cases hx : name x = k
    · simp [lookup, hx]
    · simp [lookup, hx, ih]

/-- A row with a new key goes to the end. -/
theorem putRow_of_canonical_append {t : Table κ α} {e : κ × α}
    (h : IsCanonical ⟨t.entries ++ [e]⟩) : Snapshot.putRow t e = ⟨t.entries ++ [e]⟩ := by
  have hkey : key e.1 = e.1 := h.plain e.1 (by simp [keys])
  rw [Snapshot.putRow, put_of_canonical_append h, h.respell_eq hkey]

/-- Rows written in order give their entries in that order. -/
theorem foldl_putRow : ∀ {es : List (κ × α)} {t : Table κ α}, IsCanonical ⟨t.entries ++ es⟩ →
    es.foldl Snapshot.putRow t = ⟨t.entries ++ es⟩
  | [], t, _ => by simp
  | e :: es, t, h => by
    have hsplit : IsCanonical ⟨(t.entries ++ [e]) ++ es⟩ := by simpa using h
    rw [List.foldl_cons, putRow_of_canonical_append (canonical_append_left hsplit),
      foldl_putRow hsplit]
    simp

omit [DecidableEq κ] in
theorem not_mem_of_canonical_append {es : List (κ × α)} {e : κ × α}
    (h : IsCanonical ⟨es ++ [e]⟩) : e.1 ∉ (⟨es⟩ : Table κ α).keys := by
  intro hmem
  have hdistinct := h.distinct
  simp only [keys, List.map_append, List.map_cons, List.map_nil] at hdistinct
  exact (List.nodup_append.1 hdistinct).2.2 e.1 hmem e.1 (by simp) rfl

/-- Writing the last key again replaces its value. -/
theorem put_last {es : List (κ × α)} {k : κ} {v w : α} (h : IsCanonical ⟨es ++ [(k, v)]⟩) :
    put ⟨es ++ [(k, v)]⟩ k w = ⟨es ++ [(k, w)]⟩ := by
  have hk : key k = k := h.plain k (by simp [keys])
  have hplain := (canonical_append_left h).plain
  have hmem := not_mem_of_canonical_append h
  simp only [put, mk.injEq]
  clear h
  induction es with
  | nil => simp [write]
  | cons e es ih =>
    simp only [keys, List.map_cons, List.mem_cons, not_or] at hmem hplain
    have he : key e.1 ≠ key k := by
      rw [hplain e.1 (.inl rfl), hk]
      exact fun h => hmem.1 h.symm
    simp only [List.cons_append, write, he, if_false]
    rw [ih (fun l hl => hplain l (.inr hl)) hmem.2]

/-! ## 5. Keys with several spellings -/

/-- A key that is there is written in place, under the spelling it has; any other goes to the
end. -/
theorem write_cases (k : κ) (v : α) : ∀ es : List (κ × α),
    (∃ before d after, es = before ++ d :: after ∧ key d.1 = key k ∧
      write k v es = before ++ (d.1, v) :: after) ∨
    (∀ e ∈ es, key e.1 ≠ key k) ∧ write k v es = es ++ [(k, v)]
  | [] => .inr ⟨by simp, rfl⟩
  | e :: es => by
    by_cases he : key e.1 = key k
    · exact .inl ⟨[], e, es, rfl, he, by simp [write, he]⟩
    · rcases write_cases k v es with ⟨before, d, after, rfl, hd, hwrite⟩ | ⟨hes, hwrite⟩
      · exact .inl ⟨e :: before, d, after, rfl, hd, by simp [write, he, hwrite]⟩
      · exact .inr ⟨List.forall_mem_cons.2 ⟨he, hes⟩, by simp [write, he, hwrite]⟩

theorem isSome_get?_iff {t : Table κ α} {k : κ} :
    (t.get? k).isSome ↔ ∃ e ∈ t.entries, key e.1 = key k := by
  obtain ⟨es⟩ := t
  induction es with
  | nil => simp [get?, lookup]
  | cons e es ih =>
    by_cases he : key e.1 = key k
    · simp [get?, lookup, he]
    · simpa [get?, lookup, he] using ih

theorem get?_congr {k l : κ} (h : key k = key l) (t : Table κ α) : t.get? k = t.get? l := by
  obtain ⟨es⟩ := t
  induction es with
  | nil => rfl
  | cons e es ih =>
    simp only [get?, lookup, h] at ih ⊢
    split
    · rfl
    · exact ih

theorem keys_put (t : Table κ α) (k : κ) (v : α) :
    (t.put k v).keys = if (t.get? k).isSome then t.keys else t.keys ++ [k] := by
  rcases write_cases k v t.entries with ⟨before, d, after, hes, hd, hwrite⟩ | ⟨hes, hwrite⟩
  · rw [if_pos (isSome_get?_iff.2 ⟨d, by simp [hes], hd⟩)]
    rw [put, keys, hwrite, keys, hes]
    simp
  · rw [if_neg fun h => ?_]
    · simp [put, keys, hwrite]
    · obtain ⟨e, he, hk⟩ := isSome_get?_iff.1 h
      exact hes e he hk

theorem get?_filter {p : κ → Bool} (hp : ∀ k l, key k = key l → p k = p l) (t : Table κ α) (k : κ) :
    (t.filter fun l _ => p l).get? k = if p k then t.get? k else none := by
  obtain ⟨es⟩ := t
  induction es with
  | nil => simp [filter, get?, lookup]
  | cons e es ih =>
    simp only [filter, get?] at ih ⊢
    by_cases he : key e.1 = key k
    · by_cases hk : p k = true
      · simp [hp e.1 k he, hk, lookup, he]
      · rw [List.filter_cons, hp e.1 k he, if_neg hk, ih, if_neg hk, if_neg hk]
    · by_cases hpe : p e.1 = true
      · simp [hpe, lookup, he, ih]
      · simp [hpe, lookup, he, ih]

/-- No two keys are spellings of one. -/
def IsDistinct (t : Table κ α) : Prop :=
  t.entries.Pairwise fun d e => key d.1 ≠ key e.1

namespace IsDistinct

omit [DecidableEq κ] in
theorem empty : ({} : Table κ α).IsDistinct :=
  List.Pairwise.nil

omit [DecidableEq κ] in
theorem of_sublist {t u : Table κ α} (h : t.IsDistinct) (hsub : u.entries.Sublist t.entries) :
    u.IsDistinct :=
  h.sublist hsub

theorem put {t : Table κ α} (h : t.IsDistinct) (k : κ) (v : α) : (t.put k v).IsDistinct := by
  unfold IsDistinct at h ⊢
  rcases write_cases k v t.entries with ⟨before, d, after, hes, -, hwrite⟩ | ⟨hes, hwrite⟩
  · rw [hes] at h
    rw [Table.put, hwrite]
    simpa [List.pairwise_append, List.pairwise_cons] using h
  · rw [Table.put, hwrite, List.pairwise_append]
    exact ⟨h, List.pairwise_singleton _ _, fun e he d hd => by
      rw [List.mem_singleton.1 hd]
      exact hes e he⟩

omit [DecidableEq κ] in
/-- Entries of one key are the same. -/
theorem eq_of_key_eq {t : Table κ α} (h : t.IsDistinct) {d e : κ × α} (hd : d ∈ t.entries)
    (he : e ∈ t.entries) (hkey : key d.1 = key e.1) : d = e := by
  have hsymm : Std.Symm fun d e : κ × α => key d.1 ≠ key e.1 := ⟨fun _ _ hxy => Ne.symm hxy⟩
  by_contra hne
  exact List.Pairwise.forall h hd he hne hkey

theorem get?_eq_some_iff {t : Table κ α} (h : t.IsDistinct) {k : κ} {v : α} :
    t.get? k = some v ↔ ∃ l, key l = key k ∧ (l, v) ∈ t.entries := by
  constructor
  · exact lookup_mem
  · rintro ⟨l, hl, hmem⟩
    obtain ⟨w, hw⟩ := Option.isSome_iff_exists.1 (isSome_get?_iff.2 ⟨_, hmem, hl⟩)
    obtain ⟨m, hm, hmem'⟩ := lookup_mem hw
    have heq := h.eq_of_key_eq hmem hmem' (hl.trans hm.symm)
    rw [hw, (Prod.mk.inj heq).2]

/-- Where a key is there, a write replaces its value. -/
theorem put_eq_map {t : Table κ α} (h : t.IsDistinct) {k : κ} (hk : (t.get? k).isSome) (v : α) :
    t.put k v = ⟨t.entries.map fun e => if key e.1 = key k then (e.1, v) else e⟩ := by
  rcases write_cases k v t.entries with ⟨before, d, after, hes, hd, hwrite⟩ | ⟨hes, -⟩
  · unfold IsDistinct at h
    rw [hes, List.pairwise_append, List.pairwise_cons] at h
    obtain ⟨-, ⟨hafter, -⟩, hbefore⟩ := h
    have hleft : ∀ e ∈ before, (if key e.1 = key k then (e.1, v) else e) = e := fun e he =>
      if_neg fun hek => hbefore e he d List.mem_cons_self (hek.trans hd.symm)
    have hright : ∀ e ∈ after, (if key e.1 = key k then (e.1, v) else e) = e := fun e he =>
      if_neg fun hek => hafter e he (hd.trans hek.symm)
    rw [Table.put, hwrite, hes, List.map_append, List.map_cons, List.map_congr_left hleft,
      List.map_congr_left hright, if_pos hd, List.map_id', List.map_id']
  · obtain ⟨e, he, hek⟩ := isSome_get?_iff.1 hk
    exact absurd hek (hes e he)

/-- A written table holds the new value under some spelling of its key, and the old entries of
other keys. -/
theorem mem_put {t : Table κ α} (h : t.IsDistinct) {k : κ} {v : α} {e : κ × α}
    (he : e ∈ (t.put k v).entries) :
    key e.1 = key k ∧ e.2 = v ∨ e ∈ t.entries ∧ key e.1 ≠ key k := by
  rcases write_cases k v t.entries with ⟨before, d, after, hes, hd, hwrite⟩ | ⟨hes, hwrite⟩
  · have hrest : ∀ x ∈ before ++ after, key x.1 ≠ key k := by
      unfold IsDistinct at h
      rw [hes, List.pairwise_append, List.pairwise_cons] at h
      obtain ⟨-, ⟨hafter, -⟩, hbefore⟩ := h
      intro x hx hxk
      rcases List.mem_append.1 hx with hx | hx
      · exact hbefore x hx d List.mem_cons_self (hxk.trans hd.symm)
      · exact hafter x hx (hd.trans hxk.symm)
    rw [Table.put, hwrite, List.mem_append, List.mem_cons] at he
    rcases he with he | rfl | he
    · exact .inr ⟨by simp [hes, he], hrest e (by simp [he])⟩
    · exact .inl ⟨hd, rfl⟩
    · exact .inr ⟨by simp [hes, he], hrest e (by simp [he])⟩
  · rw [Table.put, hwrite, List.mem_append, List.mem_singleton] at he
    rcases he with he | rfl
    · exact .inr ⟨he, hes e he⟩
    · exact .inl ⟨rfl, rfl⟩

end IsDistinct

/-- The table with the value of one key changed or taken out. -/
def alter (k : κ) (f : α → Option α) (t : Table κ α) : Table κ α :=
  ⟨t.entries.filterMap fun e => if key e.1 = key k then (f e.2).map (e.1, ·) else some e⟩

theorem keys_alter_sublist (k : κ) (f : α → Option α) (t : Table κ α) :
    (t.alter k f).keys.Sublist t.keys := by
  obtain ⟨es⟩ := t
  induction es with
  | nil => exact List.Sublist.refl _
  | cons e es ih =>
    simp only [alter, keys] at ih ⊢
    rw [List.filterMap_cons]
    by_cases he : key e.1 = key k
    · rw [if_pos he]
      cases f e.2 with
      | none => exact ih.cons _
      | some v => exact ih.cons_cons _
    · rw [if_neg he]
      exact ih.cons_cons _

/-- What has been changed has come from the entry of the key; every other entry is as it was. -/
theorem mem_alter {k : κ} {f : α → Option α} {t : Table κ α} {e : κ × α}
    (he : e ∈ (t.alter k f).entries) :
    (∃ v, (e.1, v) ∈ t.entries ∧ key e.1 = key k ∧ f v = some e.2) ∨
      e ∈ t.entries ∧ key e.1 ≠ key k := by
  obtain ⟨d, hd, hde⟩ := List.mem_filterMap.1 he
  by_cases hk : key d.1 = key k
  · rw [if_pos hk] at hde
    obtain ⟨v, hv, rfl⟩ := Option.map_eq_some_iff.1 hde
    exact .inl ⟨d.2, hd, hk, hv⟩
  · rw [if_neg hk] at hde
    obtain rfl := Option.some.inj hde
    exact .inr ⟨hd, hk⟩

theorem lookup_eq_none {k : κ} {es : List (κ × α)} (h : ∀ e ∈ es, key e.1 ≠ key k) :
    lookup k es = none := by
  induction es with
  | nil => rfl
  | cons e es ih =>
    obtain ⟨he, hes⟩ := List.forall_mem_cons.1 h
    rw [lookup, if_neg he, ih hes]

theorem IsDistinct.alter {t : Table κ α} (h : t.IsDistinct) (k : κ) (f : α → Option α) :
    (t.alter k f).IsDistinct := by
  have hkeys : (t.keys.map key).Nodup := by
    rw [keys, List.map_map]
    exact List.pairwise_map.2 h
  have hsub := ((keys_alter_sublist k f t).map key).nodup hkeys
  rw [keys, List.map_map] at hsub
  exact List.pairwise_map.1 hsub

theorem IsDistinct.get?_alter {t : Table κ α} (h : t.IsDistinct) (k : κ) (f : α → Option α)
    (l : κ) : (t.alter k f).get? l = if key l = key k then (t.get? k).bind f else t.get? l := by
  by_cases hl : key l = key k
  · rw [if_pos hl, get?_congr hl]
    cases hk : t.get? k with
    | none =>
      refine lookup_eq_none fun e he hek => ?_
      rcases mem_alter he with ⟨v, hv, -, -⟩ | ⟨-, hne⟩
      · have hsome : (t.get? k).isSome := isSome_get?_iff.2 ⟨(e.1, v), hv, hek⟩
        simp [hk] at hsome
      · exact hne hek
    | some v =>
      obtain ⟨m, hm, hmem⟩ := lookup_mem hk
      rw [Option.bind_some]
      cases hv : f v with
      | none =>
        refine lookup_eq_none fun e he hek => ?_
        rcases mem_alter he with ⟨w, hw, -, hfw⟩ | ⟨-, hne⟩
        · have heq := h.eq_of_key_eq hmem hw (hm.trans hek.symm)
          rw [(Prod.mk.inj heq).2, hfw] at hv
          simp at hv
        · exact hne hek
      | some w =>
        refine (h.alter k f).get?_eq_some_iff.2 ⟨m, hm, List.mem_filterMap.2 ⟨_, hmem, ?_⟩⟩
        rw [if_pos hm, hv]
        rfl
  · rw [if_neg hl]
    cases hg : t.get? l with
    | none =>
      refine lookup_eq_none fun e he hel => ?_
      rcases mem_alter he with ⟨v, -, hek, -⟩ | ⟨he, -⟩
      · exact hl (hel.symm.trans hek)
      · have hsome := isSome_get?_iff.2 ⟨_, he, hel⟩
        simp [hg] at hsome
    | some v =>
      obtain ⟨m, hm, hmem⟩ := lookup_mem hg
      refine (h.alter k f).get?_eq_some_iff.2 ⟨m, hm, List.mem_filterMap.2 ⟨_, hmem, ?_⟩⟩
      exact if_neg fun hmk => hl (hm.symm.trans hmk)

theorem IsDistinct.eq_of_get? {t : Table κ α} (h : t.IsDistinct) {k : κ} {v : α}
    (hv : t.get? k = some v) {e : κ × α} (he : e ∈ t.entries) (hek : key e.1 = key k) :
    e.2 = v := by
  obtain ⟨l, hl, hmem⟩ := lookup_mem hv
  rw [h.eq_of_key_eq he hmem (hek.trans hl.symm)]

/-- Writing the value that is there changes nothing. -/
theorem put_self {t : Table κ α} {k : κ} {v : α} (h : t.get? k = some v) : t.put k v = t := by
  have hwrite : ∀ es : List (κ × α), lookup k es = some v → write k v es = es := by
    intro es
    induction es with
    | nil => simp [lookup]
    | cons e es ih =>
      intro hv
      by_cases he : key e.1 = key k
      · obtain rfl : e.2 = v := by simpa [lookup, he] using hv
        simp [write, he]
      · simp only [lookup, he, if_false] at hv
        simp [write, he, ih hv]
  exact congrArg Table.mk (hwrite t.entries h)

theorem IsDistinct.alter_of_none {t : Table κ α} (h : t.IsDistinct) {k : κ} {v : α}
    (hv : t.get? k = some v) {f : α → Option α} (hf : f v = none) : t.alter k f = t.erase k := by
  rw [Table.alter, Table.erase, ← List.filterMap_eq_filter]
  congr 1
  refine List.filterMap_congr fun e he => ?_
  by_cases hek : key e.1 = key k
  · simp [hek, h.eq_of_get? hv he hek, hf, Option.guard]
  · simp [hek, Option.guard]

theorem IsDistinct.alter_of_some {t : Table κ α} (h : t.IsDistinct) {k : κ} {v w : α}
    (hv : t.get? k = some v) {f : α → Option α} (hf : f v = some w) : t.alter k f = t.put k w := by
  rw [Table.alter, h.put_eq_map (by simp [hv]), ← List.filterMap_eq_map]
  congr 1
  refine List.filterMap_congr fun e he => ?_
  by_cases hek : key e.1 = key k
  · simp [hek, h.eq_of_get? hv he hek, hf]
  · simp [hek]

/-- Entries written in order stand in that order. -/
theorem IsDistinct.foldl_put : ∀ {es : List (κ × α)} {t : Table κ α},
    IsDistinct ⟨t.entries ++ es⟩ → es.foldl (fun t e => t.put e.1 e.2) t = ⟨t.entries ++ es⟩
  | [], t, _ => by simp
  | e :: es, t, h => by
    have hnew : ∀ l ∈ t.keys, key l ≠ key e.1 := by
      intro l hl
      obtain ⟨d, hd, rfl⟩ := List.mem_map.1 hl
      exact (List.pairwise_append.1 h).2.2 d hd e List.mem_cons_self
    have hsplit : IsDistinct ⟨(t.entries ++ [e]) ++ es⟩ := by simpa using h
    rw [List.foldl_cons, put_of_not_mem hnew, IsDistinct.foldl_put hsplit]
    simp

theorem IsDistinct.putRow {t : Table κ α} (h : t.IsDistinct) (e : κ × α) :
    (Snapshot.putRow t e).IsDistinct := by
  have hspelling : ∀ d : κ × α, key (if key d.1 = key e.1 then (e.1, d.2) else d).1 = key d.1 := by
    intro d
    split
    · next hd => exact hd.symm
    · rfl
  refine List.pairwise_map.2 ((h.put e.1 e.2).imp fun hne => ?_)
  rw [hspelling, hspelling]
  exact hne

/-- A row that is written to a table brings its own entry, and leaves the entries of other keys. -/
theorem IsDistinct.mem_putRow {t : Table κ α} (h : t.IsDistinct) {e f : κ × α}
    (hf : f ∈ (Snapshot.putRow t e).entries) : f = e ∨ f ∈ t.entries ∧ key f.1 ≠ key e.1 := by
  obtain ⟨d, hd, rfl⟩ := List.mem_map.1 hf
  rcases h.mem_put hd with ⟨hk, hv⟩ | ⟨hd, hk⟩
  · rw [if_pos hk, hv]
    exact .inl rfl
  · rw [if_neg hk]
    exact .inr ⟨hd, hk⟩

theorem putRow_entries_ne_nil (t : Table κ α) (e : κ × α) :
    (Snapshot.putRow t e).entries ≠ [] := by
  obtain ⟨es⟩ := t
  cases es with
  | nil => simp [Snapshot.putRow, Table.put, Table.respell, write]
  | cons d es =>
    simp only [Snapshot.putRow, Table.put, Table.respell, write]
    split <;> simp

/-! ## 6. Counts -/

/-- The count of an item is the number of items that are spellings of one key with it. -/
theorem get?_counts (xs : List κ) (k : κ) :
    ((⟨counts xs⟩ : Table κ Nat).get? k).getD 0 = (xs.map key).count (key k) := by
  have hfold : ∀ (xs : List κ) (t : Table κ Nat),
      ((xs.foldl (fun (t : Table κ Nat) x => t.put x ((t.get? x).getD 0 + 1)) t).get? k).getD 0 =
        (t.get? k).getD 0 + (xs.map key).count (key k) := by
    intro xs
    induction xs with
    | nil => exact fun t => rfl
    | cons x xs ih =>
      intro t
      rw [List.foldl_cons, ih, get?_put, List.map_cons, List.count_cons]
      by_cases hx : key k = key x
      · simp [hx, get?_congr hx]
        omega
      · simp [hx, Ne.symm hx]
  exact (hfold xs empty).trans (Nat.zero_add _)

/-- Where no item occurs more than once, no two items are spellings of one key. -/
theorem nodup_of_counts {xs : List κ} (h : ∀ e ∈ counts xs, e.2 ≤ 1) : (xs.map key).Nodup := by
  refine List.nodup_iff_count_le_one.2 fun k => ?_
  by_cases hk : k ∈ xs.map key
  · obtain ⟨x, -, rfl⟩ := List.mem_map.1 hk
    rw [← get?_counts]
    cases hn : (⟨counts xs⟩ : Table κ Nat).get? x with
    | none => exact Nat.zero_le 1
    | some n =>
      obtain ⟨l, -, hmem⟩ := lookup_mem hn
      exact h _ hmem
  · rw [List.count_eq_zero_of_not_mem hk]
    exact Nat.zero_le 1

/-- In a list without repetitions every item occurs once. -/
theorem counts_of_nodup {xs : List κ}
    (hplain : ∀ x ∈ xs, key x = x) (h : xs.Nodup) : counts xs = xs.map fun x => (x, 1) := by
  have hfold : ∀ (ys done : List κ), (∀ x ∈ done ++ ys, key x = x) → (done ++ ys).Nodup →
      (ys.foldl (fun (t : Table κ Nat) x => t.put x ((t.get? x).getD 0 + 1))
        ⟨done.map fun x => (x, 1)⟩) = ⟨(done ++ ys).map fun x => (x, 1)⟩ := by
    intro ys
    induction ys with
    | nil => simp
    | cons y ys ih =>
      intro done hplain hnodup
      have hnew : ∀ e ∈ done.map fun x => (x, 1), key e.1 ≠ key y := by
        intro e he
        obtain ⟨x, hx, rfl⟩ := List.mem_map.1 he
        rw [hplain x (by simp [hx]), hplain y (by simp)]
        exact (List.nodup_append.1 hnodup).2.2 x hx y (by simp)
      have hnone : (⟨done.map fun x => (x, 1)⟩ : Table κ Nat).get? y = none := lookup_eq_none hnew
      have hput : (⟨done.map fun x => (x, 1)⟩ : Table κ Nat).put y 1 =
          ⟨(done ++ [y]).map fun x => (x, 1)⟩ := by
        rw [put_of_not_mem fun l hl => ?_]
        · simp
        · obtain ⟨e, he, rfl⟩ := List.mem_map.1 hl
          exact hnew e he
      rw [List.foldl_cons, hnone, Option.getD_none, hput, ih (done ++ [y]) (by simpa using hplain)
        (by simpa using hnodup)]
      simp
  have hall := hfold xs [] (by simpa using hplain) (by simpa using h)
  exact congrArg Table.entries hall

end StyleLedger.Table
