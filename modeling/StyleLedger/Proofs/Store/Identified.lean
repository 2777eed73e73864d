import StyleLedger.Proofs.Store.Anchored

/-!
The rows of a cascade meet the constraints of the schema.

An identifier is computed from a natural key, so distinct identifiers come from distinct natural
keys. Most tables are addressed by their natural keys. Raw blocks, imports and properties of buckets
are not: a number is at the end of their keys, behind a text that a migration has chosen, and the
number can be read off the key because digits hold no colon (`number_eq_of_key_eq`). So it is enough
that no number is used twice, and it does not matter which migration has first written a row. Pages
are the exception: a page without a pseudo-class has the key of a page that is called `default`.

References are safe because no selector and no layer is ever removed and every bucket is anchored.

* `Cascade.naturalKeys` — the keys that the identifiers in the rows of a cascade are computed from.
* `Snapshot.MeetsSchema` — the constraints.
-/

namespace StyleLedger

open Outcome Identity

/-! ## 1. Constraints and natural keys -/

/-- The constraints of the schema: no identifier occurs twice in a table, a column that must be
filled is not empty, and rows point at rows that are there. -/
structure Snapshot.MeetsSchema (s : Snapshot) : Prop where
  ids : ∀ t ∈ s.tables, (t.2.map (·.id)).Nodup
  filled : ∀ t ∈ s.tables, ∀ r ∈ t.2, ∀ c ∈ t.1.columns, c.required = true → r.get c.name ≠ .null
  selector : ∀ r ∈ s.styles, r.get "selector_id" ∈ s.selectors.map (·.id)
  layer : ∀ r ∈ s.styles, r.get "layer_id" = .null ∨ r.get "layer_id" ∈ s.layers.map (·.id)
  scopeRoot : ∀ r ∈ s.styles,
    r.get "scope_root_id" = .null ∨ r.get "scope_root_id" ∈ s.selectors.map (·.id)
  scopeLimit : ∀ r ∈ s.styles,
    r.get "scope_limit_id" = .null ∨ r.get "scope_limit_id" ∈ s.selectors.map (·.id)
  starting : ∀ r ∈ s.startingStyles, r.get "selector_id" ∈ s.selectors.map (·.id)

/-- The natural keys of the rows of a kind, in a cascade that some migrations have written. A
property keeps its row when another migration overwrites it, so that any of them may stand in the
key of a property. -/
def Cascade.naturalKeys (migrations : List String) (s : Cascade) : EntityKind → List Json
  | .token => s.tokens.keys
  | .selector => s.selectors.keys
  | .layer => s.layers.entries.keys
  | .style => migrations.flatMap fun m =>
      s.buckets.sequenceCells.map fun n => .text (styleKey (.text m) n)
  | .property => s.properties.keys
  | .fontFace => s.fontFaces.keys.map .text
  | .keyframes => s.keyframes.keys
  | .raw => s.raw.map fun r => .text (rawKey (Snapshot.keyMigration r.provenance) r.sequence)
  | .imports => s.imports.map fun i =>
      .text (importKey (Snapshot.keyMigration i.provenance) i.sequence)
  | .page => s.pages.keys.map pageKey
  | .counterStyle => s.counterStyles.keys
  | .fontFeatureValues => s.fontFeatureValues.keys
  | .fontPaletteValues => s.fontPaletteValues.keys
  | .startingStyle => s.startingStyles.keys

/-! ## 2. Numbers in natural keys -/

namespace Identity

theorem colon_not_mem_digits (n : Nat) : ':' ∉ Nat.toDigits 10 n := by
  intro h
  have hdigit : ':'.isDigit = true := Nat.isDigit_of_mem_toDigits (by omega) (by omega) h
  revert hdigit
  decide

/-- What follows the last colon of a text. -/
theorem eq_of_append_colon {front front' back back' : List Char} (hback : ':' ∉ back)
    (hback' : ':' ∉ back') (h : front ++ ':' :: back = front' ++ ':' :: back') : back = back' := by
  rcases List.append_eq_append_iff.1 h with ⟨cs, rfl, hcs⟩ | ⟨cs, rfl, hcs⟩
  · cases cs with
    | nil => exact (List.cons.inj hcs).2
    | cons c cs =>
      rw [(List.cons.inj hcs).2] at hback
      exact absurd (by simp) hback
  · cases cs with
    | nil => exact (List.cons.inj hcs).2.symm
    | cons c cs =>
      rw [(List.cons.inj hcs).2] at hback'
      exact absurd (by simp) hback'

/-- The number at the end of a key can be read off it. -/
theorem number_eq_of_key_eq {front front' : String} {i j : Nat}
    (h : front ++ ":" ++ toString i = front' ++ ":" ++ toString j) : i = j := by
  have hchars := congrArg String.toList h
  simp only [String.toList_append, Nat.toString_eq_ofList_toDigits, String.toList_ofList,
    List.append_assoc] at hchars
  have hdigits := eq_of_append_colon (colon_not_mem_digits i) (colon_not_mem_digits j) hchars
  simpa only [Nat.ofDigitChars_ten_toDigits] using congrArg (Nat.ofDigitChars 10 · 0) hdigits

theorem number_eq_of_styleKey_eq {m m' : Json} {i j : Nat}
    (h : styleKey m (.int i) = styleKey m' (.int j)) : i = j :=
  number_eq_of_key_eq h

/-- The same where a word stands before the last colon. -/
theorem number_eq_of_labelled_eq {front front' label : String} {i j : Nat}
    (h : front ++ (label ++ ":") ++ toString i = front' ++ (label ++ ":") ++ toString j) :
    i = j := by
  rw [← String.append_assoc, ← String.append_assoc] at h
  exact number_eq_of_key_eq h

theorem number_eq_of_rawKey_eq {m m' : Json} {i j : Nat}
    (h : rawKey m (.int i) = rawKey m' (.int j)) : i = j := by
  have hlabel : ":raw:" = ":raw" ++ ":" := rfl
  rw [rawKey, rawKey, hlabel] at h
  exact number_eq_of_labelled_eq h

theorem number_eq_of_importKey_eq {m m' : Json} {i j : Nat}
    (h : importKey m (.int i) = importKey m' (.int j)) : i = j := by
  have hlabel : ":import:" = ":import" ++ ":" := rfl
  rw [importKey, importKey, hlabel] at h
  exact number_eq_of_labelled_eq h

/-- Keys that end in the places of a list are distinct. -/
theorem nodup_of_numbered {α : Type} {number : α → Json} {naturalKey : α → String} {xs : List α}
    (hnumber : ∀ (i : Nat) x, xs[i]? = some x → number x = .int i)
    (hkey : ∀ x y (i j : Nat), number x = .int i → number y = .int j →
      naturalKey x = naturalKey y → i = j) :
    (xs.map fun x => Json.text (naturalKey x)).Nodup := by
  refine List.pairwise_map.2 (List.pairwise_iff_getElem.2 fun i j hi hj hij heq => ?_)
  have hplace := hkey _ _ i j (hnumber i _ (List.getElem?_eq_getElem hi))
    (hnumber j _ (List.getElem?_eq_getElem hj)) (Json.text.inj heq)
  omega

end Identity

/-! ## 3. Identifiers -/

namespace Snapshot

variable {s : Cascade} {log : List LogEntry}

/-- Rows whose identifiers are those of distinct keys have distinct identifiers. -/
theorem nodup_ids {kind : EntityKind} {rows : List Row} {naturalKeys : List Json}
    (hids : Separates kind naturalKeys) (hstring : ∀ k ∈ naturalKeys, k.IsString)
    (hdistinct : naturalKeys.Nodup) (hrows : rows.map (·.id) = naturalKeys.map (idCell kind)) :
    (rows.map (·.id)).Nodup :=
  hrows ▸ nodup_idCells hids hstring hdistinct

/-- Names are kept apart when their identifiers are distinct, which can be computed. -/
theorem separates_of_nodup {kind : EntityKind} {names : List Json}
    (h : (names.map (idCell kind)).Nodup) : Separates kind names :=
  fun _ _ ha hb heq =>
    Json.text.inj (List.inj_on_of_nodup_map h ha hb (congrArg Json.text heq))

/-- The rows of a table that is addressed by natural keys have distinct identifiers. -/
theorem nodup_ids_of_isNamed {α : Type} {V : α → Prop} {t : Table Json α} (ht : t.IsNamed V)
    {kind : EntityKind} (hids : Separates kind t.keys) {row : Json × α → Row}
    (hrow : ∀ e, (row e).id = idCell kind e.1) : ((t.entries.map row).map (·.id)).Nodup :=
  nodup_ids hids (fun _ => ht.isString) ht.distinct (by simp [Table.keys, hrow])

/-- So have the rows of font faces. -/
theorem nodup_faceIds {s : Cascade} (hfaces : s.fontFaces.IsCanonical)
    (hids : Separates .fontFace (s.fontFaces.keys.map .text)) (log : List LogEntry) :
    ((ofCascade s log).fontFaces.map (·.id)).Nodup := by
  refine nodup_ids hids (fun k hk => ?_) (hfaces.distinct.map fun _ _ => Json.text.inj)
    (by simp only [ofCascade, Table.keys, List.map_map]; rfl)
  obtain ⟨key, -, rfl⟩ := List.mem_map.1 hk
  exact Json.isString_text key

theorem pageKey_text (n : String) :
    pageKey (.text n) = .text (if n = "" then "default" else n) := by
  by_cases hn : n = ""
  · subst hn
    rfl
  · have htrue : (Json.text n).isTrue = true := by simpa [Json.isTrue] using hn
    simp [pageKey, Json.orElse, htrue, hn]

/-- Different pages have one natural key only if one has no name and the other is called as such
pages are. -/
theorem pageKey_eq_iff {m n : String} : pageKey (.text m) = pageKey (.text n) ↔
    m = n ∨ m = "" ∧ n = "default" ∨ m = "default" ∧ n = "" := by
  rw [pageKey_text, pageKey_text, Json.text.injEq]
  by_cases hm : m = ""
  · by_cases hn : n = ""
    · simp [hm, hn]
    · simpa [hm, hn, Ne.symm hn] using eq_comm
  · by_cases hn : n = ""
    · simp [hm, hn]
    · simp [hm, hn]

/-- Pages have distinct natural keys, unless one is called like those that have no name. -/
theorem nodup_pageKeys {V : RuleBlock → Prop} {t : Table Json RuleBlock} (ht : t.IsNamed V)
    (hpages : ¬(.text "" ∈ t.keys ∧ .text "default" ∈ t.keys)) : (t.keys.map pageKey).Nodup := by
  refine List.Nodup.map_on (fun a ha b hb hab => ?_) ht.distinct
  obtain ⟨m, rfl⟩ := ht.isString ha
  obtain ⟨n, rfl⟩ := ht.isString hb
  obtain rfl | ⟨rfl, rfl⟩ | ⟨rfl, rfl⟩ := pageKey_eq_iff.1 hab
  · rfl
  · exact absurd ⟨ha, hb⟩ hpages
  · exact absurd ⟨hb, ha⟩ hpages

end Snapshot

namespace BucketIndex

/-- All properties of all buckets. -/
def properties (index : BucketIndex) : List StyleProperty :=
  index.buckets.values.flatMap fun b => b.properties.values

theorem sequenceCells_eq (index : BucketIndex) :
    index.sequenceCells = index.properties.map (·.sequence) := by
  simp [sequenceCells, properties, List.map_flatMap]

theorem ids_indexRows (index : BucketIndex) :
    (Snapshot.indexRows index).map (·.id) = index.properties.map (·.rowId) := by
  simp only [Snapshot.indexRows, Snapshot.styleRows, properties, Table.values, List.map_flatMap,
    List.flatMap_map, List.map_map]
  rfl

variable {migrations : List String} {index : BucketIndex}

theorem IsSound.isNumbered (h : index.IsSound migrations) {p : StyleProperty}
    (hp : p ∈ index.properties) : p.IsNumbered migrations := by
  obtain ⟨b, hb, hp⟩ := List.mem_flatMap.1 hp
  obtain ⟨e, he, rfl⟩ := List.mem_map.1 hb
  obtain ⟨f, hf, rfl⟩ := List.mem_map.1 hp
  exact (h.properties e he f hf).2

/-- Rows of properties have distinct identifiers, whichever migrations have written them first. -/
theorem IsSound.nodup_rowIds (h : index.IsSound migrations)
    (hids : Separates .style (migrations.flatMap fun m =>
      index.sequenceCells.map fun n => .text (styleKey (.text m) n))) :
    ((Snapshot.indexRows index).map (·.id)).Nodup := by
  have hnumbers := h.nodup_sequenceCells
  rw [sequenceCells_eq] at hnumbers hids
  have hkey : ∀ {m : String} {p : StyleProperty}, m ∈ migrations → p ∈ index.properties →
      Json.text (styleKey (.text m) p.sequence) ∈ migrations.flatMap fun m =>
        (index.properties.map (·.sequence)).map fun n => .text (styleKey (.text m) n) :=
    fun hm hp => List.mem_flatMap.2 ⟨_, hm, List.mem_map_of_mem (List.mem_map_of_mem hp)⟩
  rw [ids_indexRows]
  refine List.pairwise_map.2 ((List.pairwise_map.1 hnumbers).imp_of_mem fun hp hq hne heq => ?_)
  obtain ⟨⟨i, hi, hipos⟩, m, hm, hpid⟩ := h.isNumbered hp
  obtain ⟨⟨j, hj, hjpos⟩, m', hm', hqid⟩ := h.isNumbered hq
  rw [hpid, hqid] at heq
  have hkeys := hids _ _ (hkey hm hp) (hkey hm' hq) (Json.text.inj heq)
  obtain ⟨i, rfl⟩ := Int.eq_ofNat_of_zero_le (Int.le_of_lt hipos)
  obtain ⟨j, rfl⟩ := Int.eq_ofNat_of_zero_le (Int.le_of_lt hjpos)
  rw [hi, hj] at hkeys hne
  exact hne (by rw [number_eq_of_styleKey_eq hkeys])

end BucketIndex

/-! ## 4. References -/

namespace Snapshot

variable {s : Cascade}

theorem ids_selectorRows (s : Cascade) (log : List LogEntry) :
    (ofCascade s log).selectors.map (·.id) = s.selectors.keys.map (idCell .selector) := by
  simp only [ofCascade, Table.keys, List.map_map]
  rfl

theorem ids_layerRows (s : Cascade) (log : List LogEntry) :
    (ofCascade s log).layers.map (·.id) = s.layers.entries.keys.map (idCell .layer) := by
  simp only [ofCascade, Table.keys, List.map_map]
  refine List.map_congr_left fun e _ => ?_
  exact (get_layerRow s.layers e.1 e.2).2.2.1

/-- A reference to what is known is the identifier of its row; there may be none. -/
theorem reference_mem {kind : EntityKind} {names : List Json} {v : Json}
    (hv : v = .null ∨ v.RefersTo names) :
    reference (idCell kind) v = .null ∨ reference (idCell kind) v ∈ names.map (idCell kind) := by
  rcases hv with rfl | ⟨hmem, n, hne, rfl⟩
  · exact .inl rfl
  · have htrue : (Json.text n).isTrue = true := by simpa [Json.isTrue] using hne
    rw [reference, if_pos htrue]
    exact .inr (List.mem_map_of_mem hmem)

/-- Every style row is that of a property in a bucket whose key is anchored. -/
theorem exists_of_mem_styles (h : s.IsAnchored) {log : List LogEntry} {r : Row}
    (hr : r ∈ (ofCascade s log).styles) : ∃ k touched name p,
      k.IsAnchored s.selectors.keys s.layers.entries.keys ∧ r = styleRow k touched name p := by
  obtain ⟨e, he, hr⟩ := List.mem_flatMap.1 hr
  obtain ⟨f, hf, rfl⟩ := List.mem_map.1 hr
  exact ⟨e.1, _, _, _, h.keys _ (Table.mem_keys_of_mem he), rfl⟩

end Snapshot

/-! ## 5. The constraints -/

/-- A column that must be filled is not empty in a row that fits. -/
theorem Column.Fits.ne_null {c : Column} {v : Json} (h : c.Fits v) (hrequired : c.required = true) :
    v ≠ .null := by
  rintro rfl
  unfold Column.Fits at h
  rw [hrequired] at h
  split at h
  · obtain ⟨n, hn⟩ := h
    simp at hn
  · contradiction
  · obtain ⟨n, hn⟩ := h
    simp [Json.int] at hn
  · contradiction
  · obtain ⟨b, hb⟩ := h
    simp at hb

namespace Cascade.IsReachable

open Snapshot

variable {migrations : List String} {ctx : Context} {s : Cascade}

/-- What is reached and has distinct identifiers is anchored. -/
theorem isAnchored_of_separates (h : IsReachable migrations ctx s)
    (hids : ∀ kind, Separates kind (s.naturalKeys migrations kind)) : s.IsAnchored :=
  (h.isAnchored (hids .selector) (hids .layer)).1

theorem nodup_ids (h : IsReachable migrations ctx s)
    (hids : ∀ kind, Separates kind (s.naturalKeys migrations kind))
    (hpages : ¬(.text "" ∈ s.pages.keys ∧ .text "default" ∈ s.pages.keys)) (log : List LogEntry) :
    ∀ t ∈ (ofCascade s log).tables, (t.2.map (·.id)).Nodup := by
  have hrest := (h.isAnchored_of_separates hids).rest
  have hraw : (s.naturalKeys migrations .raw).Nodup := nodup_of_numbered hrest.raw
    fun x y i j hx hy heq => number_eq_of_rawKey_eq (by rwa [hx, hy] at heq)
  have himports : (s.naturalKeys migrations .imports).Nodup := nodup_of_numbered hrest.imports
    fun x y i j hx hy heq => number_eq_of_importKey_eq (by rwa [hx, hy] at heq)
  have htexts : ∀ {α : Type} {f : α → String} {xs : List α},
      ∀ k ∈ xs.map fun x => Json.text (f x), k.IsString := by
    intro α f xs k hk
    obtain ⟨x, -, rfl⟩ := List.mem_map.1 hk
    exact Json.isString_text _
  refine List.forall_iff_forall_mem.1 ⟨?tokens, ?selectors, ?layers, ?styles, ?properties,
    ?fontFaces, ?keyframes, ?rawBlocks, ?imports, ?pages, ?counterStyles, ?fontFeatureValues,
    ?fontPaletteValues, ?startingStyles⟩
  case tokens => exact nodup_ids_of_isNamed hrest.tokens (hids .token) fun _ => rfl
  case selectors => exact nodup_ids_of_isNamed hrest.selectors (hids .selector) fun _ => rfl
  case layers =>
    exact nodup_ids_of_isNamed hrest.layers.entries (hids .layer) fun e =>
      (get_layerRow s.layers e.1 e.2).2.2.1
  case styles => exact h.isSound.1.nodup_rowIds (hids .style)
  case properties => exact nodup_ids_of_isNamed hrest.properties (hids .property) fun _ => rfl
  case fontFaces => exact nodup_faceIds hrest.fontFaces.1 (hids .fontFace) log
  case keyframes => exact nodup_ids_of_isNamed hrest.keyframes (hids .keyframes) fun _ => rfl
  case rawBlocks =>
    exact Snapshot.nodup_ids (hids .raw) htexts hraw
      (by simp only [ofCascade, naturalKeys, List.map_map]; rfl)
  case imports =>
    exact Snapshot.nodup_ids (hids .imports) htexts himports
      (by simp only [ofCascade, naturalKeys, List.map_map]; rfl)
  case pages =>
    refine Snapshot.nodup_ids (hids .page) (fun k hk => ?_) (nodup_pageKeys hrest.pages hpages)
      (by simp only [ofCascade, naturalKeys, Table.keys, List.map_map]; rfl)
    obtain ⟨l, hl, rfl⟩ := List.mem_map.1 hk
    exact (hrest.pages.isString hl).isWord.orElse_text _
  case counterStyles =>
    exact nodup_ids_of_isNamed hrest.counterStyles (hids .counterStyle) fun _ => rfl
  case fontFeatureValues =>
    exact nodup_ids_of_isNamed hrest.fontFeatureValues (hids .fontFeatureValues) fun _ => rfl
  case fontPaletteValues =>
    exact nodup_ids_of_isNamed hrest.fontPaletteValues (hids .fontPaletteValues) fun _ => rfl
  case startingStyles =>
    exact nodup_ids_of_isNamed hrest.startingStyles (hids .startingStyle) fun _ => rfl

/-- The rows of everything that statements and reloads lead to meet the constraints of the
schema. -/
theorem meetsSchema (h : IsReachable migrations ctx s)
    (hids : ∀ kind, Separates kind (s.naturalKeys migrations kind))
    (hpages : ¬(.text "" ∈ s.pages.keys ∧ .text "default" ∈ s.pages.keys)) (log : List LogEntry) :
    (ofCascade s log).MeetsSchema := by
  have hanchored := h.isAnchored_of_separates hids
  have hfits := fits_ofCascade h.isTyped log
  constructor
  case ids => exact h.nodup_ids hids hpages log
  case filled =>
    intro t ht r hr c hc hrequired
    exact ((hfits t ht r hr).kinds c hc).ne_null hrequired
  case selector =>
    intro r hr
    obtain ⟨k, touched, name, p, hk, rfl⟩ := exists_of_mem_styles hanchored hr
    rw [ids_selectorRows]
    exact List.mem_map_of_mem hk.selector.1
  case layer =>
    intro r hr
    obtain ⟨k, touched, name, p, hk, rfl⟩ := exists_of_mem_styles hanchored hr
    rw [ids_layerRows]
    exact reference_mem hk.layer
  case scopeRoot =>
    intro r hr
    obtain ⟨k, touched, name, p, hk, rfl⟩ := exists_of_mem_styles hanchored hr
    rw [ids_selectorRows]
    exact reference_mem hk.scopeRoot
  case scopeLimit =>
    intro r hr
    obtain ⟨k, touched, name, p, hk, rfl⟩ := exists_of_mem_styles hanchored hr
    rw [ids_selectorRows]
    exact reference_mem hk.scopeLimit
  case starting =>
    intro r hr
    obtain ⟨e, he, rfl⟩ := List.mem_map.1 hr
    rw [ids_selectorRows]
    exact List.mem_map_of_mem (hanchored.rest.starting (Table.mem_keys_of_mem he))

end Cascade.IsReachable

end StyleLedger
