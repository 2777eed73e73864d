import StyleLedger.Proofs.Cascade.Typed
import StyleLedger.Store.Basic

/-!
The store holds the rows of a cascade as they are.

A column may change what it is given: numbers become texts, texts become numbers. It changes nothing
when every cell is of the kind its column is for, and then saving and loading gives the rows back
(`Fits.stored_eq`). The rows of a typed cascade fit (`fits_ofCascade`), and the cascade of rows that
fit is typed (`Fits.isTyped`), whether or not the rows give the cascade back that they were made of.
All snapshots that statements and reloads lead to are therefore held as they are.

* `Column.Fits`, `Schema.Fits`, `Snapshot.Fits` — every cell is of the kind its column is for.
-/

namespace StyleLedger

open Outcome

/-! ## 1. Cells and rows -/

/-- A value of the kind that a column is for; it may be absent unless the column must be filled. -/
def Column.Fits (c : Column) (v : Json) : Prop :=
  match c.affinity, c.required with
  | .text, true => v.IsString
  | .text, false => v.IsWord
  | .whole, true => v.IsWhole
  | .whole, false => v = .null ∨ v.IsWhole
  | .flag, _ => v.IsFlag

theorem Column.Fits.store_eq {c : Column} {v : Json} (h : c.Fits v) : c.affinity.store v = v := by
  have htext : v.IsWord → Affinity.text.store v = v := by
    rintro (rfl | ⟨s, rfl⟩) <;> rfl
  have hwhole : v = .null ∨ v.IsWhole → Affinity.whole.store v = v := by
    rintro (rfl | ⟨n, rfl⟩) <;> rfl
  unfold Column.Fits at h
  split at h
  · next ha _ => exact ha ▸ htext h.isWord
  · next ha _ => exact ha ▸ htext h
  · next ha _ => exact ha ▸ hwhole (.inr h)
  · next ha _ => exact ha ▸ hwhole h
  · next ha =>
    obtain ⟨b, rfl⟩ := h
    rw [ha]
    cases b <;> decide

/-- A row with the cells of its table is held as it is when each of its columns changes nothing. -/
theorem Schema.store_eq_self {schema : Schema} {r : Row}
    (hcells : r.cells = schema.columns.map fun c => (c.name, r.get c.name))
    (h : ∀ c ∈ schema.columns, c.affinity.store (r.get c.name) = r.get c.name) :
    schema.store r = r := by
  have hstored : schema.columns.map (fun c => (c.name, c.affinity.store (r.get c.name))) =
      schema.columns.map fun c => (c.name, r.get c.name) :=
    List.map_congr_left fun c hc => by rw [h c hc]
  rw [Schema.store, hstored, ← hcells]

/-- The cells of a row are those of its table, in order, and each is of the kind its column is
for. -/
structure Schema.Fits (schema : Schema) (r : Row) : Prop where
  cells : r.cells = schema.columns.map fun c => (c.name, r.get c.name)
  kinds : ∀ c ∈ schema.columns, c.Fits (r.get c.name)

namespace Schema.Fits

variable {schema : Schema} {r : Row}

theorem store_eq (h : schema.Fits r) : schema.store r = r :=
  Schema.store_eq_self h.cells fun c hc => (h.kinds c hc).store_eq

theorem word (h : schema.Fits r) (name : String)
    (hc : (name, .text) ∈ schema.columns.map fun c => (c.name, c.affinity)) :
    (r.get name).IsWord := by
  obtain ⟨c, hmem, heq⟩ := List.mem_map.1 hc
  obtain ⟨rfl, htext⟩ := Prod.mk.inj heq
  have hfits := h.kinds c hmem
  unfold Column.Fits at hfits
  rw [htext] at hfits
  split at hfits
  · exact hfits.isWord
  · exact hfits
  · contradiction
  · contradiction
  · contradiction

theorem string (h : schema.Fits r) (name : String)
    (hc : (name, .text, true) ∈ schema.columns.map fun c => (c.name, c.affinity, c.required)) :
    (r.get name).IsString := by
  obtain ⟨c, hmem, heq⟩ := List.mem_map.1 hc
  obtain ⟨rfl, hkind⟩ := Prod.mk.inj heq
  obtain ⟨htext, hrequired⟩ := Prod.mk.inj hkind
  have hfits := h.kinds c hmem
  simpa only [Column.Fits, htext, hrequired] using hfits

theorem whole (h : schema.Fits r) (name : String) (hc : .number name ∈ schema.columns) :
    (r.get name).IsWhole :=
  h.kinds _ hc

theorem flag (h : schema.Fits r) (name : String) (hc : .flag name ∈ schema.columns) :
    (r.get name).IsFlag :=
  h.kinds _ hc

end Schema.Fits

/-- Every row fits its table. -/
def Snapshot.Fits (s : Snapshot) : Prop :=
  ∀ t ∈ s.tables, ∀ r ∈ t.2, t.1.Fits r

/-- A snapshot is held as it is when each of its rows is. -/
theorem Snapshot.stored_eq_self {s : Snapshot}
    (h : ∀ t ∈ s.tables, ∀ r ∈ t.2, t.1.store r = r) : s.stored = s := by
  have hrows : ∀ {schema : Schema} {rows : List Row}, (schema, rows) ∈ s.tables →
      rows.map schema.store = rows := by
    intro schema rows ht
    rw [List.map_congr_left fun r hr => h _ ht r hr, List.map_id']
  cases s
  simp only [Snapshot.stored, Snapshot.mk.injEq, and_true]
  and_intros <;> exact hrows (by simp [Snapshot.tables])

/-- Rows that fit are held as they are. -/
theorem Snapshot.Fits.stored_eq {s : Snapshot} (h : s.Fits) : s.stored = s :=
  stored_eq_self fun t ht r hr => (h t ht r hr).store_eq

/-! ## 2. The rows of a typed cascade -/

namespace Snapshot

theorem isString_idCell (kind : EntityKind) (name : Json) : (idCell kind name).IsString :=
  Json.isString_text _

theorem isWord_idCell (kind : EntityKind) (name : Json) : (idCell kind name).IsWord :=
  (isString_idCell kind name).isWord

theorem isWord_reference (kind : EntityKind) (key : Json) :
    (reference (idCell kind) key).IsWord := by
  unfold reference
  split
  · exact isWord_idCell kind key
  · exact Json.isWord_null

theorem fits_tokenRow {name : Json} (hname : name.IsString) {t : TokenEntry} (ht : t.IsTyped) :
    Schema.tokens.Fits (tokenRow name t) :=
  ⟨rfl, List.forall_iff_forall_mem.1 ⟨isWord_idCell _ _, hname, ht.value, ht.provenance.originFile,
    ht.provenance.migrationId, ht.deleted, ht.createdAt, ht.updatedAt⟩⟩

theorem fits_selectorRow {name : Json} (hname : name.IsString) {e : SelectorEntry}
    (he : e.IsTyped) : Schema.selectors.Fits (selectorRow name e) :=
  ⟨rfl, List.forall_iff_forall_mem.1 ⟨isWord_idCell _ _, hname, Json.isWord_textOrNull _,
    he.provenance.originFile, he.provenance.migrationId, he.deleted, he.createdAt, he.updatedAt⟩⟩

theorem fits_layerRow (r : LayerRegistry) {name : Json} (hname : name.IsString) {p : Provenance}
    (hp : p.IsTyped) : Schema.layers.Fits (layerRow r name p) := by
  cases hindex : r.orderIndex? name with
  | none =>
    simp only [layerRow, hindex]
    exact ⟨rfl, List.forall_iff_forall_mem.1 ⟨isWord_idCell _ _, hname, .inl rfl, hp.originFile,
      hp.migrationId⟩⟩
  | some n =>
    simp only [layerRow, hindex]
    exact ⟨rfl, List.forall_iff_forall_mem.1 ⟨isWord_idCell _ _, hname, .inr ⟨n, rfl⟩,
      hp.originFile, hp.migrationId⟩⟩

theorem fits_styleRow {k : BucketKey} (hk : k.IsTyped) {touched name : Json}
    (htouched : touched.IsWhole) (hname : name.IsString) {p : StyleProperty} (hp : p.IsTyped) :
    Schema.styles.Fits (styleRow k touched name p) :=
  ⟨rfl, List.forall_iff_forall_mem.1 ⟨hp.rowId, isString_idCell _ _, hname, hp.value,
    isWord_reference _ _, isWord_reference _ _, isWord_reference _ _, hk.kind, hk.min, hk.max,
    hk.axis, hk.containerName, hk.condition, hk.supports, hp.spacingMode, hp.sequence,
    htouched, hp.originFile, hp.migrationId⟩⟩

theorem fits_propertyRow {name : Json} (hname : name.IsString) {p : PropertyEntry}
    (hp : p.IsTyped) : Schema.properties.Fits (propertyRow name p) :=
  ⟨rfl, List.forall_iff_forall_mem.1 ⟨isWord_idCell _ _, hname, hp.valueSyntax, hp.inherits,
    hp.initialValue, hp.provenance.originFile, hp.provenance.migrationId⟩⟩

theorem fits_fontFaceRow (key : String) {f : FontFace} (hf : f.IsTyped) :
    Schema.fontFaces.Fits (fontFaceRow key f) :=
  ⟨rfl, List.forall_iff_forall_mem.1 ⟨Json.isWord_text _, hf.family, hf.src, Json.isString_text _,
    hf.provenance.originFile, hf.provenance.migrationId⟩⟩

theorem fits_animationRow {name : Json} (hname : name.IsString) {a : Animation}
    (ha : a.provenance.IsTyped) : Schema.keyframes.Fits (animationRow name a) :=
  ⟨rfl, List.forall_iff_forall_mem.1 ⟨isWord_idCell _ _, hname, Json.isString_text _, ha.originFile,
    ha.migrationId⟩⟩

theorem fits_rawRow {r : RawEntry} (hr : r.IsTyped) : Schema.rawBlocks.Fits (rawRow r) :=
  ⟨rfl, List.forall_iff_forall_mem.1 ⟨Json.isWord_text _, hr.css, hr.sequence,
    hr.provenance.originFile, hr.provenance.migrationId⟩⟩

theorem fits_importRow {i : ImportEntry} (hi : i.IsTyped) : Schema.imports.Fits (importRow i) :=
  ⟨rfl, List.forall_iff_forall_mem.1 ⟨Json.isWord_text _, Json.isString_text _, hi.path, hi.media,
    hi.sequence, hi.provenance.originFile, hi.provenance.migrationId⟩⟩

/-- The rows of a table fit when that of each entry does. -/
theorem fits_of_all {κ α : Type} {P : κ → α → Prop} {t : Table κ α} (ht : t.All P) {schema : Schema}
    {row : κ × α → Row} (hrow : ∀ k v, P k v → schema.Fits (row (k, v))) :
    ∀ r ∈ t.entries.map row, schema.Fits r := by
  intro r hr
  obtain ⟨e, he, rfl⟩ := List.mem_map.1 hr
  exact hrow e.1 e.2 (ht e he)

/-- The rows of a typed cascade fit their tables. -/
theorem fits_ofCascade {s : Cascade} (h : s.IsTyped) (log : List LogEntry) :
    (ofCascade s log).Fits := by
  refine List.forall_iff_forall_mem.1 ⟨?tokens, ?selectors, ?layers, ?styles, ?properties,
    ?fontFaces, ?keyframes, ?rawBlocks, ?imports, ?pages, ?counterStyles, ?fontFeatureValues,
    ?fontPaletteValues, ?startingStyles⟩
  case tokens => exact fits_of_all h.tokens fun k t hkt => fits_tokenRow hkt.1 hkt.2
  case selectors => exact fits_of_all h.selectors fun k e hke => fits_selectorRow hke.1 hke.2
  case layers => exact fits_of_all h.layers fun k p hkp => fits_layerRow s.layers hkp.1 hkp.2
  case styles =>
    intro r hr
    obtain ⟨e, he, hr⟩ := List.mem_flatMap.1 hr
    obtain ⟨hk, hb⟩ := h.buckets e he
    exact fits_of_all hb.properties (fun k p hkp => fits_styleRow hk hb.touched hkp.1 hkp.2) r hr
  case properties => exact fits_of_all h.properties fun k p hkp => fits_propertyRow hkp.1 hkp.2
  case fontFaces => exact fits_of_all h.fontFaces fun k f hf => fits_fontFaceRow k hf
  case keyframes => exact fits_of_all h.keyframes fun k a hka => fits_animationRow hka.1 hka.2
  case rawBlocks =>
    intro r hr
    obtain ⟨e, he, rfl⟩ := List.mem_map.1 hr
    exact fits_rawRow (h.raw e he)
  case imports =>
    intro r hr
    obtain ⟨e, he, rfl⟩ := List.mem_map.1 hr
    exact fits_importRow (h.imports e he)
  case pages =>
    exact fits_of_all h.pages fun k b hkb => ⟨rfl, List.forall_iff_forall_mem.1
      ⟨isWord_idCell _ _, hkb.1.isWord.orElse Json.isWord_null, Json.isString_text _,
        hkb.2.originFile, hkb.2.migrationId⟩⟩
  case counterStyles =>
    exact fits_of_all h.counterStyles fun k b hkb => ⟨rfl, List.forall_iff_forall_mem.1
      ⟨isWord_idCell _ _, hkb.1, Json.isString_text _, hkb.2.originFile,
        hkb.2.migrationId⟩⟩
  case fontFeatureValues =>
    exact fits_of_all h.fontFeatureValues fun k b hkb => ⟨rfl, List.forall_iff_forall_mem.1
      ⟨isWord_idCell _ _, hkb.1, Json.isString_text _, hkb.2.originFile,
        hkb.2.migrationId⟩⟩
  case fontPaletteValues =>
    exact fits_of_all h.fontPaletteValues fun k b hkb => ⟨rfl, List.forall_iff_forall_mem.1
      ⟨isWord_idCell _ _, hkb.1, Json.isString_text _, hkb.2.originFile,
        hkb.2.migrationId⟩⟩
  case startingStyles =>
    exact fits_of_all h.startingStyles fun k b hb => ⟨rfl, List.forall_iff_forall_mem.1
      ⟨isWord_idCell _ _, isString_idCell _ _, Json.isString_text _, hb.originFile, hb.migrationId⟩⟩

/-! ## 3. The cascade of rows that fit -/

theorem eq_of_keyCell {v w : Json} (h : keyCell v = .ok w) : v = w := by
  simp only [keyCell, bind_eq_ok, pure_eq_ok] at h
  obtain ⟨-, -, rfl⟩ := h
  rfl

/-- What every row brings to a table holds of the whole table. -/
theorem all_of_fill {κ α : Type} [DecidableEq κ] [Keyed κ] {K : κ → Prop} {V : α → Prop}
    {rows : List Row} {entry : Row → Except ShapeError (κ × α)} {t : Table κ α}
    (h : fill rows entry = .ok t) (hentry : ∀ r ∈ rows, ∀ e, entry r = .ok e → K e.1 ∧ V e.2) :
    t.All fun k v => K k ∧ V v := by
  simp only [fill, bind_eq_ok, pure_eq_ok] at h
  obtain ⟨es, hes, rfl⟩ := h
  have hall : ∀ e ∈ es, K e.1 ∧ V e.2 := fun e he => by
    obtain ⟨r, hr, hre⟩ := mem_of_mapM hes e he
    exact hentry r hr e hre
  have hfold : ∀ (u : Table κ α), (u.All fun k v => K k ∧ V v) →
      (es.foldl putRow u).All fun k v => K k ∧ V v := by
    clear hes
    induction es with
    | nil => exact fun u hu => hu
    | cons e es ih =>
      obtain ⟨⟨hk, hv⟩, hall⟩ := List.forall_mem_cons.1 hall
      exact fun u hu => ih hall _ ((hu.put hk hv).respell hk)
  exact hfold {} (Table.all_empty _)

theorem mem_of_sortedBy {column : String} {rows sorted : List Row}
    (h : sortedBy column rows = .ok sorted) : ∀ r ∈ sorted, r ∈ rows := by
  simp only [sortedBy, bind_eq_ok, pure_eq_ok] at h
  obtain ⟨-, -, rfl⟩ := h
  exact fun r hr => List.mem_mergeSort.1 hr

/-- A row that fits says where it comes from by texts. -/
theorem isTyped_provenance {schema : Schema} {r : Row} (h : schema.Fits r)
    (hfile : ("origin_file", Affinity.text) ∈ schema.columns.map fun c => (c.name, c.affinity))
    (hid : ("migration_id", Affinity.text) ∈ schema.columns.map fun c => (c.name, c.affinity)) :
    (provenance r).IsTyped :=
  ⟨h.word _ hfile, h.word _ hid⟩

theorem isTyped_tokenEntry {r : Row} (hr : Schema.tokens.Fits r) {e : Json × TokenEntry}
    (h : tokenEntry r = .ok e) : e.1.IsString ∧ e.2.IsTyped := by
  simp only [tokenEntry, bind_eq_ok, pure_eq_ok] at h
  obtain ⟨name, hname, rfl⟩ := h
  obtain rfl := eq_of_keyCell hname
  exact ⟨hr.string _ (by decide), hr.string _ (by decide),
    isTyped_provenance hr (by decide) (by decide), hr.string _ (by decide),
    hr.string _ (by decide),
    hr.flag _ (by decide)⟩

theorem isTyped_selectorEntry {r : Row} (hr : Schema.selectors.Fits r) {e : Json × SelectorEntry}
    (h : selectorEntry r = .ok e) : e.1.IsString ∧ e.2.IsTyped := by
  simp only [selectorEntry, bind_eq_ok, pure_eq_ok] at h
  obtain ⟨id, -, definition, -, name, hname, rfl⟩ := h
  obtain rfl := eq_of_keyCell hname
  exact ⟨hr.string _ (by decide), isTyped_provenance hr (by decide) (by decide),
    hr.string _ (by decide), hr.string _ (by decide), hr.flag _ (by decide)⟩

theorem isTyped_propertyEntry {r : Row} (hr : Schema.properties.Fits r) {e : Json × PropertyEntry}
    (h : propertyEntry r = .ok e) : e.1.IsString ∧ e.2.IsTyped := by
  simp only [propertyEntry, bind_eq_ok, pure_eq_ok] at h
  obtain ⟨name, hname, rfl⟩ := h
  obtain rfl := eq_of_keyCell hname
  exact ⟨hr.string _ (by decide), hr.word _ (by decide), hr.word _ (by decide),
    hr.word _ (by decide), isTyped_provenance hr (by decide) (by decide)⟩

theorem isTyped_fontFaceEntry {r : Row} (hr : Schema.fontFaces.Fits r) {e : String × FontFace}
    (h : fontFaceEntry r = .ok e) : e.2.IsTyped := by
  simp only [fontFaceEntry, bind_eq_ok, pure_eq_ok] at h
  obtain ⟨declarations, -, rfl⟩ := h
  exact ⟨hr.string _ (by decide), hr.word _ (by decide),
    isTyped_provenance hr (by decide) (by decide)⟩

theorem isTyped_animationEntry {r : Row} (hr : Schema.keyframes.Fits r) {e : Json × Animation}
    (h : animationEntry r = .ok e) : e.1.IsString ∧ e.2.provenance.IsTyped := by
  simp only [animationEntry, bind_eq_ok, pure_eq_ok] at h
  obtain ⟨frames, -, name, hname, rfl⟩ := h
  obtain rfl := eq_of_keyCell hname
  exact ⟨hr.string _ (by decide), isTyped_provenance hr (by decide) (by decide)⟩

theorem isTyped_ruleBlock {name : Json} (hname : name.IsString) {bodyColumn : String} {r : Row}
    (hr : (provenance r).IsTyped) {e : Json × RuleBlock} (h : ruleBlock name bodyColumn r = .ok e) :
    e.1.IsString ∧ e.2.provenance.IsTyped := by
  simp only [ruleBlock, bind_eq_ok, pure_eq_ok] at h
  obtain ⟨declarations, -, key, hkey, rfl⟩ := h
  obtain rfl := eq_of_keyCell hkey
  exact ⟨hname, hr⟩

theorem isTyped_ruleBlocks (schema : Schema) {rows : List Row} (hrows : ∀ r ∈ rows, schema.Fits r)
    {keyColumn bodyColumn : String}
    (hkey : (keyColumn, Affinity.text, true) ∈
      schema.columns.map fun c => (c.name, c.affinity, c.required))
    (hfile : ("origin_file", Affinity.text) ∈ schema.columns.map fun c => (c.name, c.affinity))
    (hid : ("migration_id", Affinity.text) ∈ schema.columns.map fun c => (c.name, c.affinity))
    {t : Table Json RuleBlock} (h : ruleBlocks keyColumn bodyColumn rows = .ok t) :
    t.HasTextKeys fun b => b.provenance.IsTyped :=
  all_of_fill h fun r hr _ => isTyped_ruleBlock ((hrows r hr).string _ hkey)
    (isTyped_provenance (hrows r hr) hfile hid)

theorem isTyped_columns_ofColumns {c : DescriptorColumns} (h : c.IsTyped) :
    (Descriptor.columns (Descriptor.ofColumns c)).IsTyped := by
  have hnull := Json.isWord_null
  unfold Descriptor.ofColumns
  split
  · split
    · exact ⟨Json.isWord_text _, h.min, h.max, hnull, hnull, Json.isWord_textOrNull _, h.supports⟩
    · exact ⟨Json.isWord_text _, h.min, h.max, h.axis, h.containerName, hnull, h.supports⟩
    · exact ⟨Json.isWord_text _, hnull, hnull, hnull, h.containerName, h.condition, h.supports⟩
    · exact ⟨Json.isWord_text _, hnull, hnull, hnull, hnull, h.condition, hnull⟩
    · exact ⟨Json.isWord_text _, hnull, hnull, hnull, hnull, h.condition, hnull⟩
  · exact ⟨hnull, hnull, hnull, hnull, hnull, hnull, hnull⟩

theorem isTyped_keyOf {S L : Table Json Json} {r : Row} (hr : Schema.styles.Fits r)
    {selector : Json} {k : BucketKey} (h : keyOf S L r selector = .ok k) : k.IsTyped := by
  simp only [keyOf, bind_eq_ok, pure_eq_ok] at h
  obtain ⟨layer, -, root, -, limit, -, -, -, rfl⟩ := h
  exact isTyped_columns_ofColumns ⟨hr.word _ (by decide), hr.word _ (by decide),
    hr.word _ (by decide), hr.word _ (by decide), hr.word _ (by decide), hr.word _ (by decide),
    hr.word _ (by decide)⟩

/-- A style row that fits keeps the buckets typed. -/
theorem isTyped_addStyle {S L : Table Json Json} {r : Row} (hr : Schema.styles.Fits r)
    {t u : Table BucketKey Bucket} (ht : t.All fun k b => k.IsTyped ∧ b.IsTyped)
    (h : addStyle S L t r = .ok u) : u.All fun k b => k.IsTyped ∧ b.IsTyped := by
  have hword : (r.get "prop").IsString := hr.string _ (by decide)
  have hput : ∀ {k : BucketKey} {b : Bucket}, k.IsTyped → b.IsTyped →
      (t.put k { b with properties := putRow b.properties (r.get "prop",
        { value := r.get "value", rowId := r.id, sequence := r.get "sequence"
          spacingMode := r.get "spacing_mode", originFile := r.get "origin_file"
          migrationId := r.get "migration_id" }) }).All fun k b => k.IsTyped ∧ b.IsTyped := by
    intro k b hk hb
    refine ht.put hk ⟨(Table.All.put hb.properties hword ?_).respell hword, hb.touched⟩
    exact ⟨hr.string _ (by decide), hr.word _ (by decide), hr.whole _ (by decide),
      hr.word _ (by decide), hr.word _ (by decide), hr.word _ (by decide)⟩
  simp only [addStyle, bind_eq_ok] at h
  obtain ⟨name?, -, h⟩ := h
  split at h
  · exact pure_eq_ok.1 h ▸ ht
  · exact pure_eq_ok.1 h ▸ ht
  · simp only [bind_eq_ok] at h
    obtain ⟨k, hk, name, hname, h⟩ := h
    obtain rfl := eq_of_keyCell hname
    have hk := isTyped_keyOf hr hk
    split at h
    · next b hb =>
      obtain rfl := pure_eq_ok.1 h
      exact hput hk (ht.get? hb)
    · simp only [timeCell, bind_eq_ok, pure_eq_ok] at h
      obtain ⟨touched, ⟨-, -, rfl⟩, -, rfl, rfl⟩ := h
      exact hput hk ⟨Table.all_empty _, hr.whole _ (by decide)⟩

/-- What holds of some buckets holds of an index that they are put back into. -/
theorem all_restore {K : BucketKey → Prop} {V : Bucket → Prop} {es : List (BucketKey × Bucket)}
    (hes : ∀ e ∈ es, K e.1 ∧ V e.2) {index : BucketIndex}
    (h : index.buckets.All fun k b => K k ∧ V b) :
    (es.foldl (fun index e => index.restore e.1 e.2) index).buckets.All fun k b => K k ∧ V b := by
  induction es generalizing index with
  | nil => exact h
  | cons e es ih =>
    obtain ⟨⟨hk, hb⟩, hes⟩ := List.forall_mem_cons.1 hes
    exact ih hes (h.put hk hb)

theorem isTyped_addStarting {S : Table Json Json} {r : Row} (hr : Schema.startingStyles.Fits r)
    {t u : Table Json RuleBlock} (ht : t.All fun _ b => b.provenance.IsTyped)
    (h : addStarting S t r = .ok u) : u.All fun _ b => b.provenance.IsTyped := by
  simp only [addStarting, bind_eq_ok] at h
  obtain ⟨name?, -, h⟩ := h
  split at h
  · exact pure_eq_ok.1 h ▸ ht
  · exact pure_eq_ok.1 h ▸ ht
  · simp only [ruleBlock, bind_eq_ok, pure_eq_ok] at h
    obtain ⟨e, ⟨declarations, -, key, -, rfl⟩, rfl⟩ := h
    have hb := isTyped_provenance hr (by decide) (by decide)
    have hput := (Table.All.put (K := fun _ => True) (ht.imp fun _ _ hv => ⟨trivial, hv⟩)
      (k := key) (v := { declarations, provenance := provenance r }) trivial hb).respell
        (k := key) trivial
    exact hput.imp fun _ _ hv => hv.2

theorem isTyped_layerRegistry {rows : List Row} (hrows : ∀ r ∈ rows, Schema.layers.Fits r)
    {l : LayerRegistry} (h : layerRegistry rows = .ok l) :
    l.entries.HasTextKeys Provenance.IsTyped := by
  simp only [layerRegistry, bind_eq_ok, pure_eq_ok] at h
  obtain ⟨entries, hentries, -, -, rfl⟩ := h
  refine all_of_fill hentries fun r hr e he => ?_
  simp only [bind_eq_ok, pure_eq_ok] at he
  obtain ⟨id, -, name, hname, rfl⟩ := he
  obtain rfl := eq_of_keyCell hname
  exact ⟨(hrows r hr).string _ (by decide), isTyped_provenance (hrows r hr) (by decide) (by decide)⟩

theorem isTyped_bucketIndex {S L : Table Json Json} {rows : List Row}
    (hrows : ∀ r ∈ rows, Schema.styles.Fits r) {index : BucketIndex}
    (h : bucketIndex S L rows = .ok index) :
    index.buckets.All fun k b => k.IsTyped ∧ b.IsTyped := by
  simp only [bucketIndex, bind_eq_ok, pure_eq_ok] at h
  obtain ⟨buckets, hbuckets, rfl⟩ := h
  have hall : buckets.All fun k b => k.IsTyped ∧ b.IsTyped := foldlM_keeps
    (fun r hr t u ht hu => isTyped_addStyle (hrows r hr) ht hu) (Table.all_empty _) hbuckets
  exact all_restore hall (Table.all_empty _)

theorem isTyped_rawEntries {rows : List Row} (hrows : ∀ r ∈ rows, Schema.rawBlocks.Fits r)
    {raw : List RawEntry} (h : rawEntries rows = .ok raw) : ∀ e ∈ raw, e.IsTyped := by
  simp only [rawEntries, bind_eq_ok, pure_eq_ok] at h
  obtain ⟨sorted, hsorted, rfl⟩ := h
  intro e he
  obtain ⟨r, hr, rfl⟩ := List.mem_map.1 he
  have hfits := hrows r (mem_of_sortedBy hsorted r hr)
  exact ⟨hfits.string _ (by decide), hfits.whole _ (by decide),
    isTyped_provenance hfits (by decide) (by decide)⟩

theorem isTyped_importEntries {rows : List Row} (hrows : ∀ r ∈ rows, Schema.imports.Fits r)
    {imports : List ImportEntry} (h : importEntries rows = .ok imports) :
    ∀ e ∈ imports, e.IsTyped := by
  simp only [importEntries, bind_eq_ok] at h
  obtain ⟨sorted, hsorted, h⟩ := h
  intro e he
  obtain ⟨r, hr, hre⟩ := mem_of_mapM h e he
  simp only [bind_eq_ok, pure_eq_ok] at hre
  obtain ⟨kind, -, rfl⟩ := hre
  have hfits := hrows r (mem_of_sortedBy hsorted r hr)
  exact ⟨hfits.string _ (by decide), hfits.word _ (by decide), hfits.whole _ (by decide),
    isTyped_provenance hfits (by decide) (by decide)⟩

/-- The cascade of rows that fit is typed. -/
theorem Fits.isTyped {s : Snapshot} (hs : s.Fits) {c : Cascade} (h : s.toCascade = .ok c) :
    c.IsTyped := by
  obtain ⟨htokens, hselectors, hlayers, hstyles, hproperties, hfaces, hkeyframes, hraw, himports,
    hpages, hcounter, hfeature, hpalette, hstarting⟩ := List.forall_iff_forall_mem.2 hs
  simp only [toCascade, bind_eq_ok, pure_eq_ok] at h
  obtain ⟨tokens, htokens', selectors, hselectors', layers, hlayers', buckets, hbuckets',
    properties, hproperties', fontFaces, hfaces', keyframes, hkeyframes', raw, hraw', imports,
    himports', pages, hpages', counter, hcounter', feature, hfeature', palette, hpalette', starting,
    hstarting', rfl⟩ := h
  constructor
  · exact all_of_fill htokens' fun r hr e => isTyped_tokenEntry (htokens r hr)
  · exact all_of_fill hselectors' fun r hr e => isTyped_selectorEntry (hselectors r hr)
  · exact isTyped_layerRegistry hlayers hlayers'
  · exact isTyped_bucketIndex hstyles hbuckets'
  · exact all_of_fill hproperties' fun r hr e => isTyped_propertyEntry (hproperties r hr)
  · have hall := all_of_fill (K := fun _ => True) hfaces' fun r hr e he =>
      ⟨trivial, isTyped_fontFaceEntry (hfaces r hr) he⟩
    exact hall.imp fun _ _ hv => hv.2
  · exact all_of_fill hkeyframes' fun r hr e => isTyped_animationEntry (hkeyframes r hr)
  · have hpages : ∀ r ∈ s.pages, Schema.pages.Fits r := hpages
    exact all_of_fill hpages' fun r hr e => isTyped_ruleBlock
      (((hpages r hr).word _ (by decide)).orElse_text _)
      (isTyped_provenance (hpages r hr) (by decide) (by decide))
  · exact isTyped_ruleBlocks .counterStyles hcounter (by decide) (by decide) (by decide) hcounter'
  · exact isTyped_ruleBlocks .fontFeatureValues hfeature (by decide) (by decide) (by decide)
      hfeature'
  · exact isTyped_ruleBlocks .fontPaletteValues hpalette (by decide) (by decide) (by decide)
      hpalette'
  · exact foldlM_keeps (fun r hr t u ht hu => isTyped_addStarting (hstarting r hr) ht hu)
      (Table.all_empty _) hstarting'
  · exact isTyped_rawEntries hraw hraw'
  · exact isTyped_importEntries himports himports'

end Snapshot

end StyleLedger
