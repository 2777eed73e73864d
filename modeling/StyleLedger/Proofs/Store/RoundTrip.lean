import StyleLedger.Proofs.Source.Evaluation
import StyleLedger.Proofs.Source.Plain
import StyleLedger.Proofs.Store.Tables

/-!
A cascade that statements have written comes back from its rows.

`Snapshot.toCascade` undoes `Snapshot.ofCascade` on every coherent cascade whose wrappers are clean
and whose names are kept apart by their identifiers. All of the cascade comes back but the clock,
which is set to the bucket that was written last (`toCascade_ofCascade`). Cascades that statements
of source texts have written, over any number of files, are coherent (`IsReached.isCoherent`), so
the same holds of them.

* `Cascade.rewound` — the cascade with its clock at the bucket written last.
* `Cascade.IsReached` — what files of statements lead to, refused ones included.
-/

namespace StyleLedger

open Outcome Identity

/-- The cascade with its clock at the bucket that was written last. -/
def Cascade.rewound (s : Cascade) : Cascade :=
  { s with buckets := s.buckets.rewound }

namespace Snapshot

/-! ## 1. Single rows -/

theorem tokenEntry_tokenRow {name : Json} (hname : name.IsString) (t : TokenEntry) :
    tokenEntry (tokenRow name t) = .ok (name, t) := by
  have hcell : (tokenRow name t).get "name" = name := rfl
  rw [tokenEntry, hcell, keyCell_of_isWord hname.isWord]
  rfl

theorem definitionOf?_toText {d : Option Selector} (hd : ∀ x ∈ d, x.IsPlain) :
    definitionOf? (.textOrNull (d.map Selector.toText)) = .ok d := by
  cases d with
  | none => rfl
  | some x =>
    have hplain := Selector.toJson_isPlain (hd x rfl)
    have htrue : (Json.text x.toText).isTrue = true := Json.write_isTrue hplain
    have hread : Json.ofCell (.text x.toText) = .ok x.toJson := Json.ofText_write hplain
    simp only [Option.map_some, Json.textOrNull, definitionOf?, htrue, if_true, hread]
    simp only [bind, Except.bind, Selector.ofJson_toJson (hd x rfl)]
    rfl

theorem selectorEntry_selectorRow {name : Json} (hname : name.IsString) {e : SelectorEntry}
    (he : ∀ d ∈ e.definition, d.IsPlain) : selectorEntry (selectorRow name e) = .ok (name, e) := by
  have hid : (selectorRow name e).id = idCell .selector name := rfl
  have hcell : (selectorRow name e).get "name" = name := rfl
  have hdefinition : (selectorRow name e).get "def_json" =
      .textOrNull (e.definition.map Selector.toText) := rfl
  rw [selectorEntry, hid, hcell, hdefinition, definitionOf?_toText he, idCell,
    keyCell_of_isWord (Json.isWord_text _), keyCell_of_isWord hname.isWord]
  rfl

theorem propertyEntry_propertyRow {name : Json} (hname : name.IsString) (p : PropertyEntry) :
    propertyEntry (propertyRow name p) = .ok (name, p) := by
  have hcell : (propertyRow name p).get "name" = name := rfl
  rw [propertyEntry, hcell, keyCell_of_isWord hname.isWord]
  rfl

theorem fontFaceEntry_fontFaceRow {key : String} {f : FontFace} (hf : f.IsPlainAt key) :
    fontFaceEntry (fontFaceRow key f) = .ok (key, f) := by
  have hcell : (fontFaceRow key f).get "props_json" =
      .text (StoredDeclaration.listToText f.declarations) := rfl
  rw [fontFaceEntry, hcell, StoredDeclaration.listOfText_listToText hf.2, hf.1]
  rfl

theorem animationEntry_animationRow {name : Json} (hname : name.IsString) {a : Animation}
    (ha : ∀ f ∈ a.frames, f.IsPlain) : animationEntry (animationRow name a) = .ok (name, a) := by
  have hcell : (animationRow name a).get "name" = name := rfl
  have hframes : (animationRow name a).get "frames_json" =
      .text (StoredKeyframe.listToText a.frames) := rfl
  rw [animationEntry, hframes, StoredKeyframe.listOfText_listToText ha, hcell,
    keyCell_of_isWord hname.isWord]
  rfl

/-- An at-rule comes back under the name it is read with. -/
theorem ruleBlock_of_cells {name : Json} (hname : name.IsString) {r : Row} {bodyColumn : String}
    {b : RuleBlock} (hb : b.IsPlain) (hbody : r.get bodyColumn = declarationsCell b.declarations)
    (hprovenance : provenance r = b.provenance) : ruleBlock name bodyColumn r = .ok (name, b) := by
  rw [ruleBlock, hbody, declarationsCell, StoredDeclaration.listOfText_listToText hb,
    keyCell_of_isWord hname.isWord, hprovenance]
  rfl

/-- At-rules that are addressed by a column come back. -/
theorem ruleBlocks_blockRows {t : Table Json RuleBlock} (ht : t.IsNamed RuleBlock.IsPlain)
    {keyColumn bodyColumn : String} {row : Json × RuleBlock → Row}
    (hkey : ∀ e, (row e).get keyColumn = e.1)
    (hbody : ∀ e, (row e).get bodyColumn = declarationsCell e.2.declarations)
    (hprovenance : ∀ e, provenance (row e) = e.2.provenance) :
    ruleBlocks keyColumn bodyColumn (t.entries.map row) = .ok t :=
  fill_map ht.isCanonical fun e he => by
    rw [hkey]
    exact ruleBlock_of_cells (ht.all e he).1 (ht.all e he).2 (hbody e) (hprovenance e)

/-- The pseudo-class of a page is absent where the page has none. -/
theorem orElse_null_orElse {key : Json} (h : key.IsString) :
    (key.orElse .null).orElse (.text "") = key := by
  obtain ⟨n, rfl⟩ := h
  by_cases hn : n = ""
  · subst hn
    rfl
  · have htrue : (Json.text n).isTrue = true := by simpa [Json.isTrue] using hn
    simp [Json.orElse, htrue]

theorem importKind_name (kind : ImportKind) : importKind (.text kind.name) = .ok kind := by
  cases kind <;> simp [importKind, ImportKind.ofName?, ImportKind.name]

/-! ## 2. Whole tables -/

variable {D : Option Descriptor → Prop} {s : Cascade}

theorem getElem?_map_row {α : Type} {f : α → Row} {column : String} {number : α → Json}
    (hf : ∀ x, (f x).get column = number x) {xs : List α}
    (h : ∀ (i : Nat) x, xs[i]? = some x → number x = .int i) (i : Nat) (r : Row)
    (hr : (xs.map f)[i]? = some r) : r.get column = .int i := by
  rw [List.getElem?_map, Option.map_eq_some_iff] at hr
  obtain ⟨x, hx, rfl⟩ := hr
  rw [hf, h i x hx]

theorem rawEntries_rawRows (h : s.IsCoherent D) : rawEntries (s.raw.map rawRow) = .ok s.raw := by
  rw [rawEntries, sortedBy_of_numbered (getElem?_map_row (fun _ => rfl) h.raw)]
  show Except.ok ((s.raw.map rawRow).map _) = .ok s.raw
  rw [List.map_map]
  exact congrArg Except.ok (List.map_id s.raw)

theorem importEntries_importRows (h : s.IsCoherent D) :
    importEntries (s.imports.map importRow) = .ok s.imports := by
  rw [importEntries, sortedBy_of_numbered (getElem?_map_row (fun _ => rfl) h.imports)]
  refine mapM_map_eq_ok fun i _ => ?_
  have hkind : (importRow i).get "import_type" = .text i.kind.name := rfl
  rw [hkind, importKind_name]
  rfl

theorem pageBlocks_pageRows (h : s.IsCoherent D) (log : List LogEntry) :
    pageBlocks (ofCascade s log).pages = .ok s.pages :=
  fill_map h.pages.isCanonical fun e he => by
    obtain ⟨hkey, hb⟩ := h.pages.all e he
    have hcell : (blockRow (idCell .page (pageKey e.1)) (e.1.orElse .null) "pseudo" "props_json"
      e.2).get "pseudo" = e.1.orElse .null := rfl
    show ruleBlock (Json.orElse (Row.get _ "pseudo") _) _ _ = _
    rw [hcell, orElse_null_orElse hkey]
    exact ruleBlock_of_cells hkey hb rfl rfl

theorem foldlM_addStarting {S : Table Json Json} {selectors : List Json}
    (hS : ∀ n ∈ selectors, S.get? (idCell .selector n) = some n) :
    ∀ {es ds : List (Json × RuleBlock)}, Table.IsNamed RuleBlock.IsPlain ⟨ds ++ es⟩ →
      (∀ e ∈ es, e.1 ∈ selectors) →
      (es.map fun e => blockRow (idCell .startingStyle e.1) (selectorId e.1) "selector_id"
        "props_json" e.2).foldlM (addStarting S) ⟨ds⟩ = .ok ⟨ds ++ es⟩
  | [], ds, _, _ => by
    rw [List.append_nil]
    rfl
  | e :: es, ds, hnamed, hes => by
    obtain ⟨hmem, hes⟩ := List.forall_mem_cons.1 hes
    have hsplit : Table.IsNamed RuleBlock.IsPlain ⟨(ds ++ [e]) ++ es⟩ := by simpa using hnamed
    have hput : putRow (⟨ds⟩ : Table Json RuleBlock) e = ⟨ds ++ [e]⟩ :=
      Table.putRow_of_canonical_append (Table.canonical_append_left hsplit.isCanonical)
    have hrow : addStarting S ⟨ds⟩ (blockRow (idCell .startingStyle e.1) (selectorId e.1)
        "selector_id" "props_json" e.2) = .ok ⟨ds ++ [e]⟩ := by
      obtain ⟨⟨n, hn⟩, hb⟩ := hnamed.all e (by simp)
      obtain ⟨k, b⟩ := e
      obtain rfl : k = .text n := hn
      have hcell : (blockRow (idCell .startingStyle (.text n)) (selectorId (.text n)) "selector_id"
        "props_json" b).get "selector_id" = idCell .selector (.text n) := rfl
      have hblock : ruleBlock (.text n) "props_json" (blockRow (idCell .startingStyle (.text n))
          (selectorId (.text n)) "selector_id" "props_json" b) = .ok (.text n, b) :=
        ruleBlock_of_cells (Json.isString_text n) hb rfl rfl
      rw [addStarting, hcell, nameAt?_idCell, hS _ hmem]
      simp only [bind, Except.bind, hblock, hput]
      rfl
    rw [List.map_cons, foldlM_cons_of_ok hrow, foldlM_addStarting hS hsplit hes, List.append_assoc]
    rfl

/-! ## 3. The whole cascade -/

/-- The identifiers of selectors lead back to their names. -/
theorem get?_selectorNames (h : s.IsCoherent D) (log : List LogEntry)
    (hselectors : Separates .selector s.selectors.keys) {n : Json} (hn : n ∈ s.selectors.keys) :
    (namesById (ofCascade s log).selectors).get? (idCell .selector n) = some n :=
  get?_namesById h.selectors hselectors (fun _ => rfl) (fun _ => rfl) hn

/-- The identifiers of layers lead back to their names. -/
theorem get?_layerNames (h : s.IsCoherent D) (log : List LogEntry)
    (hlayers : Separates .layer s.layers.entries.keys) {n : Json} (hn : n ∈ s.layers.entries.keys) :
    (namesById (ofCascade s log).layers).get? (idCell .layer n) = some n :=
  get?_namesById h.layers.entries hlayers (fun _ => rfl) (fun _ => rfl) hn

theorem startingStyles_startingRows (h : s.IsCoherent D) (log : List LogEntry)
    (hselectors : Separates .selector s.selectors.keys) :
    (ofCascade s log).startingStyles.foldlM
      (addStarting (namesById (ofCascade s log).selectors)) {} = .ok s.startingStyles :=
  foldlM_addStarting (fun _ => get?_selectorNames h log hselectors) h.startingStyles
    fun _ he => h.starting (Table.mem_keys_of_mem he)

theorem bucketIndex_styleRows (h : s.IsCoherent D) (log : List LogEntry)
    (hclean : ∀ k ∈ s.buckets.buckets.keys, Descriptor.IsClean k.descriptor)
    (hselectors : Separates .selector s.selectors.keys)
    (hlayers : Separates .layer s.layers.entries.keys) :
    bucketIndex (namesById (ofCascade s log).selectors) (namesById (ofCascade s log).layers)
      (ofCascade s log).styles = .ok s.buckets.rewound := by
  have hall : (ofCascade s log).styles.foldlM (addStyle (namesById (ofCascade s log).selectors)
      (namesById (ofCascade s log).layers)) {} = .ok s.buckets.buckets :=
    foldlM_addStyle (fun _ => get?_selectorNames h log hselectors)
      (fun _ => get?_layerNames h log hlayers) h.buckets.canonical fun e he =>
        ⟨(h.buckets.all e he).1.1, hclean _ (Table.mem_keys_of_mem he), (h.buckets.all e he).2⟩
  rw [bucketIndex, hall]
  exact congrArg Except.ok (BucketIndex.foldl_restore_empty h.buckets.canonical)

/-- What is found by names comes back from the rows as it was; the buckets and the starting styles,
which are found by the identifiers of selectors and layers, are read. -/
theorem toCascade_ofCascade_eq (h : s.IsCoherent D) (log : List LogEntry) :
    (ofCascade s log).toCascade = do
      let buckets ← bucketIndex (namesById (ofCascade s log).selectors)
        (namesById (ofCascade s log).layers) (ofCascade s log).styles
      let startingStyles ← (ofCascade s log).startingStyles.foldlM
        (addStarting (namesById (ofCascade s log).selectors)) {}
      return { s with buckets, startingStyles } := by
  have htokens : fill (ofCascade s log).tokens tokenEntry = .ok s.tokens :=
    fill_map h.tokens.isCanonical fun e he => tokenEntry_tokenRow (h.tokens.all e he).1 e.2
  have hdefinitions : fill (ofCascade s log).selectors selectorEntry = .ok s.selectors :=
    fill_map h.selectors.isCanonical fun e he =>
      selectorEntry_selectorRow (h.selectors.all e he).1 (h.selectors.all e he).2
  have horder : layerRegistry (ofCascade s log).layers = .ok s.layers :=
    layerRegistry_ofRows h.layers
  have hproperties : fill (ofCascade s log).properties propertyEntry = .ok s.properties :=
    fill_map h.properties.isCanonical fun e he =>
      propertyEntry_propertyRow (h.properties.all e he).1 e.2
  have hfaces : fill (ofCascade s log).fontFaces fontFaceEntry = .ok s.fontFaces :=
    fill_map h.fontFaces.1 fun e he => fontFaceEntry_fontFaceRow (h.fontFaces.2 e he)
  have hkeyframes : fill (ofCascade s log).keyframes animationEntry = .ok s.keyframes :=
    fill_map h.keyframes.isCanonical fun e he =>
      animationEntry_animationRow (h.keyframes.all e he).1 (h.keyframes.all e he).2
  have hraw : rawEntries (ofCascade s log).rawBlocks = .ok s.raw := rawEntries_rawRows h
  have himports : importEntries (ofCascade s log).imports = .ok s.imports :=
    importEntries_importRows h
  have hcounter : ruleBlocks "name" "props_json" (ofCascade s log).counterStyles =
      .ok s.counterStyles :=
    ruleBlocks_blockRows h.counterStyles (fun _ => rfl) (fun _ => rfl) (fun _ => rfl)
  have hfeature : ruleBlocks "family" "features_json" (ofCascade s log).fontFeatureValues =
      .ok s.fontFeatureValues :=
    ruleBlocks_blockRows h.fontFeatureValues (fun _ => rfl) (fun _ => rfl) (fun _ => rfl)
  have hpalette : ruleBlocks "name" "props_json" (ofCascade s log).fontPaletteValues =
      .ok s.fontPaletteValues :=
    ruleBlocks_blockRows h.fontPaletteValues (fun _ => rfl) (fun _ => rfl) (fun _ => rfl)
  simp only [toCascade, htokens, hdefinitions, horder, hproperties, hfaces, hkeyframes, hraw,
    himports, pageBlocks_pageRows h log, hcounter, hfeature, hpalette]
  rfl

/-- A coherent cascade comes back from its rows, its clock set to the bucket written last. -/
theorem toCascade_ofCascade (h : s.IsCoherent D)
    (hclean : ∀ k ∈ s.buckets.buckets.keys, Descriptor.IsClean k.descriptor)
    (hselectors : Separates .selector s.selectors.keys)
    (hlayers : Separates .layer s.layers.entries.keys) (log : List LogEntry) :
    (ofCascade s log).toCascade = .ok s.rewound := by
  rw [toCascade_ofCascade_eq h, bucketIndex_styleRows h log hclean hselectors hlayers,
    startingStyles_startingRows h log hselectors]
  rfl

/-- The clock does not show in the rows. -/
theorem ofCascade_rewound (s : Cascade) (log : List LogEntry) :
    ofCascade s.rewound log = ofCascade s log :=
  rfl

end Snapshot

/-! ## 4. What files of statements lead to -/

/-- A statement that stands in a source text. -/
def Statement.IsParsed (stmt : Statement) : Prop :=
  ∃ source strict stmts, Source.parse source strict = .ok stmts ∧ stmt ∈ stmts

theorem Statement.IsParsed.isPlain {stmt : Statement} (h : stmt.IsParsed) : stmt.IsPlain := by
  obtain ⟨source, strict, stmts, hparse, hmem⟩ := h
  exact Source.isPlain_of_parse hparse stmt hmem

namespace Cascade

/-- A cascade that files of statements have written. Every file has a context of its own, in which
no layer and no spacing mode is set; its statements are applied until one is refused. -/
inductive IsReached : Cascade → Prop
  | start : IsReached {}
  | file {s : Cascade} (h : IsReached s) (o : Occasion) {stmts : List Statement}
      (hparsed : ∀ stmt ∈ stmts, stmt.IsParsed) : IsReached (run o.context s stmts).state

theorem IsReached.isCoherent {s : Cascade} (h : s.IsReached) : s.IsCoherent fun _ => True := by
  induction h with
  | start => exact isCoherent_empty
  | file _ o hparsed ih =>
    exact ih.run (fun stmt hstmt => (hparsed stmt hstmt).isPlain) (fun _ _ _ _ => trivial)
      (o.isKnown_context _)

end Cascade

namespace Snapshot

open Cascade

/-- Every cascade that files of statements have written comes back from its rows, in every part but
the clock, which is set to the bucket that was written last; and so the rows come back too. -/
theorem toCascade_ofCascade_of_isReached {s : Cascade} (h : s.IsReached)
    (hclean : ∀ k ∈ s.buckets.buckets.keys, Descriptor.IsClean k.descriptor)
    (hselectors : Separates .selector s.selectors.keys)
    (hlayers : Separates .layer s.layers.entries.keys) (log : List LogEntry) :
    (ofCascade s log).toCascade = .ok s.rewound ∧ ofCascade s.rewound log = ofCascade s log ∧
      s.buckets.IsLatest s.rewound.buckets.clock :=
  ⟨toCascade_ofCascade h.isCoherent hclean hselectors hlayers log, ofCascade_rewound s log,
    h.isCoherent.buckets.isLatest_latest⟩

/-- A file that deletes the bucket it has written last. -/
def layeredSource : String :=
  "SET LAYER = base; ALTER STYLE SELECTOR card WHERE width >= 600px SET color = blue; " ++
    "CREATE STYLE SELECTOR card (color = red); DELETE FROM style_props WHERE selector = card;"

/-- The bucket that was written last is gone, so the clock goes back. -/
theorem toCascade_ofCascade_layered :
    ∃ stmts, Source.parse layeredSource false = .ok stmts ∧
      (ofCascade (run {} {} stmts).state []).toCascade = .ok (run {} {} stmts).state.rewound ∧
      (run {} {} stmts).state.buckets.clock = 2 ∧
      (run {} {} stmts).state.rewound.buckets.clock = 1 := by
  obtain ⟨stmts, hparse, hstate⟩ := exists_ok_of_any (p := fun stmts =>
    let s := (run {} {} stmts).state
    decide (s.selectors.keys = [.text "card"] ∧ s.layers.entries.keys = [.text "base"] ∧
      (∀ k ∈ s.buckets.buckets.keys, Descriptor.IsClean k.descriptor) ∧ s.buckets.clock = 2 ∧
      s.rewound.buckets.clock = 1))
    (x := Source.parse layeredSource false)
    (by
      unfold layeredSource
      rw [← String.ofList_append, Source.parse_ofList]
      decide +kernel)
  obtain ⟨hselectors, hlayers, hclean, hbefore, hafter⟩ := of_decide_eq_true hstate
  have hreached : (run {} {} stmts).state.IsReached :=
    .file .start {} fun stmt hstmt => ⟨_, _, stmts, hparse, hstmt⟩
  refine ⟨stmts, hparse, (toCascade_ofCascade_of_isReached hreached hclean ?_ ?_ []).1, hbefore,
    hafter⟩
  · rw [hselectors]
    intro a b ha hb _
    simp_all
  · rw [hlayers]
    intro a b ha hb _
    simp_all

end Snapshot

end StyleLedger
