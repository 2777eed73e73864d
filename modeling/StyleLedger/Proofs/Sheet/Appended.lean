import StyleLedger.Proofs.Cascade.Repeated
import StyleLedger.Proofs.Sheet.Matching

/-!
Raw blocks and imports, which are added to a sheet and never replaced.

They stand in lists and have no keys, so a statement that is applied again adds what it has added
before. Nothing else depends on these lists: a statement does to everything that is addressed by
keys what it does beside other lists (`step_withLists`). A sheet begins with its imports and
ends with its raw blocks. Therefore, when files that remove nothing are applied twice before another
one, the text is the same as if they had been applied once only if they add to neither list: every
such entry makes the text longer (`render_files_again_iff`).

* `Cascade.cssImports`, `Cascade.rawTexts` — the imports and the raw blocks that show in a sheet.
* `Statement.cssImports`, `Statement.rawTexts` — what a statement adds to them.
-/

namespace StyleLedger

open Outcome

/-! ## 1. What is shown -/

/-- The import that a statement adds to a sheet; only imports of style sheets show. -/
def Statement.cssImports : Statement → List SheetImport
  | .imports .css path media => [{ path := .text path, media := .textOrNull media }]
  | _ => []

/-- The raw block that a statement adds to a sheet; an empty one does not show. -/
def Statement.rawTexts : Statement → List Json
  | .raw css => [Json.text css].filter (·.isTrue)
  | _ => []

namespace Cascade

variable {s t u : Cascade} {ctx ctx' next : Context} {stmt : Statement}

/-- The imports that show in a sheet. -/
def cssImports (s : Cascade) : List SheetImport :=
  (s.imports.filter (·.kind = .css)).map fun i => { path := i.path, media := i.media }

/-- The raw blocks that show in a sheet. -/
def rawTexts (s : Cascade) : List Json :=
  (s.raw.map (·.css)).filter (·.isTrue)

/-! ## 2. Other lists -/

/-- The cascade with other raw blocks and imports. -/
def withLists (s : Cascade) (raw : List RawEntry) (imports : List ImportEntry) : Cascade :=
  { s with raw, imports }

section Frame

variable (r : List RawEntry) (i : List ImportEntry)

theorem deleteToken_withLists (s : Cascade) (ctx : Context) (name : Json) :
    (s.withLists r i).deleteToken ctx name = (s.deleteToken ctx name).withLists r i := by
  simp only [deleteToken, withLists]
  split
  · split <;> rfl
  · rfl

theorem deleteSelector_withLists (s : Cascade) (ctx : Context) (name : Json) :
    (s.withLists r i).deleteSelector ctx name = (s.deleteSelector ctx name).withLists r i := by
  simp only [deleteSelector, withLists]
  split
  · split <;> rfl
  · rfl

theorem mention_withLists (p : Context × Cascade) (name : String) :
    mention (p.1, p.2.withLists r i) name =
      ((mention p name).1, (mention p name).2.withLists r i) := by
  cases h : p.2.selectors.contains (.text name) with
  | true => simp [mention, referenceSelector, withLists, h]
  | false => simp [mention, referenceSelector, withLists, h]

theorem mentions_withLists (names : List String) (p : Context × Cascade) :
    names.foldl mention (p.1, p.2.withLists r i) =
      ((names.foldl mention p).1, (names.foldl mention p).2.withLists r i) := by
  induction names generalizing p with
  | nil => rfl
  | cons name names ih =>
    rw [List.foldl_cons, mention_withLists, ih]
    rfl

theorem writeStyle_withLists {target : StyleTarget} {mode : WriteMode} {ds : List Declaration}
    (h : s.writeStyle ctx target mode ds = .ok (next, t)) :
    (s.withLists r i).writeStyle ctx target mode ds = .ok (next, t.withLists r i) := by
  simp only [writeStyle, bind_eq_ok, pure_eq_ok, Prod.mk.injEq] at h
  obtain ⟨wrappers, hwrappers, rfl, rfl⟩ := h
  have hmentions := mentions_withLists r i (selectorsOf target) (ctx, s)
  simp only [writeStyle, hwrappers, hmentions]
  rfl

/-- A statement does to everything with a key what it does beside other lists. -/
theorem step_withLists (h : step ctx s stmt = .ok (next, t)) :
    ∃ r' i', step ctx (s.withLists r i) stmt = .ok (next, t.withLists r' i') := by
  cases stmt with
  | createStyle target ds | alterStyle target mode ds =>
    exact ⟨r, i, writeStyle_withLists r i h⟩
  | dropToken name | deleteToken name =>
    obtain ⟨rfl, rfl⟩ := Prod.mk.inj (Except.ok.inj h)
    exact ⟨r, i, by rw [step, deleteToken_withLists]; rfl⟩
  | dropSelector name =>
    obtain ⟨rfl, rfl⟩ := Prod.mk.inj (Except.ok.inj h)
    exact ⟨r, i, by rw [step, deleteSelector_withLists]; rfl⟩
  | createStartingStyle selector ds =>
    obtain ⟨rfl, rfl⟩ := Prod.mk.inj (Except.ok.inj h)
    have hmention := mention_withLists r i (ctx, s) selector
    exact ⟨r, i, by rw [step, hmention]; rfl⟩
  | _ =>
    obtain ⟨rfl, rfl⟩ := Prod.mk.inj (Except.ok.inj h)
    exact ⟨_, _, rfl⟩

theorem build_withLists {stmts : List Statement} (h : build ctx s stmts = .ok t) :
    ∃ r' i', build ctx (s.withLists r i) stmts = .ok (t.withLists r' i') := by
  induction stmts generalizing ctx s r i with
  | nil =>
    obtain rfl : s = t := Except.ok.inj h
    exact ⟨r, i, rfl⟩
  | cons stmt stmts ih =>
    obtain ⟨next, v, hstep, hrest⟩ := exists_of_build_cons h
    obtain ⟨r', i', hstep'⟩ := step_withLists r i hstep
    rw [build_cons_of_step hstep']
    exact ih r' i' hrest

end Frame

/-- Statements that are applied where everything with a key matches keep it so, whatever the lists
are. -/
theorem exists_build_of_keyed_matches {a b a' : Cascade} (h : a.keyed.Matches b.keyed)
    (hctx : ctx.Matches ctx') {stmts : List Statement} (hbuild : build ctx a stmts = .ok a') :
    ∃ b', build ctx' b stmts = .ok b' ∧ a'.keyed.Matches b'.keyed := by
  obtain ⟨r, i, hleft⟩ := build_withLists [] [] hbuild
  obtain ⟨c, hright, hmatch⟩ := h.build hctx hleft
  obtain ⟨r', i', hb⟩ := build_withLists b.raw b.imports hright
  exact ⟨c.withLists r' i', hb, { hmatch with raw := rfl, imports := rfl }⟩

/-! ## 3. What statements add -/

/-- A statement adds to the lists what it shows. -/
theorem shown_of_step (h : step ctx s stmt = .ok (next, t)) :
    t.cssImports = s.cssImports ++ stmt.cssImports ∧ t.rawTexts = s.rawTexts ++ stmt.rawTexts := by
  have hsame : ∀ {v : Cascade}, v.raw = s.raw → v.imports = s.imports →
      v.cssImports = s.cssImports ++ [] ∧ v.rawTexts = s.rawTexts ++ [] := by
    intro v hraw himports
    simp [cssImports, rawTexts, hraw, himports]
  have hwrite : ∀ {target mode ds}, s.writeStyle ctx target mode ds = .ok (next, t) →
      t.raw = s.raw ∧ t.imports = s.imports := by
    intro target mode ds hw
    simp only [writeStyle, bind_eq_ok, pure_eq_ok, Prod.mk.injEq] at hw
    obtain ⟨wrappers, -, -, rfl⟩ := hw
    rw [mentions_eq]
    exact ⟨rfl, rfl⟩
  cases stmt with
  | createStyle target ds | alterStyle target mode ds =>
    obtain ⟨hraw, himports⟩ := hwrite h
    exact hsame hraw himports
  | dropToken name | deleteToken name =>
    obtain ⟨rfl, rfl⟩ := Prod.mk.inj (Except.ok.inj h)
    exact hsame (by rw [deleteToken_eq]) (by rw [deleteToken_eq])
  | dropSelector name =>
    obtain ⟨rfl, rfl⟩ := Prod.mk.inj (Except.ok.inj h)
    exact hsame (by rw [deleteSelector_eq]) (by rw [deleteSelector_eq])
  | createStartingStyle selector ds =>
    obtain ⟨rfl, rfl⟩ := Prod.mk.inj (Except.ok.inj h)
    exact hsame (by rw [referenceSelector_eq]) (by rw [referenceSelector_eq])
  | raw css =>
    obtain ⟨rfl, rfl⟩ := Prod.mk.inj (Except.ok.inj h)
    simp [cssImports, rawTexts, Statement.cssImports, Statement.rawTexts]
  | imports kind path media =>
    obtain ⟨rfl, rfl⟩ := Prod.mk.inj (Except.ok.inj h)
    cases kind <;> simp [cssImports, rawTexts, Statement.cssImports, Statement.rawTexts]
  | _ =>
    obtain ⟨rfl, rfl⟩ := Prod.mk.inj (Except.ok.inj h)
    exact hsame rfl rfl

theorem shown_of_build {stmts : List Statement} (h : build ctx s stmts = .ok t) :
    t.cssImports = s.cssImports ++ stmts.flatMap Statement.cssImports ∧
      t.rawTexts = s.rawTexts ++ stmts.flatMap Statement.rawTexts := by
  induction stmts generalizing ctx s with
  | nil =>
    obtain rfl : s = t := Except.ok.inj h
    simp
  | cons stmt stmts ih =>
    obtain ⟨next, v, hstep, hrest⟩ := exists_of_build_cons h
    obtain ⟨himports, hraw⟩ := shown_of_step hstep
    obtain ⟨himports', hraw'⟩ := ih hrest
    simp [himports', hraw', himports, hraw]

theorem shown_of_files {files : List (List Statement)} (h : files.foldlM (build {}) s = .ok t) :
    t.cssImports = s.cssImports ++ files.flatten.flatMap Statement.cssImports ∧
      t.rawTexts = s.rawTexts ++ files.flatten.flatMap Statement.rawTexts := by
  induction files generalizing s with
  | nil =>
    obtain rfl : s = t := Except.ok.inj h
    simp
  | cons stmts files ih =>
    rw [List.foldlM_cons] at h
    obtain ⟨v, hv, hrest⟩ := bind_eq_ok.1 h
    obtain ⟨himports, hraw⟩ := shown_of_build hv
    obtain ⟨himports', hraw'⟩ := ih hrest
    simp [himports', hraw', himports, hraw]

end Cascade

/-! ## 4. Lines -/

namespace Sheet

/-- The lines of raw blocks. -/
def rawLines (texts : List Json) : List String :=
  texts.flatMap fun css => [css.shown, ""]

/-- Between the imports and the raw blocks stand the lines of everything with a key. -/
theorem lines_ofCascade (s : Cascade) (config : CompilerConfig) : (ofCascade s config).lines =
    importLines s.cssImports ++ (ofCascade s.keyed config).lines ++ rawLines s.rawTexts := by
  have hkeyed : (ofCascade s.keyed config).lines = [] ++ rootLines (ofCascade s config).root ++
      (ofCascade s config).preamble.flatMap (fun b => blockLines "" b ++ [""]) ++
      rulesLines ((ofCascade s config).rulesIn .null) ++
      (ofCascade s config).layerOrder.flatMap (ofCascade s config).layerLines ++
      (ofCascade s config).keyframes.flatMap (fun b => blockLines "" b ++ [""]) ++ [] := rfl
  rw [hkeyed]
  simp only [lines, List.append_assoc, List.nil_append, List.append_nil]
  rfl

/-- Cascades that match in everything with a key have the same text if they show the same imports
and raw blocks. -/
theorem render_eq_of_keyed_matches {a b : Cascade} (h : a.keyed.Matches b.keyed)
    (himports : a.cssImports = b.cssImports) (hraw : a.rawTexts = b.rawTexts)
    (config : CompilerConfig) : (ofCascade a config).render = (ofCascade b config).render := by
  rw [render, render, lines_ofCascade a, lines_ofCascade b, himports, hraw, h.lines_eq config]

/-- The number of characters of some lines, each with its end. -/
def measure : List String → Nat
  | [] => 0
  | l :: ls => l.length + 1 + measure ls

theorem measure_append (ls ms : List String) : measure (ls ++ ms) = measure ls + measure ms := by
  induction ls with
  | nil => simp [measure]
  | cons l ls ih =>
    rw [List.cons_append, measure, measure, ih]
    omega

theorem measure_pos {ls : List String} (h : ls ≠ []) : 0 < measure ls := by
  cases ls with
  | nil => contradiction
  | cons l ls =>
    rw [measure]
    omega

/-- A text of some lines has all their characters, and an end for each line but the last. -/
theorem length_intercalate {ls : List String} (h : ls ≠ []) :
    ("\n".intercalate ls).length + 1 = measure ls := by
  induction ls with
  | nil => contradiction
  | cons l ls ih =>
    cases ls with
    | nil => simp [measure]
    | cons m ms =>
      have hrest := ih (List.cons_ne_nil m ms)
      rw [String.intercalate_cons_cons, String.length_append, String.length_append]
      rw [measure]
      have hnewline : "\n".length = 1 := rfl
      omega

theorem measure_rawLines_append (ts us : List Json) :
    measure (rawLines (ts ++ us)) = measure (rawLines ts) + measure (rawLines us) := by
  rw [rawLines, List.flatMap_append, measure_append]
  rfl

theorem measure_rawLines_pos {ts : List Json} (h : ts ≠ []) : 0 < measure (rawLines ts) := by
  cases ts with
  | nil => contradiction
  | cons css ts => exact measure_pos (by simp [rawLines])

theorem measure_importLines_lt {is : List SheetImport} (h : is ≠ []) (js : List SheetImport) :
    measure (importLines js) < measure (importLines (is ++ js)) := by
  have hlong : (is ++ js).isEmpty = false := by simp [h]
  rw [importLines, importLines, hlong]
  simp only [Bool.false_eq_true, if_false, List.map_append, measure_append]
  have hpos : 0 < measure (is.map importLine) := measure_pos (by simpa using h)
  split
  · simp [measure]
  · rw [measure_append]
    omega

/-- The same imports and raw blocks once more make the text longer. -/
theorem render_eq_iff_of_repeated {a b : Cascade} (h : a.keyed.Matches b.keyed)
    {is js : List SheetImport} {ts us : List Json} (ha : a.cssImports = is ++ js)
    (ha' : a.rawTexts = ts ++ us) (hb : b.cssImports = is ++ (is ++ js))
    (hb' : b.rawTexts = ts ++ (ts ++ us)) (config : CompilerConfig) :
    (ofCascade b config).render = (ofCascade a config).render ↔ is = [] ∧ ts = [] := by
  have hlinesA := lines_ofCascade a config
  have hlinesB := lines_ofCascade b config
  rw [ha, ha', h.lines_eq config] at hlinesA
  rw [hb, hb'] at hlinesB
  constructor
  · intro heq
    by_contra hne
    have hmore : 0 < measure (ofCascade a config).lines ∧
        measure (ofCascade a config).lines < measure (ofCascade b config).lines := by
      rw [hlinesA, hlinesB]
      simp only [measure_append, measure_rawLines_append]
      by_cases his : is = []
      · have hpos := measure_rawLines_pos fun hts => hne ⟨his, hts⟩
        rw [his, List.nil_append, List.nil_append]
        omega
      · have hfirst := measure_importLines_lt his js
        have hsecond := measure_importLines_lt his (is ++ js)
        omega
    have hfilled : ∀ {ls : List String}, 0 < measure ls → ls ≠ [] := by
      rintro ls hpos rfl
      simp [measure] at hpos
    have hlengthA := length_intercalate (hfilled hmore.1)
    have hlengthB := length_intercalate (hfilled (Nat.lt_trans hmore.1 hmore.2))
    rw [render, render] at heq
    rw [heq] at hlengthB
    omega
  · rintro ⟨rfl, rfl⟩
    exact (render_eq_of_keyed_matches h (ha.trans hb.symm) (ha'.trans hb'.symm) config).symm

end Sheet

/-! ## 5. Files before another one -/

/-- Files that remove nothing are applied twice before another one: this gives the text that they
give when they are applied once, if and only if none of their statements adds an import or a raw
block. -/
theorem Cascade.render_files_again_iff {files : List (List Statement)} {last : List Statement}
    (hplain : ∀ stmts ∈ files, ∀ stmt ∈ stmts, stmt.IsPlain)
    (hkeeps : ∀ stmts ∈ files, ∀ stmt ∈ stmts, stmt.removes = false) {t a b : Cascade}
    (hfiles : files.foldlM (build {}) {} = .ok t)
    (honce : (files ++ [last]).foldlM (build {}) {} = .ok a)
    (htwice : (files ++ [last]).foldlM (build {}) t = .ok b) (config : CompilerConfig) :
    (Sheet.ofCascade b config).render = (Sheet.ofCascade a config).render ↔
      ∀ stmt ∈ files.flatten, stmt.cssImports = [] ∧ stmt.rawTexts = [] := by
  obtain ⟨u, hu, hmatch⟩ := exists_files_again hplain hkeeps hfiles
  have hlast : ∀ {s v w : Cascade}, files.foldlM (build {}) s = .ok v →
      (files ++ [last]).foldlM (build {}) s = .ok w → build {} v last = .ok w := by
    intro s v w hv hw
    rw [List.foldlM_append] at hw
    obtain ⟨v', hv', hlast⟩ := bind_eq_ok.1 hw
    obtain rfl := Except.ok.inj (hv.symm.trans hv')
    simpa using hlast
  obtain ⟨b', hb', hkeyed⟩ := exists_build_of_keyed_matches hmatch ⟨rfl, rfl⟩ (hlast hfiles honce)
  obtain rfl : b' = b := Except.ok.inj (hb'.symm.trans (hlast hu htwice))
  obtain ⟨himports, hraw⟩ := shown_of_files hfiles
  obtain ⟨himportsA, hrawA⟩ := shown_of_files honce
  obtain ⟨himportsB, hrawB⟩ := shown_of_files htwice
  have hnone : cssImports {} = [] ∧ rawTexts {} = [] := ⟨rfl, rfl⟩
  rw [himports, hnone.1, List.nil_append] at himportsB
  rw [hraw, hnone.2, List.nil_append] at hrawB
  rw [hnone.1, List.nil_append] at himportsA
  rw [hnone.2, List.nil_append] at hrawA
  rw [List.flatten_append, List.flatMap_append] at himportsA himportsB hrawA hrawB
  rw [Sheet.render_eq_iff_of_repeated hkeyed himportsA hrawA himportsB hrawB config]
  simp only [List.flatMap_eq_nil_iff, ← forall_and]

end StyleLedger
