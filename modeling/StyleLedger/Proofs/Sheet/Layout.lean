import StyleLedger.Proofs.Sheet.Brackets

/-!
Empty lines and braces in a written style sheet.

An empty line is written after a block, by whichever function writes the end of that block: inside a
scope none are, outside any scope they follow every rule and every wrapper. Lines that are evenly
spaced stay so when they are put into a row, and when a block with an empty line after it is put
around them; so whatever sections, layers, scopes and wrappers a sheet has, it never shows two empty
lines in a row.

* `Sheet.IsSolid` — lines without an empty one; `Sheet.IsSpaced` — lines that are evenly spaced.
* `Sheet.isSpaced_lines` — the lines of a sheet.
* `Sheet.lines_are_balanced_and_spaced` — together with the blocks of a sheet.
-/

namespace StyleLedger.Sheet

/-! ## 1. Lines without empty ones -/

/-- No line is empty. -/
def IsSolid (ls : List String) : Prop :=
  ∀ l ∈ ls, l ≠ ""

theorem opening_ne (indent header : String) : opening indent header ≠ "" := by
  intro h
  simpa [opening] using congrArg String.toList h

theorem closing_ne (indent : String) : closing indent ≠ "" := by
  intro h
  simpa [closing] using congrArg String.toList h

namespace IsSolid

variable {ls ms : List String}

theorem nil : IsSolid [] :=
  fun l hl => by simp at hl

theorem singleton {l : String} (h : l ≠ "") : IsSolid [l] :=
  List.forall_mem_cons.2 ⟨h, nil⟩

theorem append (hls : IsSolid ls) (hms : IsSolid ms) : IsSolid (ls ++ ms) :=
  List.forall_mem_append.2 ⟨hls, hms⟩

theorem flatMap {α : Type} {f : α → List String} {xs : List α} (h : ∀ x ∈ xs, IsSolid (f x)) :
    IsSolid (xs.flatMap f) := by
  intro l hl
  obtain ⟨x, hx, hl⟩ := List.mem_flatMap.1 hl
  exact h x hx l hl

/-- A block around solid lines. -/
theorem block (h : IsSolid ls) (indent header : String) :
    IsSolid (opening indent header :: (ls ++ [closing indent])) :=
  List.forall_mem_cons.2 ⟨opening_ne indent header, h.append (singleton (closing_ne indent))⟩

theorem terminated {α : Type} {f : α → String} (h : ∀ x, IsTerminated (f x)) (xs : List α) :
    IsSolid (xs.map f) := by
  intro l hl
  obtain ⟨x, -, rfl⟩ := List.mem_map.1 hl
  exact (h x).ne

end IsSolid

theorem isSolid_declarations (indent : String) (ds : List SheetDeclaration) :
    IsSolid (ds.map (declarationLine indent)) :=
  IsSolid.terminated (fun _ => isTerminated_append _) ds

mutual

theorem isSolid_blockLines : ∀ (indent : String) (b : SheetBlock), IsSolid (blockLines indent b)
  | indent, .block header declarations children =>
    ((isSolid_declarations (indent ++ indentStep) declarations).append
      (isSolid_childLines (indent ++ indentStep) children)).block indent header.shown

theorem isSolid_childLines : ∀ (indent : String) (bs : List SheetBlock),
    IsSolid (childLines indent bs)
  | _, [] => .nil
  | indent, b :: bs => (isSolid_blockLines indent b).append (isSolid_childLines indent bs)

end

/-- A rule in a scope is written without empty lines. -/
theorem isSolid_ruleLines (indent : String) (r : SheetRule) : IsSolid (ruleLines [] indent r) := by
  unfold ruleLines
  induction Descriptor.wrappersOf r.descriptor generalizing indent with
  | nil => exact (isSolid_declarations (indent ++ indentStep) r.declarations).block _ _
  | cons w ws ih => exact (ih (indent ++ indentStep)).block indent w

/-! ## 2. Evenly spaced lines -/

/-- The first line is not empty, no two lines in a row are, and the last one is. -/
structure IsSpaced (ls : List String) : Prop where
  head : ∀ l ∈ ls.head?, l ≠ ""
  apart : ls.IsChain fun l m => l ≠ "" ∨ m ≠ ""
  last : ∀ l ∈ ls.getLast?, l = ""

namespace IsSpaced

variable {ls ms : List String}

theorem nil : IsSpaced [] :=
  ⟨by simp, by simp, by simp⟩

theorem append (hls : IsSpaced ls) (hms : IsSpaced ms) : IsSpaced (ls ++ ms) := by
  rcases eq_or_ne ls [] with rfl | hne
  · exact hms
  rcases eq_or_ne ms [] with rfl | hne'
  · rwa [List.append_nil]
  refine ⟨?head, ?apart, ?last⟩
  case head =>
    rw [List.head?_append_of_ne_nil _ hne]
    exact hls.head
  case apart =>
    exact List.isChain_append.2 ⟨hls.apart, hms.apart, fun _ _ m hm => .inr (hms.head m hm)⟩
  case last =>
    rw [List.getLast?_append_of_ne_nil _ hne']
    exact hms.last

theorem flatMap {α : Type} {f : α → List String} {xs : List α} (h : ∀ x ∈ xs, IsSpaced (f x)) :
    IsSpaced (xs.flatMap f) := by
  induction xs with
  | nil => exact nil
  | cons x xs ih =>
    obtain ⟨hx, hxs⟩ := List.forall_mem_cons.1 h
    exact hx.append (ih hxs)

/-- An empty line after some that are not. -/
theorem ofSolid (h : IsSolid ls) (hne : ls ≠ []) : IsSpaced (ls ++ [""]) := by
  have hchain : ls.IsChain fun l m => l ≠ "" ∨ m ≠ "" :=
    (List.pairwise_of_forall_mem_list fun l hl _ _ => .inl (h l hl)).isChain
  refine ⟨?head, ?apart, ?last⟩
  case head =>
    rw [List.head?_append_of_ne_nil _ hne]
    exact fun l hl => h l (List.mem_of_head? hl)
  case apart =>
    refine List.isChain_append.2 ⟨hchain, List.IsChain.singleton _, fun l hl _ _ => .inl ?_⟩
    exact h l (List.mem_of_getLast? hl)
  case last => simp

/-- A block around evenly spaced lines, with an empty line after it. -/
theorem block (h : IsSpaced ls) (indent header : String) :
    IsSpaced (opening indent header :: (ls ++ [closing indent, ""])) := by
  have hinner : IsSpaced (ls ++ ([closing indent] ++ [""])) :=
    h.append (ofSolid (.singleton (closing_ne indent)) (List.cons_ne_nil _ _))
  refine ⟨?head, ?apart, ?last⟩
  case head => simpa using opening_ne indent header
  case apart => exact hinner.apart.cons fun _ _ => .inl (opening_ne indent header)
  case last =>
    rw [← List.singleton_append, List.getLast?_append_of_ne_nil _ (by simp)]
    exact hinner.last

end IsSpaced

/-- A rule outside any scope has an empty line after each of its ends. -/
theorem isSpaced_ruleLines (indent : String) (r : SheetRule) :
    IsSpaced (ruleLines [""] indent r) := by
  unfold ruleLines
  induction Descriptor.wrappersOf r.descriptor generalizing indent with
  | nil =>
    -- the innermost block is the rule itself, which has no empty line inside
    have hsolid := (isSolid_declarations (indent ++ indentStep) r.declarations).block indent
      r.selector.shown
    simpa [wrapLines] using IsSpaced.ofSolid hsolid (List.cons_ne_nil _ _)
  | cons w ws ih => exact (ih (indent ++ indentStep)).block indent w

theorem isSpaced_scopeLines (scope : Json × Json) (rules : List SheetRule) :
    IsSpaced (scopeLines scope rules) := by
  unfold scopeLines
  split
  · exact IsSpaced.flatMap fun r _ => isSpaced_ruleLines "" r
  · next root limit _ =>
    have hrules : IsSolid (rules.flatMap (ruleLines [] indentStep)) :=
      IsSolid.flatMap fun r _ => isSolid_ruleLines indentStep r
    have hsolid := hrules.block "" (scopeHeader root limit)
    simpa using IsSpaced.ofSolid hsolid (List.cons_ne_nil _ _)

theorem isSpaced_rulesLines (rules : List SheetRule) : IsSpaced (rulesLines rules) :=
  IsSpaced.flatMap fun e _ => isSpaced_scopeLines e.1 e.2

theorem isSpaced_layerLines (sheet : Sheet) (layer : Json) : IsSpaced (sheet.layerLines layer) := by
  unfold layerLines
  split
  · exact .nil
  · exact (isSpaced_rulesLines _).block "" _

theorem isSpaced_importLines (imports : List SheetImport) : IsSpaced (importLines imports) := by
  unfold importLines
  cases imports with
  | nil => exact .nil
  | cons i imports =>
    exact IsSpaced.ofSolid (IsSolid.terminated isTerminated_importText (i :: imports)) (by simp)

theorem isSpaced_rootLines (root : List SheetDeclaration) : IsSpaced (rootLines root) := by
  unfold rootLines
  split
  · exact .nil
  · have hsolid := (isSolid_declarations indentStep root).block "" ":root"
    simpa using IsSpaced.ofSolid hsolid (List.cons_ne_nil _ _)

theorem isSpaced_blocks (bs : List SheetBlock) :
    IsSpaced (bs.flatMap fun b => blockLines "" b ++ [""]) := by
  refine IsSpaced.flatMap fun b _ => ?_
  have hsolid := isSolid_blockLines "" b
  cases b
  exact IsSpaced.ofSolid hsolid (List.cons_ne_nil _ _)

/-- A sheet whose raw blocks are not empty is evenly spaced. -/
theorem isSpaced_lines {sheet : Sheet} (hraw : ∀ css ∈ sheet.raw, css.shown ≠ "") :
    IsSpaced sheet.lines := by
  have hrawLines : IsSpaced (sheet.raw.flatMap fun css => [css.shown, ""]) :=
    IsSpaced.flatMap fun css hcss =>
      IsSpaced.ofSolid (.singleton (hraw css hcss)) (List.cons_ne_nil _ _)
  have hlayers : IsSpaced (sheet.layerOrder.flatMap sheet.layerLines) :=
    IsSpaced.flatMap fun layer _ => isSpaced_layerLines sheet layer
  exact ((((((isSpaced_importLines _).append (isSpaced_rootLines _)).append
    (isSpaced_blocks _)).append (isSpaced_rulesLines _)).append hlayers).append
    (isSpaced_blocks _)).append hrawLines

/-! ## 3. Braces and empty lines -/

/-- Leaving its raw blocks aside, a sheet is written with balanced braces. Every closing line stands
at the indentation of the line that it belongs to, and every declaration stands inside its blocks:
that of a rule inside its layer, its scope, its wrappers from the outermost on, and its selector.
With its raw blocks, the sheet is evenly spaced. -/
theorem lines_are_balanced_and_spaced {sheet : Sheet} (hnamed : sheet.IsNamed)
    (hraw : ∀ css ∈ sheet.raw, ∃ text : String, text ≠ "" ∧ css = .text text) :
    let structured := ({ sheet with raw := [] } : Sheet).lines
    sheet.lines = structured ++ sheet.raw.flatMap (fun css => [css.shown, ""]) ∧
      (∃ w : DyckWord, w.toList = brackets structured) ∧
      (∃ blocks, read [] structured = some ⟨blocks, sheet.frontPlaced ++
          sheet.writtenRules.flatMap SheetRule.placed ++
          sheet.keyframes.flatMap (blockPlaced [] 0)⟩ ∧
        ∀ b ∈ blocks, IsBlock sheet.headers b) ∧
      (∀ r, r ∈ sheet.writtenRules ↔
        r ∈ sheet.rules ∧ (r.layer = .null ∨ r.layer ∈ sheet.layerOrder)) ∧
      IsSpaced sheet.lines := by
  intro structured
  obtain ⟨blocks, hread, hblocks⟩ := hnamed.reads_lines.read_eq
  refine ⟨?raw, exists_dyckWord_of_read hread, ⟨blocks, hread, hblocks⟩, hnamed.mem_writtenRules,
    isSpaced_lines fun css hcss => ?text⟩
  case raw =>
    simp only [structured, lines, List.flatMap_nil, List.append_nil]
    rfl
  case text =>
    obtain ⟨text, htext, rfl⟩ := hraw css hcss
    exact htext

/-- A rule in a wrapper of its own. -/
def wrappedRule : SheetRule :=
  { selector := .text "b", declarations := [⟨"top", .text "1", .null⟩]
    descriptor := some
      { kind := .containerStyle, name := .text "card", condition := .text "(--x: y)" } }

/-- A rule in two wrappers, in a scope of a layer. -/
def scopedRule : SheetRule :=
  { selector := .text ".a", declarations := [⟨"top", .text "0", .null⟩], layer := .text "m"
    scopeRoot := .text ".r", scopeLimit := .text ".t"
    descriptor := some
      { kind := .container, min := .text "9px", axis := .text "inline", name := .text "n"
        supports := .text "(gap: 0)" } }

/-- A sheet with a section of every kind. -/
def sectionedSheet : Sheet :=
  { imports := [⟨.text "x.css", .text "print"⟩], root := [⟨"--a", .text "2", .null⟩]
    preamble := [.block (.text "@page") []
      [.block (.text "@top-left") [⟨"top", .text "3", .null⟩] []]]
    rules := [scopedRule, wrappedRule], layerOrder := [.text "m"]
    keyframes := [.block (.text "@keyframes k") []
      [.block (.text "from") [⟨"top", .text "4", .null⟩] []]]
    raw := [.text "/* */"] }

/-- Its lines. -/
def sectionedLines : List String :=
  ["@import url('x.css') print;", "",
    ":root \x7b", "  --a: 2;", "\x7d", "",
    "@page \x7b", "  @top-left \x7b", "    top: 3;", "  \x7d", "\x7d", "",
    "@container card style(--x: y) \x7b", "  b \x7b", "    top: 1;", "  \x7d", "", "\x7d", "",
    "@layer m \x7b",
    "@scope (.r) to (.t) \x7b",
    "  @supports (gap: 0) \x7b", "    @container n (min-inline-size: 9px) \x7b",
    "      .a \x7b", "        top: 0;", "      \x7d",
    "    \x7d", "  \x7d",
    "\x7d", "",
    "\x7d", "",
    "@keyframes k \x7b", "  from \x7b", "    top: 4;", "  \x7d", "\x7d", "",
    "/* */", ""]

/-- The declaration of a rule stands inside its layer, its scope, its wrappers and its selector. -/
theorem lines_are_balanced_and_spaced_page :
    sectionedSheet.lines = sectionedLines ∧
      scopedRule.placed =
        [⟨["@layer m \x7b", "@scope (.r) to (.t) \x7b", "  @supports (gap: 0) \x7b",
          "    @container n (min-inline-size: 9px) \x7b", "      .a \x7b"], "        top: 0;"⟩] ∧
      (∃ w : DyckWord, w.toList = brackets ({ sectionedSheet with raw := [] } : Sheet).lines) ∧
      scopedRule ∈ sectionedSheet.writtenRules ∧ IsSpaced sectionedSheet.lines := by
  have hnamed : sectionedSheet.IsNamed := by
    constructor
    · intro layer hlayer
      exact ⟨"m", by simpa [sectionedSheet] using hlayer⟩
    · intro r hr
      have hr : r = scopedRule ∨ r = wrappedRule := by simpa [sectionedSheet] using hr
      rcases hr with rfl | rfl
      · exact ⟨.inr ⟨".r", rfl⟩, .inr ⟨".t", rfl⟩⟩
      · exact ⟨.inl rfl, .inl rfl⟩
  have hraw : ∀ css ∈ sectionedSheet.raw, ∃ text : String, text ≠ "" ∧ css = .text text := by
    intro css hcss
    exact ⟨"/* */", by decide, by simpa [sectionedSheet] using hcss⟩
  obtain ⟨-, hbalanced, -, hwritten, hspaced⟩ := lines_are_balanced_and_spaced hnamed hraw
  have hrule : scopedRule ∈ sectionedSheet.writtenRules :=
    (hwritten scopedRule).2 ⟨List.mem_cons_self, .inr List.mem_cons_self⟩
  exact ⟨by decide +kernel, by decide +kernel, hbalanced, hrule, hspaced⟩

end StyleLedger.Sheet
