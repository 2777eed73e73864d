import Mathlib.Combinatorics.Enumerative.DyckWord
import StyleLedger.Proofs.Sheet.Emission

/-!
The blocks of a written style sheet.

The lines of a sheet are read again, knowing only what stands in them: a line that ends in an
opening brace opens a block, and a line that is a closing brace after indentation closes the block
opened last. The reader notes which two lines bound a block, and for every other line the blocks
around it.

Lines are read independently of what stands before and after, so what is read is composed like the
lines: lines without braces, lines in a row, and lines inside a block (`Sheet.Reads.block`). A rule
is then found inside exactly the headers that it has itself, in the layer and the scope that it has.
Where a line stands is said by its text, blanks included.

* `Sheet.read` — reads lines; `Sheet.brackets` is the sequence of their braces.
* `Sheet.exists_dyckWord_of_read` — lines that can be read are balanced.
* `Sheet.Reads` — what some lines are read as, wherever they stand.
* `SheetRule.path`, `SheetRule.placed` — the lines that open the blocks around a rule, and its
  declarations inside them.
* `Sheet.IsNamed.reads_lines` — the lines of a sheet without raw blocks.
-/

namespace StyleLedger

open Keyed (key)

namespace Sheet

/-! ## 1. Lines with braces -/

/-- The line ends in an opening brace. -/
def opens (line : String) : Bool :=
  line.toList.getLast? = some '\x7b'

/-- The line is a closing brace after indentation. -/
def closes (line : String) : Bool :=
  line.toList.dropWhile (· = ' ') = ['\x7d']

/-- The opening and closing braces of some lines. -/
def brackets (ls : List String) : List DyckStep :=
  ls.filterMap fun l => if opens l then some .U else if closes l then some .D else none

theorem getLast?_of_closes {line : String} (h : closes line = true) :
    line.toList.getLast? = some '\x7d' := by
  have hsuffix : ['\x7d'] <:+ line.toList := by
    rw [← of_decide_eq_true h]
    exact List.dropWhile_suffix _
  obtain ⟨front, hfront⟩ := hsuffix
  rw [← hfront, List.getLast?_append]
  rfl

theorem not_opens_of_closes {line : String} (h : closes line = true) : opens line = false := by
  rw [opens, getLast?_of_closes h]
  decide

theorem opens_headLine (n : Nat) (header : String) : opens (headLine n header) = true := by
  simp [opens, headLine]

theorem mem_indentation {n : Nat} : ∀ c ∈ (indentation n).toList, c = ' ' := by
  induction n with
  | zero => simp [indentation]
  | succ n ih =>
    intro c hc
    rw [indentation, String.toList_append, List.mem_append] at hc
    rcases hc with hc | hc
    · exact ih c hc
    · simpa using hc

theorem closes_endLine (n : Nat) : closes (endLine n) = true := by
  have hspaces : ∀ c ∈ (indentation n).toList, decide (c = ' ') = true := fun c hc =>
    decide_eq_true (mem_indentation c hc)
  rw [closes, endLine, String.toList_append, List.dropWhile_append_of_pos hspaces]
  decide

/-- The line ends in a semicolon, as those with a declaration or an import do. -/
def IsTerminated (line : String) : Prop :=
  line.toList.getLast? = some ';'

theorem isTerminated_append (text : String) : IsTerminated (text ++ ";") := by
  simp [IsTerminated]

theorem IsTerminated.ne {line : String} (h : IsTerminated line) : line ≠ "" := by
  rintro rfl
  simp [IsTerminated] at h

theorem isTerminated_valueLine (n : Nat) (d : SheetDeclaration) : IsTerminated (valueLine n d) :=
  isTerminated_append _

theorem isTerminated_importText (i : SheetImport) : IsTerminated (importText i) :=
  isTerminated_append _

/-! ## 2. Reading lines -/

/-- A line without a brace, and the lines that open the blocks around it, outermost first. -/
structure Placed where
  path : List String
  line : String
deriving Repr, DecidableEq

/-- What lines are read as: the first and the last line of every block, and the lines with neither.
Empty lines are passed over. -/
structure Reading where
  blocks : List (String × String) := []
  placed : List Placed := []
deriving Repr, DecidableEq

/-- Reads lines inside blocks. A block is closed once, and no block is left open at the end. -/
def read (path : List String) : List String → Option Reading
  | [] => if path = [] then some {} else none
  | l :: ls =>
    if opens l then read (path ++ [l]) ls
    else if closes l then
      match path.getLast? with
      | none => none
      | some o => (read path.dropLast ls).map fun r => { r with blocks := (o, l) :: r.blocks }
    else if l = "" then read path ls
    else (read path ls).map fun r => { r with placed := ⟨path, l⟩ :: r.placed }

section Read

variable {path ls : List String} {l : String}

theorem read_opens (h : opens l = true) : read path (l :: ls) = read (path ++ [l]) ls := by
  rw [read, if_pos h]

theorem read_closes (h : closes l = true) (o : String) : read (path ++ [o]) (l :: ls) =
    (read path ls).map fun r => { r with blocks := (o, l) :: r.blocks } := by
  rw [read, if_neg (by simp [not_opens_of_closes h]), if_pos h]
  simp

theorem read_blank : read path ("" :: ls) = read path ls := by
  rw [read, if_neg (by decide), if_neg (by decide), if_pos rfl]

theorem read_terminated (h : IsTerminated l) : read path (l :: ls) =
    (read path ls).map fun r => { r with placed := ⟨path, l⟩ :: r.placed } := by
  have hopens : ¬opens l = true := by
    rw [opens, h]
    decide
  have hcloses : ¬closes l = true := fun hcloses => by
    have := h.symm.trans (getLast?_of_closes hcloses)
    simp at this
  rw [read, if_neg hopens, if_neg hcloses, if_neg h.ne]

end Read

/-- With some blocks open at first, as many braces close a block as there were blocks to close, and
at no point more. -/
def ClosesAll (depth : Nat) (bs : List DyckStep) : Prop :=
  bs.count .D = depth + bs.count .U ∧ ∀ i, (bs.take i).count .D ≤ depth + (bs.take i).count .U

namespace ClosesAll

variable {depth : Nat} {bs : List DyckStep}

theorem nil : ClosesAll 0 [] := by
  simp [ClosesAll]

theorem up (h : ClosesAll (depth + 1) bs) : ClosesAll depth (.U :: bs) := by
  obtain ⟨htotal, hpoint⟩ := h
  constructor
  · rw [List.count_cons_of_ne (by decide), List.count_cons_self]
    omega
  · intro i
    cases i with
    | zero => simp
    | succ i =>
      have hi := hpoint i
      rw [List.take_succ_cons, List.count_cons_of_ne (by decide), List.count_cons_self]
      omega

theorem down (h : ClosesAll depth bs) : ClosesAll (depth + 1) (.D :: bs) := by
  obtain ⟨htotal, hpoint⟩ := h
  constructor
  · rw [List.count_cons_self, List.count_cons_of_ne (by decide)]
    omega
  · intro i
    cases i with
    | zero => simp
    | succ i =>
      have hi := hpoint i
      rw [List.take_succ_cons, List.count_cons_self, List.count_cons_of_ne (by decide)]
      omega

end ClosesAll

/-- Lines that are read to the end close all blocks. -/
theorem closesAll_of_read {ls : List String} : ∀ {path : List String},
    (read path ls).isSome = true → ClosesAll path.length (brackets ls) := by
  induction ls with
  | nil =>
    intro path h
    obtain rfl : path = [] := by
      by_contra hne
      simp [read, hne] at h
    exact .nil
  | cons l ls ih =>
    intro path h
    by_cases hopens : opens l = true
    · have hbrackets : brackets (l :: ls) = .U :: brackets ls := by simp [brackets, hopens]
      rw [read_opens hopens] at h
      have hrest := ih h
      rw [List.length_append, List.length_singleton] at hrest
      rw [hbrackets]
      exact hrest.up
    by_cases hcloses : closes l = true
    · have hbrackets : brackets (l :: ls) = .D :: brackets ls := by
        simp [brackets, hopens, hcloses]
      rcases List.eq_nil_or_concat path with rfl | ⟨front, o, rfl⟩
      · simp [read, hopens, hcloses] at h
      rw [List.concat_eq_append, read_closes hcloses, Option.isSome_map] at h
      rw [hbrackets, List.concat_eq_append, List.length_append, List.length_singleton]
      exact (ih h).down
    · have hbrackets : brackets (l :: ls) = brackets ls := by simp [brackets, hopens, hcloses]
      have hrest : (read path ls).isSome = true := by
        rw [read, if_neg hopens, if_neg hcloses] at h
        split at h <;> simpa using h
      rw [hbrackets]
      exact ih hrest

/-- The braces of lines that can be read are balanced. -/
theorem exists_dyckWord_of_read {ls : List String} {r : Reading} (h : read [] ls = some r) :
    ∃ w : DyckWord, w.toList = brackets ls := by
  have hsome : (read [] ls).isSome = true := by simp [h]
  obtain ⟨htotal, hpoint⟩ := closesAll_of_read hsome
  simp only [List.length_nil, Nat.zero_add] at htotal hpoint
  exact ⟨⟨brackets ls, htotal.symm, hpoint⟩, rfl⟩

/-! ## 3. Lines read in their place -/

/-- The first and the last line of a block with one of some headers: both have the same blanks
before them. -/
def IsBlock (headers : List String) (b : String × String) : Prop :=
  ∃ n, ∃ header ∈ headers,
    b = (indentation n ++ header ++ " \x7b", indentation n ++ "\x7d")

/-- Inside the blocks of `path`, the lines are read up to their end without closing any of these
blocks. What they open they close, all of it blocks with given headers, and they hold `placed`. -/
def Reads (headers path ls : List String) (placed : List Placed) : Prop :=
  ∃ blocks, (∀ b ∈ blocks, IsBlock headers b) ∧ ∀ rest, read path (ls ++ rest) =
    (read path rest).map fun r => ⟨blocks ++ r.blocks, placed ++ r.placed⟩

namespace Reads

variable {headers path ls ms : List String} {ps qs : List Placed}

theorem nil : Reads headers path [] [] :=
  ⟨[], by simp, fun rest => by simp⟩

theorem blank : Reads headers path [""] [] :=
  ⟨[], by simp, fun rest => by simp [read_blank]⟩

theorem append (hls : Reads headers path ls ps) (hms : Reads headers path ms qs) :
    Reads headers path (ls ++ ms) (ps ++ qs) := by
  obtain ⟨bs, hbs, hls⟩ := hls
  obtain ⟨cs, hcs, hms⟩ := hms
  refine ⟨bs ++ cs, List.forall_mem_append.2 ⟨hbs, hcs⟩, fun rest => ?_⟩
  rw [List.append_assoc, hls, hms, Option.map_map]
  simp only [List.append_assoc]
  rfl

theorem append_blank (h : Reads headers path ls ps) : Reads headers path (ls ++ [""]) ps := by
  rw [← List.append_nil ps]
  exact h.append blank

theorem flatMap {α : Type} {f : α → List String} {g : α → List Placed} {xs : List α}
    (h : ∀ x ∈ xs, Reads headers path (f x) (g x)) :
    Reads headers path (xs.flatMap f) (xs.flatMap g) := by
  induction xs with
  | nil => exact nil
  | cons x xs ih =>
    obtain ⟨hx, hxs⟩ := List.forall_mem_cons.1 h
    exact hx.append (ih hxs)

/-- Lines that end in a semicolon are held as they are. -/
theorem terminated {α : Type} {f : α → String} (h : ∀ x, IsTerminated (f x)) :
    ∀ xs : List α, Reads headers path (xs.map f) (xs.map fun x => ⟨path, f x⟩)
  | [] => nil
  | x :: xs => by
    obtain ⟨bs, hbs, hread⟩ := terminated h xs
    refine ⟨bs, hbs, fun rest => ?_⟩
    rw [List.map_cons, List.cons_append, read_terminated (h x), hread, Option.map_map]
    rfl

/-- A block, and what may follow it. -/
theorem block {n : Nat} {header : String} {gap : List String} (hheader : header ∈ headers)
    (hgap : Reads headers path gap [])
    (h : Reads headers (path ++ [headLine n header]) ls ps) :
    Reads headers path (headLine n header :: (ls ++ endLine n :: gap)) ps := by
  obtain ⟨bs, hbs, hread⟩ := h
  obtain ⟨cs, hcs, hgap⟩ := hgap
  -- the block is closed after those inside it, and before those that the gap could hold
  let own := (headLine n header, endLine n)
  have hown : IsBlock headers own := ⟨n, header, hheader, rfl⟩
  refine ⟨bs ++ own :: cs, List.forall_mem_append.2 ⟨hbs, List.forall_mem_cons.2 ⟨hown, hcs⟩⟩,
    fun rest => ?_⟩
  rw [List.cons_append, List.append_assoc, read_opens (opens_headLine _ _), hread, List.cons_append,
    read_closes (closes_endLine n), hgap, Option.map_map, Option.map_map]
  simp only [List.append_assoc, List.nil_append, List.cons_append]
  rfl

/-- Lines that nothing follows are read to the end. -/
theorem read_eq (h : Reads headers [] ls ps) :
    ∃ blocks, read [] ls = some ⟨blocks, ps⟩ ∧ ∀ b ∈ blocks, IsBlock headers b := by
  obtain ⟨bs, hbs, hread⟩ := h
  refine ⟨bs, ?_, hbs⟩
  have := hread []
  simpa [read] using this

end Reads

/-! ## 4. Blocks and rules -/

/-- Some declarations inside blocks. -/
def placedAt (path : List String) (n : Nat) (ds : List SheetDeclaration) : List Placed :=
  ds.map fun d => ⟨path, valueLine n d⟩

theorem reads_declarations (headers path : List String) (n : Nat) (ds : List SheetDeclaration) :
    Reads headers path (ds.map (valueLine n)) (placedAt path n ds) :=
  Reads.terminated (isTerminated_valueLine n) ds

mutual

/-- The headers of a block and of those inside it. -/
def blockHeaders : SheetBlock → List String
  | .block header _ children => header.shown :: childHeaders children

/-- The headers of some blocks. -/
def childHeaders : List SheetBlock → List String
  | [] => []
  | b :: bs => blockHeaders b ++ childHeaders bs

end

mutual

/-- The declarations of a block, each inside its own block and those around it. -/
def blockPlaced (path : List String) (n : Nat) : SheetBlock → List Placed
  | .block header declarations children =>
    placedAt (path ++ [headLine n header.shown]) (n + 1) declarations ++
      childPlaced (path ++ [headLine n header.shown]) (n + 1) children

/-- The declarations of some blocks. -/
def childPlaced (path : List String) (n : Nat) : List SheetBlock → List Placed
  | [] => []
  | b :: bs => blockPlaced path n b ++ childPlaced path n bs

end

mutual

theorem reads_blockText {headers : List String} : ∀ {path : List String} (n : Nat)
    (b : SheetBlock), blockHeaders b ⊆ headers →
    Reads headers path (blockText n b) (blockPlaced path n b)
  | path, n, .block header declarations children, h => by
    obtain ⟨hheader, hchildren⟩ := List.cons_subset.1 h
    have hown := reads_declarations headers (path ++ [headLine n header.shown]) (n + 1)
      declarations
    exact Reads.block hheader .nil (hown.append (reads_childText (n + 1) children hchildren))

theorem reads_childText {headers : List String} : ∀ {path : List String} (n : Nat)
    (bs : List SheetBlock), childHeaders bs ⊆ headers →
    Reads headers path (childText n bs) (childPlaced path n bs)
  | _, _, [], _ => .nil
  | _, n, b :: bs, h => by
    obtain ⟨hb, hbs⟩ := List.append_subset.1 h
    exact (reads_blockText n b hb).append (reads_childText n bs hbs)

end

/-- Declarations inside headers stand one step further in for each of them. -/
theorem reads_nestedLines {headers gap : List String} (hgap : ∀ path, Reads headers path gap [])
    (ds : List SheetDeclaration) : ∀ {hs : List String} (path : List String) (n : Nat),
    hs ⊆ headers → Reads headers path (nestedLines gap n hs ds)
      (placedAt (path ++ headLines n hs) (n + hs.length) ds)
  | [], path, n, _ => by
    rw [nestedLines_nil, headLines, List.append_nil]
    exact reads_declarations headers path n ds
  | w :: hs, path, n, h => by
    obtain ⟨hw, hhs⟩ := List.cons_subset.1 h
    have ih := reads_nestedLines hgap ds (path ++ [headLine n w]) (n + 1) hhs
    have hpath : path ++ [headLine n w] ++ headLines (n + 1) hs = path ++ headLines n (w :: hs) :=
      List.append_assoc ..
    have hlevel : n + 1 + hs.length = n + (w :: hs).length := by
      rw [List.length_cons]
      omega
    rw [hpath, hlevel] at ih
    rw [nestedLines_cons]
    exact Reads.block hw (hgap path) ih

end Sheet

/-! ## 5. Where a rule stands -/

namespace SheetRule

open Sheet (Placed headLine headLines placedAt layerText scopeText)

/-- The line that opens a layer; there is none outside any layer. -/
def layerPath (layer : Json) : List String :=
  if layer = .null then [] else [headLine 0 (layerText layer)]

/-- The line that opens a scope, where there is one. -/
def scopePath (scope : Json × Json) : List String :=
  if scope = (.null, .null) then [] else [headLine 0 (scopeText scope)]

/-- The indentation of a rule: one step in a scope, and none in a layer. -/
def indentSteps (r : SheetRule) : Nat :=
  if r.scope = (.null, .null) then 0 else 1

/-- The lines that open the blocks around the declarations of a rule, outermost first: of its
layer, of its scope, and of its own headers. -/
def path (r : SheetRule) : List String :=
  layerPath r.layer ++ scopePath r.scope ++ headLines r.indentSteps r.headers

/-- The declarations of a rule inside these blocks. -/
def placed (r : SheetRule) : List Placed :=
  placedAt r.path (r.indentSteps + r.headers.length) r.declarations

end SheetRule

section Parts

open Sheet (Reads headLines placedAt layerText scopeText)
open SheetRule (layerPath scopePath)

variable {headers : List String}

theorem reads_rule {gap : List String} (hgap : ∀ path, Reads headers path gap [])
    (path : List String) (n : Nat) {r : SheetRule} (hr : r.headers ⊆ headers) :
    Reads headers path (r.lines gap n)
      (placedAt (path ++ headLines n r.headers) (n + r.headers.length) r.declarations) :=
  Sheet.reads_nestedLines hgap r.declarations path n hr

/-- The rules of one scope, in the layer that they are in. -/
theorem reads_scopePart {p : ScopePart} {layer : Json} (hheader : scopeText p.scope ∈ headers)
    (hrules : ∀ r ∈ p.rules, r.layer = layer ∧ r.scope = p.scope ∧ r.headers ⊆ headers) :
    Reads headers (layerPath layer) p.lines (p.rules.flatMap SheetRule.placed) := by
  unfold ScopePart.lines
  split
  · next hbare =>
    -- an empty line follows every end of a bare rule, none those of a rule in a scope
    refine Reads.flatMap fun r hr => ?_
    obtain ⟨rfl, hscope, hown⟩ := hrules r hr
    have := reads_rule (fun _ => .blank) (layerPath r.layer) 0 hown
    simpa [SheetRule.placed, SheetRule.path, SheetRule.indentSteps, scopePath, hscope,
      hbare] using this
  · next hscoped =>
    refine Reads.block (n := 0) hheader .blank (Reads.flatMap fun r hr => ?_)
    obtain ⟨rfl, hscope, hown⟩ := hrules r hr
    have := reads_rule (fun _ => .nil) (layerPath r.layer ++ scopePath r.scope) 1 hown
    simpa [SheetRule.placed, SheetRule.path, SheetRule.indentSteps, scopePath, hscope,
      hscoped] using this

theorem reads_layerPart {p : LayerPart}
    (hlayer : p.layer ≠ .null → layerText p.layer ∈ headers)
    (hscopes : ∀ q ∈ p.scopes, scopeText q.scope ∈ headers ∧
      ∀ r ∈ q.rules, r.layer = p.layer ∧ r.scope = q.scope ∧ r.headers ⊆ headers) :
    Reads headers [] p.lines (p.rules.flatMap SheetRule.placed) := by
  have hinner : Reads headers (layerPath p.layer) (p.scopes.flatMap (·.lines))
      (p.rules.flatMap SheetRule.placed) := by
    rw [LayerPart.rules, List.flatMap_assoc]
    exact Reads.flatMap fun q hq => reads_scopePart (hscopes q hq).1 (hscopes q hq).2
  unfold LayerPart.lines
  split
  · next hnull =>
    rwa [layerPath, if_pos hnull] at hinner
  · next hnull =>
    rw [layerPath, if_neg hnull] at hinner
    exact Reads.block (n := 0) (hlayer hnull) .blank hinner

end Parts

/-! ## 6. A sheet -/

namespace Sheet

/-- The cells that name layers and scopes are texts, or null in a rule that has none. -/
structure IsNamed (sheet : Sheet) : Prop where
  layers : ∀ layer ∈ sheet.layerOrder, layer.IsString
  scopes : ∀ r ∈ sheet.rules, r.scopeRoot.IsWord ∧ r.scopeLimit.IsWord

variable (sheet : Sheet)

/-- The headers of all blocks of a sheet. -/
def headers : List String :=
  ":root" :: (sheet.preamble ++ sheet.keyframes).flatMap blockHeaders ++
    sheet.layerOrder.map layerText ++ sheet.rules.flatMap fun r => scopeText r.scope :: r.headers

/-- The imports, the tokens and the declarations of the blocks before the rules. -/
def frontPlaced : List Placed :=
  sheet.imports.map (fun i => ⟨[], importText i⟩) ++ placedAt [":root \x7b"] 1 sheet.root ++
    sheet.preamble.flatMap (blockPlaced [] 0)

theorem mem_rules_partOf {layer : Json} {r : SheetRule} :
    r ∈ (sheet.partOf layer).rules ↔ r ∈ sheet.rulesIn layer :=
  (LayerPart.divides_ofRules layer _).perm.mem_iff

theorem mem_rulesIn {layer : Json} (hlayer : layer.IsWord) {r : SheetRule} :
    r ∈ sheet.rulesIn layer ↔ r ∈ sheet.rules ∧ r.layer = layer := by
  rw [rulesIn_eq, List.mem_filter, decide_eq_true_eq]
  exact and_congr_right fun _ => ⟨hlayer.eq_of_key_eq, fun h => h ▸ rfl⟩

variable {sheet}

/-- What a part of a sheet holds is in the layer and in the scope that it is written in. -/
theorem IsNamed.mem_partOf (h : sheet.IsNamed) {layer : Json} (hlayer : layer.IsWord)
    {q : ScopePart} (hq : q ∈ (sheet.partOf layer).scopes) :
    (∃ r ∈ sheet.rules, r.scope = q.scope) ∧
      ∀ r ∈ q.rules, r ∈ sheet.rules ∧ r.layer = layer ∧ r.scope = q.scope := by
  have hdivides := LayerPart.divides_ofRules layer (sheet.rulesIn layer)
  -- scopes are grouped by what they are found under, which for texts and null is the cell itself
  have hscope : ∀ r ∈ sheet.rules, key r.scope = key q.scope → r.scope = q.scope := by
    intro r hr hkey
    obtain ⟨hroot, hlimit⟩ := Prod.mk.inj hkey
    exact Prod.ext (((h.scopes r hr).1.eq_of_key_eq hroot.symm).symm)
      (((h.scopes r hr).2.eq_of_key_eq hlimit.symm).symm)
  constructor
  · obtain ⟨r, hr, hkey⟩ :=
      List.mem_map.1 ((hdivides.scopes.mem_iff _).1 (List.mem_map_of_mem hq))
    have hr := ((sheet.mem_rulesIn hlayer).1 hr).1
    exact ⟨r, hr, hscope r hr hkey⟩
  · intro r hr
    rw [hdivides.group q hq, List.mem_filter, decide_eq_true_eq] at hr
    obtain ⟨hmem, hlayer⟩ := (sheet.mem_rulesIn hlayer).1 hr.1
    exact ⟨hmem, hlayer, hscope r hmem hr.2⟩

theorem IsNamed.not_mem_null (h : sheet.IsNamed) : ∀ layer ∈ sheet.layerOrder, layer ≠ .null := by
  rintro layer hlayer rfl
  obtain ⟨s, hs⟩ := h.layers _ hlayer
  simp at hs

/-- The rules that are written are those outside any layer and those of a layer that has its place
in the order. -/
theorem IsNamed.mem_writtenRules (h : sheet.IsNamed) (r : SheetRule) : r ∈ sheet.writtenRules ↔
    r ∈ sheet.rules ∧ (r.layer = .null ∨ r.layer ∈ sheet.layerOrder) := by
  rw [writtenRules, List.flatMap_cons, List.mem_append, mem_rules_partOf,
    mem_rulesIn _ Json.isWord_null, List.mem_flatMap]
  constructor
  · rintro (⟨hr, hnull⟩ | ⟨p, hp, hr⟩)
    · exact ⟨hr, .inl hnull⟩
    · obtain ⟨layer, hlayer, -, rfl⟩ := sheet.mem_layerParts.1 hp
      rw [mem_rules_partOf, mem_rulesIn _ (h.layers layer hlayer).isWord] at hr
      exact ⟨hr.1, .inr (hr.2 ▸ hlayer)⟩
  · rintro ⟨hr, hnull | hlayer⟩
    · exact .inl ⟨hr, hnull⟩
    · have hmem := (sheet.mem_rulesIn (h.layers _ hlayer).isWord).2 ⟨hr, rfl⟩
      exact .inr ⟨_, sheet.mem_layerParts.2 ⟨_, hlayer, List.ne_nil_of_mem hmem, rfl⟩,
        sheet.mem_rules_partOf.2 hmem⟩

theorem IsNamed.reads_partOf (h : sheet.IsNamed) {layer : Json}
    (hlayer : layer = .null ∨ layer ∈ sheet.layerOrder) :
    Reads sheet.headers [] (sheet.partOf layer).lines
      ((sheet.partOf layer).rules.flatMap SheetRule.placed) := by
  have hword : layer.IsWord := hlayer.elim (fun h => h ▸ Json.isWord_null)
    fun hmem => (h.layers layer hmem).isWord
  have hrule : ∀ r ∈ sheet.rules, ∀ header ∈ scopeText r.scope :: r.headers,
      header ∈ sheet.headers := fun r hr header hheader =>
    List.mem_append_right _ (List.mem_flatMap.2 ⟨r, hr, hheader⟩)
  refine reads_layerPart (fun hnull => ?layer) fun q hq => ?scope
  case layer =>
    have hmem := hlayer.resolve_left hnull
    exact List.mem_append_left _ (List.mem_append_right _ (List.mem_map.2 ⟨layer, hmem, rfl⟩))
  case scope =>
    obtain ⟨⟨r, hr, hscope⟩, hrules⟩ := h.mem_partOf hword hq
    refine ⟨hscope ▸ hrule r hr _ List.mem_cons_self, fun r hr => ?_⟩
    obtain ⟨hmem, hlayer, hscope⟩ := hrules r hr
    exact ⟨hlayer, hscope, fun header hheader =>
      hrule r hmem header (List.mem_cons_of_mem _ hheader)⟩

theorem reads_blocks {headers : List String} {bs : List SheetBlock}
    (h : bs.flatMap blockHeaders ⊆ headers) :
    Reads headers [] (bs.flatMap fun b => blockText 0 b ++ [""])
      (bs.flatMap (blockPlaced [] 0)) := by
  refine Reads.flatMap fun b hb => ?_
  have hown : blockHeaders b ⊆ headers := fun header hheader =>
    h (List.mem_flatMap.2 ⟨b, hb, hheader⟩)
  exact (reads_blockText 0 b hown).append_blank

theorem reads_front : Reads sheet.headers [] sheet.front sheet.frontPlaced := by
  have himports : Reads sheet.headers []
      (if sheet.imports = [] then [] else sheet.imports.map importText ++ [""])
      (sheet.imports.map fun i => ⟨[], importText i⟩) := by
    split
    · next hnone =>
      rw [hnone]
      exact .nil
    · exact (Reads.terminated isTerminated_importText _).append_blank
  have hroot : Reads sheet.headers []
      (if sheet.root = [] then [] else nestedLines [""] 0 [":root"] sheet.root)
      (placedAt [":root \x7b"] 1 sheet.root) := by
    split
    · next hnone =>
      rw [hnone]
      exact .nil
    · have hheader : [":root"] ⊆ sheet.headers := List.cons_subset.2 ⟨List.mem_cons_self, by simp⟩
      simpa [headLines, headLine, indentation] using
        reads_nestedLines (fun _ => .blank) sheet.root [] 0 hheader
  have hpreamble : sheet.preamble.flatMap blockHeaders ⊆ sheet.headers := by
    intro header hheader
    simp [headers, List.flatMap_append, hheader]
  exact (himports.append hroot).append (reads_blocks hpreamble)

/-- The lines of a sheet, leaving the raw blocks aside: every block has a header of the sheet, and
every declaration of a rule stands inside the headers of this rule. -/
theorem IsNamed.reads_lines (h : sheet.IsNamed) :
    Reads sheet.headers [] ({ sheet with raw := [] } : Sheet).lines
      (sheet.frontPlaced ++ sheet.writtenRules.flatMap SheetRule.placed ++
        sheet.keyframes.flatMap (blockPlaced [] 0)) := by
  have hlines : ({ sheet with raw := [] } : Sheet).lines = sheet.front ++
      (sheet.partOf .null :: sheet.layerParts).flatMap (·.lines) ++
        sheet.keyframes.flatMap fun b => blockText 0 b ++ [""] := by
    have hnull : ∀ layer ∈ ({ sheet with raw := [] } : Sheet).layerOrder, layer ≠ .null :=
      h.not_mem_null
    rw [lines_eq _ hnull, back, List.flatMap_nil, List.append_nil]
    rfl
  have hrules : Reads sheet.headers []
      ((sheet.partOf .null :: sheet.layerParts).flatMap (·.lines))
      (sheet.writtenRules.flatMap SheetRule.placed) := by
    rw [writtenRules, List.flatMap_assoc]
    refine Reads.flatMap fun p hp => ?_
    rcases List.mem_cons.1 hp with rfl | hp
    · exact h.reads_partOf (.inl rfl)
    · obtain ⟨layer, hlayer, -, rfl⟩ := sheet.mem_layerParts.1 hp
      exact h.reads_partOf (.inr hlayer)
  have hkeyframes : sheet.keyframes.flatMap blockHeaders ⊆ sheet.headers := by
    intro header hheader
    simp [headers, List.flatMap_append, hheader]
  rw [hlines]
  exact (reads_front.append hrules).append (reads_blocks hkeyframes)

end Sheet

end StyleLedger
