import StyleLedger.Sheet.Render

/-!
The lines of a style sheet, written out.

The text of a line is fixed here by what stands in it: two blanks for every step of indentation, the
header of a block and a brace, a name and a value. Declarations inside some headers are the lines
that open these blocks, outermost first, the declarations themselves, and as many closing braces,
innermost first (`Sheet.nestedLines`).

The renderer reaches its lines in another way: it hands an indentation down and wraps what it is
given. That it comes to the lines of this module is proved for each kind of lines, so what is said
of the text of a sheet elsewhere can be said of these.

* `Sheet.headLine`, `Sheet.endLine`, `Sheet.valueLine` — the first and the last line of a block, and
  a declaration.
* `Sheet.nestedLines`, `Sheet.blockText` — declarations inside headers, and blocks inside blocks.
* `SheetRule.lines` — the lines of a rule.
-/

namespace StyleLedger

namespace Sheet

/-! ## 1. Single lines -/

/-- Two blanks for every step. -/
def indentation : Nat → String
  | 0 => ""
  | n + 1 => indentation n ++ "  "

/-- The line with which a block begins. -/
def headLine (n : Nat) (header : String) : String :=
  indentation n ++ header ++ " \x7b"

/-- The line with which a block ends. -/
def endLine (n : Nat) : String :=
  indentation n ++ "\x7d"

/-- A line with a declaration. -/
def valueLine (n : Nat) (d : SheetDeclaration) : String :=
  indentation n ++ d.name ++ ": " ++ d.value.shown ++ ";"

/-- A line with an import. -/
def importText (i : SheetImport) : String :=
  "@import url('" ++ i.path.shown ++ "')" ++
    (if i.media.isTrue then " " ++ i.media.shown else "") ++ ";"

/-- The header of a layer. -/
def layerText (layer : Json) : String :=
  "@layer " ++ layer.shown

/-- The header of a scope: its root in brackets, and its limit if it has one. -/
def scopeText (scope : Json × Json) : String :=
  "@scope (" ++ (if scope.1.isTrue then scope.1.shown else "") ++ ")" ++
    (if scope.2.isTrue then " to (" ++ scope.2.shown ++ ")" else "")

theorem indentation_one : indentation 1 = indentStep := by
  decide

theorem scopeHeader_eq (root limit : Json) : scopeHeader root limit = scopeText (root, limit) := by
  unfold scopeHeader scopeText Json.orElse
  cases root.isTrue <;> rfl

/-! ## 2. Declarations inside headers -/

/-- The lines that open blocks one inside the other, outermost first. -/
def headLines (n : Nat) : List String → List String
  | [] => []
  | h :: hs => headLine n h :: headLines (n + 1) hs

/-- The lines that close as many blocks, innermost first; `gap` follows each of them. -/
def endLines (gap : List String) (n : Nat) : Nat → List String
  | 0 => []
  | k + 1 => endLines gap (n + 1) k ++ endLine n :: gap

/-- Declarations inside blocks with some headers, outermost first. -/
def nestedLines (gap : List String) (n : Nat) (headers : List String)
    (ds : List SheetDeclaration) : List String :=
  headLines n headers ++ ds.map (valueLine (n + headers.length)) ++
    endLines gap n headers.length

theorem nestedLines_nil (gap : List String) (n : Nat) (ds : List SheetDeclaration) :
    nestedLines gap n [] ds = ds.map (valueLine n) := by
  simp [nestedLines, headLines, endLines]

/-- The first header is around everything else, which stands one step further in. -/
theorem nestedLines_cons (gap : List String) (n : Nat) (h : String) (hs : List String)
    (ds : List SheetDeclaration) : nestedLines gap n (h :: hs) ds =
      headLine n h :: (nestedLines gap (n + 1) hs ds ++ endLine n :: gap) := by
  have hlevel : n + (h :: hs).length = n + 1 + hs.length := by
    rw [List.length_cons]
    omega
  rw [nestedLines, nestedLines, hlevel]
  simp [headLines, endLines]

theorem wrapLines_eq (gap : List String) (ds : List SheetDeclaration) (n : Nat)
    (ws : List String) : wrapLines gap (fun i => ds.map (declarationLine i)) (indentation n) ws =
      nestedLines gap n ws ds := by
  induction ws generalizing n with
  | nil =>
    rw [nestedLines_nil]
    rfl
  | cons w ws ih =>
    rw [nestedLines_cons, ← ih (n + 1)]
    rfl

/-! ## 3. Blocks inside blocks -/

mutual

/-- The lines of a block: its declarations, and then the blocks inside it. -/
def blockText (n : Nat) : SheetBlock → List String
  | .block header ds children =>
    headLine n header.shown ::
      (ds.map (valueLine (n + 1)) ++ childText (n + 1) children ++ [endLine n])

/-- The lines of some blocks. -/
def childText (n : Nat) : List SheetBlock → List String
  | [] => []
  | b :: bs => blockText n b ++ childText n bs

end

mutual

theorem blockLines_eq : ∀ (n : Nat) (b : SheetBlock), blockLines (indentation n) b = blockText n b
  | n, .block header ds children => by
    rw [blockText, ← childLines_eq (n + 1) children]
    rfl

theorem childLines_eq : ∀ (n : Nat) (bs : List SheetBlock),
    childLines (indentation n) bs = childText n bs
  | _, [] => rfl
  | n, b :: bs => by
    rw [childLines, childText, blockLines_eq n b, childLines_eq n bs]

end

end Sheet

/-! ## 4. Wrappers -/

namespace Descriptor

/-- A condition in one pair of brackets; it may have brought its own. -/
def bracketed (condition : String) : String :=
  if condition.toList.head? = some '(' ∧ condition.toList.getLast? = some ')' then condition
  else "(" ++ condition ++ ")"

/-- The tests on a size that the bounds of a descriptor stand for. -/
def sizeTexts (d : Descriptor) (size : String) : List String :=
  (if d.min.isTrue then ["(min-" ++ size ++ ": " ++ d.min.shown ++ ")"] else []) ++
    (if d.max.isTrue then ["(max-" ++ size ++ ": " ++ d.max.shown ++ ")"] else [])

/-- The wrapper that the kind of a descriptor asks for, as a text. -/
def kindTexts (d : Descriptor) : List String :=
  match d.kind with
  | .media =>
    let tests := d.sizeTexts "width" ++ d.features
    if tests = [] then [] else ["@media " ++ " and ".intercalate tests]
  | .container =>
    let tests := d.sizeTexts (if d.axis = .text "inline" then "inline-size" else "width")
    ["@container " ++ d.name.shown ++ (if tests = [] then "" else " " ++ " and ".intercalate tests)]
  | .containerStyle =>
    ["@container " ++ d.name.shown ++ " style" ++
      bracketed (if d.condition.isTrue then d.condition.shown else "")]
  | .supports => ["@supports " ++ d.condition.shown]
  | .other _ => []

/-- The wrappers of a rule as texts, outermost first: a feature query beside the wrapper of another
kind is around this one. -/
def wrapperTexts : Option Descriptor → List String
  | none => []
  | some d =>
    (if d.supports.isTrue then ["@supports " ++ d.supports.shown] else []) ++ d.kindTexts

theorem sizeTests_eq (d : Descriptor) {size : String} (h : size = "width" ∨ size = "inline-size") :
    d.sizeTests size = d.sizeTexts size := by
  have hmin : "(" ++ "min" ++ "-" ++ size ++ ": " = "(min-" ++ size ++ ": " := by
    rcases h with rfl | rfl <;> decide
  have hmax : "(" ++ "max" ++ "-" ++ size ++ ": " = "(max-" ++ size ++ ": " := by
    rcases h with rfl | rfl <;> decide
  simp only [sizeTests, sizeTexts, hmin, hmax]

theorem unbracketed_eq (condition : String) :
    "(" ++ unbracketed condition ++ ")" = bracketed condition := by
  rw [← String.toList_inj]
  unfold unbracketed bracketed
  rcases hcs : condition.toList with - | ⟨c, inner⟩
  · simp [hcs]
  by_cases hc : c = '('
  · subst hc
    by_cases hlast : inner.getLast? = some ')'
    · obtain ⟨text, rfl⟩ := List.getLast?_eq_some_iff.1 hlast
      have hwhole : ('(' :: (text ++ [')'])).getLast? = some ')' :=
        List.getLast?_eq_some_iff.2 ⟨'(' :: text, rfl⟩
      simp [hwhole, hcs]
    · have hwhole : ('(' :: inner).getLast? ≠ some ')' := by
        cases inner with
        | nil => decide
        | cons d ds => rwa [List.getLast?_cons_cons]
      simp [hwhole, hlast, hcs]
  · simp [hc, hcs]

theorem wrappersOf_eq (d : Option Descriptor) : wrappersOf d = wrapperTexts d := by
  cases d with
  | none => rfl
  | some d =>
    refine congrArg ((if d.supports.isTrue then ["@supports " ++ d.supports.shown] else []) ++ ·) ?_
    unfold ownWrapper kindTexts
    cases d.kind with
    | media =>
      simp only [sizeTests_eq d (.inl rfl)]
      cases d.sizeTexts "width" ++ d.features <;> rfl
    | container =>
      have hsize : (if d.axis = .text "inline" then "inline-size" else "width") = "width" ∨
          (if d.axis = .text "inline" then "inline-size" else "width") = "inline-size" := by
        split <;> simp
      simp only [sizeTests_eq d hsize, List.isEmpty_iff, Option.toList_some]
    | containerStyle =>
      have hstyle : ∀ head text, head ++ " style(" ++ text ++ ")" =
          head ++ " style" ++ ("(" ++ text ++ ")") := fun head text => by
        simp [← String.toList_inj]
      have hcondition : (d.condition.orElse (.text "")).shown =
          if d.condition.isTrue then d.condition.shown else "" := by
        unfold Json.orElse
        split <;> rfl
      simp only [Option.toList_some, hstyle, unbracketed_eq, hcondition]
    | supports | other cell => rfl

end Descriptor

/-! ## 5. Rules -/

namespace SheetRule

open Sheet (nestedLines indentation ruleLines wrapLines declarationLine)

/-- What the scope of a rule stands for. -/
def scope (r : SheetRule) : Json × Json :=
  (r.scopeRoot, r.scopeLimit)

/-- The headers that a rule has itself, outermost first: its wrappers, and its selector. -/
def headers (r : SheetRule) : List String :=
  Descriptor.wrapperTexts r.descriptor ++ [r.selector.shown]

/-- The lines of a rule: its declarations inside its headers. -/
def lines (gap : List String) (n : Nat) (r : SheetRule) : List String :=
  nestedLines gap n r.headers r.declarations

/-- The selector of a rule is written like a wrapper of its declarations. -/
theorem ruleLines_eq_wrapLines (gap : List String) (indent : String) (r : SheetRule) :
    ruleLines gap indent r =
      wrapLines gap (fun i => r.declarations.map (declarationLine i)) indent r.headers := by
  rw [ruleLines, headers, Descriptor.wrappersOf_eq]
  generalize Descriptor.wrapperTexts r.descriptor = ws
  induction ws generalizing indent with
  | nil => rfl
  | cons w ws ih => rw [wrapLines, ih, List.cons_append, wrapLines]

theorem ruleLines_eq (gap : List String) (n : Nat) (r : SheetRule) :
    ruleLines gap (indentation n) r = r.lines gap n := by
  rw [ruleLines_eq_wrapLines, Sheet.wrapLines_eq, lines]

end SheetRule

end StyleLedger
