import StyleLedger.Bucket
import StyleLedger.Finding
import StyleLedger.Statement
import StyleLedger.Value

/-!
The history of style writes: writes that never reach the style sheet.

Files are followed statement by statement. A write that replaces hides the one it replaces; a write
that adds gives way to what is there. Deleting and dropping forget a selector's properties under the
layer in force, in every scope and wrapper.
-/

namespace StyleLedger

/-- One property written by a style statement. -/
structure StyleWrite where
  file : String
  key : BucketKey
  property : String
  additive : Bool := false
deriving Repr, DecidableEq, Inhabited

/-- The layer, wrapper and scope of a write in words. -/
def StyleWrite.context (w : StyleWrite) : String :=
  let layer := if w.key.layer.isTrue then ["@layer " ++ w.key.layer.shown] else []
  let wrapper := (w.key.descriptor.map fun d => Descriptor.summary (some d)).toList
  let limit := if w.key.scopeLimit.isTrue then " LIMIT " ++ w.key.scopeLimit.shown else ""
  let scope :=
    if w.key.scopeRoot.isTrue then ["SCOPED TO " ++ w.key.scopeRoot.shown ++ limit] else []
  " ".intercalate (layer ++ wrapper ++ scope)

/-- The writes that are in force, by what they write, and the findings so far. -/
structure History where
  live : Table (BucketKey × String) StyleWrite := {}
  findings : List Finding := []
deriving Repr, DecidableEq, Inhabited

namespace History

/-- A finding about a write. -/
def finding (kind : String) (w : StyleWrite) (fix : String) : Finding :=
  let context := w.context
  { rule := "check_overridden_writes", severity := .warning
    message := kind ++ ": " ++ w.key.selector.shown ++ " -> " ++ w.property ++ " in " ++ w.file ++
      (if context.isEmpty then "" else " (" ++ context ++ ")")
    table := some "migrations", fix := some fix }

/-- Follows one write. -/
def write (h : History) (w : StyleWrite) : History :=
  match h.live.get? (w.key, w.property) with
  | none => { h with live := h.live.put (w.key, w.property) w }
  | some previous =>
    if w.additive then
      { h with
        findings := h.findings ++
          [finding "Ignored ADD" w "Use SET to replace an existing value"] }
    else
      { live := h.live.put (w.key, w.property) w
        findings := h.findings ++
          [finding "Overridden write" previous ("Later written again in " ++ w.file)] }

/-- Forgets a property of a selector under a layer, or all of them. -/
def forget (h : History) (selector : String) (layer : Option String) (property : Option String) :
    History :=
  { h with
    live := h.live.filter fun _ w =>
      !(w.key.isFor (.text selector) (.textOrNull layer) && property.all (· = w.property)) }

/-- The writes of a style statement under a layer. -/
def writesOf (file : String) (layer : Option String) (target : StyleTarget) (additive : Bool)
    (ds : List Declaration) : Except CompositionError (List StyleWrite) := do
  let descriptors ← Descriptor.ofCondition target.condition
  return descriptors.flatMap fun descriptor => ds.map fun d =>
    { file
      key := { selector := .text target.selector, layer := .textOrNull layer
               scopeRoot := .textOrNull target.scopeRoot
               scopeLimit := .textOrNull target.scopeLimit, descriptor }
      property := Value.cssName d.name
      additive }

/-- Follows one statement under a layer; gives the layer after it. -/
def step (file : String) (layer : Option String) (h : History) :
    Statement → Except CompositionError (Option String × History)
  | .setLayer name => .ok (some name, h)
  | .createStyle target ds => do
    return (layer, (← writesOf file layer target false ds).foldl write h)
  | .alterStyle target mode ds => do
    return (layer, (← writesOf file layer target (mode = .add) ds).foldl write h)
  | .deleteStyle selector property =>
    .ok (layer, h.forget selector layer (property.map Value.cssName))
  | .dropStyle selector => .ok (layer, h.forget selector layer none)
  | _ => .ok (layer, h)

/-- Follows statements under a layer until one is refused. -/
def follow (file : String) (layer : Option String) (h : History) :
    List Statement → History × Option CompositionError
  | [] => (h, none)
  | s :: rest =>
    match step file layer h s with
    | .ok (layer, h) => follow file layer h rest
    | .error e => (h, some e)

/-- Follows the statements of a file, which start outside any layer. -/
def feed (h : History) (file : String) (statements : List Statement) :
    History × Option CompositionError :=
  follow file none h statements

end History

end StyleLedger
