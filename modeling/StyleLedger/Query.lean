import StyleLedger.Sheet.Plan

/-!
Questions to a cascade: the rules of a selector, what they come to, and the text of a selector.
-/

namespace StyleLedger

namespace Cascade

/-- What a known selector stands for. -/
def resolved (s : Cascade) (name : Json) : Except ShapeError Json := do
  Sheet.checkSelector s name
  return s.selectorCell name

/-- What a question is about: what a known selector stands for, anything else as it is. -/
def targetOf (s : Cascade) (name : String) : Except ShapeError Json :=
  if s.selectors.contains (.text name) then s.resolved (.text name) else .ok (.text name)

/-- What a question is about and the rules of it, in the order of the style sheet. -/
def rulesFor (s : Cascade) (config : CompilerConfig) (name : String) :
    Except ShapeError (Json × List SheetRule) := do
  let target ← s.targetOf name
  let sheet ← Sheet.plan s config
  return (target, sheet.rules.filter (·.selector.alike target))

/-- Rules narrowed to the wrappers a condition addresses. -/
def narrow (rules : List SheetRule) :
    Option Condition → Except CompositionError (List SheetRule)
  | none => .ok rules
  | some c => do
    let wanted ← Descriptor.ofCondition (some c)
    return rules.filter fun r => wanted.contains r.descriptor

/-- The text of a selector, if it is known. -/
def describe? (s : Cascade) (name : String) : Except ShapeError (Option Json) :=
  if s.selectors.contains (.text name) then some <$> s.resolved (.text name) else .ok none

end Cascade

/-- The last value of every property in some rules, sorted by name. -/
def finalProperties (rules : List SheetRule) : List (String × Json) :=
  let merged := Table.ofList (rules.flatMap fun r => r.declarations.map fun d => (d.name, d.value))
  merged.entries.mergeSort fun a b => a.1 ≤ b.1

end StyleLedger
