import StyleLedger.Cascade.Apply
import StyleLedger.Failure
import StyleLedger.Sheet.Plan
import StyleLedger.Sheet.Render
import StyleLedger.Source.Parse
import StyleLedger.Store.Codec

/-!
From statements, or from a store, to the text of a style sheet.
-/

namespace StyleLedger

/-- The text of a cascade's style sheet. -/
def Cascade.compile (s : Cascade) (config : CompilerConfig) : Except ShapeError String := do
  (← Sheet.plan s config).write

/-- The style sheet of a source text. -/
def compileSource (source : String) (config : CompilerConfig) (originFile : Option String) :
    Except Failure String := do
  let statements ← (Source.parse source false).mapError .parse
  let state ← (Cascade.build { originFile } {} statements).mapError .composition
  (state.compile config).mapError .shape

/-- The style sheet of a store. -/
def Store.compile (store : Store) (config : CompilerConfig) : Except ShapeError String := do
  (← store.load.toCascade).compile config

end StyleLedger
