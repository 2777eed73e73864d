import StyleLedger.Cascade.Apply
import StyleLedger.Failure

/-!
Applying statements at the time that a clock shows.

The time is written down with tokens and selectors. A clock that is at fault does no harm until a
statement needs it: `Cascade.buildAt` then fails, unless an earlier statement, or the condition of
the same one, is refused first.
-/

namespace StyleLedger.Cascade

/-- Whether a statement writes the time down. Nothing is written by the deletion of what is not
live, and a selector that is known is not written again when it is only mentioned. -/
def recordsTime (s : Cascade) : Statement → Bool
  | .createToken .. | .createSelector .. => true
  | .dropToken name | .deleteToken name => s.hasToken (.text name)
  | .dropSelector name => s.hasSelector (.text name)
  | .createStyle target _ | .alterStyle target _ _ =>
    (selectorsOf target).any fun name => !s.selectors.contains (.text name)
  | .createStartingStyle selector _ => !s.selectors.contains (.text selector)
  | _ => false

/-- The state after all of some statements when the clock is at fault. -/
def buildTimeless (fault : ClockFault) (ctx : Context) (s : Cascade) :
    List Statement → Except Failure Cascade
  | [] => .ok s
  | stmt :: rest => do
    let (next, after) ← (step ctx s stmt).mapError .composition
    if s.recordsTime stmt then throw (.clock fault)
    buildTimeless fault next after rest

/-- The state after all of some statements. -/
def buildAt (clock : Except ClockFault String) (ctx : Context) (s : Cascade)
    (statements : List Statement) : Except Failure Cascade :=
  match clock with
  | .ok now => (build { ctx with now } s statements).mapError .composition
  | .error fault => buildTimeless fault ctx s statements

end StyleLedger.Cascade
