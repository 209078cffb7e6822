import SyntaxCheck.Grammar.Recognize
import SyntaxCheck.Report.Trace
import SyntaxCheck.Report.Builder

/-!
# What a recognition reports

A recognition reports the same events to every listener, so each report is a function of its
event list: the trace keeps them with the message of the syntax error, if the recognition ended
in one, and the builder folds them into a derivation tree.
-/

namespace SyntaxCheck

namespace Trace

/-- For each rule that was entered or left, in rule order: how often it was entered and how
often it was left. -/
def counts (tr : Trace) : List (Rule × Nat × Nat) :=
  Rule.all.filterMap fun r =>
    if tr.entered r + tr.exited r = 0 then none else some (r, tr.entered r, tr.exited r)

end Trace

namespace Tree

/-- For each rule with at least one node in the tree, in rule order: how many it has. -/
def counts (t : Tree) : List (Rule × Nat) :=
  Rule.all.filterMap fun r => if t.count r = 0 then none else some (r, t.count r)

end Tree

namespace Recognition

/-- The halt that ended the recognition, if it did not get to its end. -/
def halt? (r : Recognition) : Option Halt :=
  match r.outcome with
  | .ok _ => none
  | .error h => some h

/-- The diagnostic of the recognition, if it stopped early. -/
def diagnostic? (r : Recognition) : Option Diagnostic := r.halt?.map Halt.diagnostic

/-- The trace of the recognition. -/
def trace (r : Recognition) : Trace := ⟨r.events, r.halt?.bind Halt.reported⟩

/-- The builder after all events of the recognition. -/
def builder (r : Recognition) : Builder := Builder.feed {} r.events

end Recognition

end SyntaxCheck
