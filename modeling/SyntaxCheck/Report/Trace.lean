import SyntaxCheck.Grammar.Event

/-!
# Traces

A trace keeps every event of a recognition in order, and the message of the syntax error that
ended it, if one did. Its rendering writes one line per event: `begin Rule` on entry, `end Rule`
on exit and the token display for an accepted token, each indented by two spaces per rule open
at that point. An exit with no rule open stays at the left margin.
-/

namespace SyntaxCheck

/-- The events received so far, and the last syntax error reported. -/
structure Trace where
  events : List Event := []
  error : Option String := none
  deriving DecidableEq, Repr

namespace Trace

/-- Record one more event. -/
def record (tr : Trace) (e : Event) : Trace := { tr with events := tr.events ++ [e] }

/-- Record a syntax error. It adds no event. -/
def report (tr : Trace) (message : String) : Trace := { tr with error := some message }

/-- `n` levels of indentation. -/
def indent (n : Nat) : String := String.ofList (List.replicate (2 * n) ' ')

/-- Append the lines of a list of events to `out`, the first one at nesting depth `depth`. -/
def renderInto (depth : Nat) (out : String) : List Event → String
  | [] => out
  | .enter r :: es =>
    renderInto (depth + 1) (out ++ indent depth ++ "begin " ++ r.name ++ "\n") es
  | .exit r :: es =>
    renderInto (depth - 1) (out ++ indent (depth - 1) ++ "end " ++ r.name ++ "\n") es
  | .terminal t :: es =>
    renderInto depth (out ++ indent depth ++ t.display ++ "\n") es

/-- One line per event. -/
def render (tr : Trace) : String := renderInto 0 "" tr.events

/-- The accepted tokens, in order. -/
def terminals (tr : Trace) : List Token :=
  tr.events.filterMap fun
    | .terminal t => some t
    | _ => none

/-- How many times rule `r` was entered. -/
def entered (tr : Trace) (r : Rule) : Nat := tr.events.count (.enter r)

/-- How many times rule `r` was left. -/
def exited (tr : Trace) (r : Rule) : Nat := tr.events.count (.exit r)

end Trace

end SyntaxCheck
