import SyntaxCheck.Report.Trace
import SyntaxCheck.Report.Builder
import SyntaxCheck.Diagnostic.Basic

/-!
# Signals to a listener

A listener of a recognition is told, one call at a time, that a rule was entered, that a token was
accepted, that a rule was left, or that a syntax error was found at a token. The first three are
the events of the recognition; an error comes with its token and its message, and every listener
answers it with the syntax error at that token. A trace records the events and keeps the message
of the last error; a builder steps on the events and ignores the errors.
-/

namespace SyntaxCheck

/-- One call to a listener: an event, or a syntax error at a token, with its message. -/
inductive Signal where
  | event (e : Event)
  | error (t : Token) (message : String)
  deriving DecidableEq, Repr

namespace Signal

/-- The events among the signals, in order. -/
def events : List Signal → List Event
  | [] => []
  | .event e :: ss => e :: events ss
  | .error _ _ :: ss => events ss

/-- What a listener answers a signal with: the syntax error at the token of an error, and nothing
for an event. -/
def reply : Signal → Option Diagnostic
  | .event _ => none
  | .error t m => some (.unexpected t m)

end Signal

namespace Trace

/-- Take one signal: record its event, or keep the message of its error. -/
def receive (tr : Trace) : Signal → Trace
  | .event e => tr.record e
  | .error _ m => tr.report m

/-- Take signals, in order. -/
def receiveAll (tr : Trace) (ss : List Signal) : Trace := ss.foldl receive tr

end Trace

namespace Builder

/-- Take one signal: step on its event; an error leaves the builder as it is. -/
def receive (b : Builder) : Signal → Builder
  | .event e => b.step e
  | .error _ _ => b

/-- Take signals, in order. -/
def receiveAll (b : Builder) (ss : List Signal) : Builder := ss.foldl receive b

end Builder

end SyntaxCheck
