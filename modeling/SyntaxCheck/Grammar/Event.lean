import SyntaxCheck.Token.Basic
import SyntaxCheck.Grammar.Rule

/-!
# Recognition events

Recognising a program is reported as a sequence of events: a rule is entered, a token is
accepted, a rule is left. The events of a successful recognition are the preorder walk of its
derivation tree, each rule bracketed by its entry and its exit; a recognition that stops early
reports the events up to the point where it stopped, with no exits for the rules still open.
-/

namespace SyntaxCheck

/-- One step of a recognition. -/
inductive Event where
  | enter (r : Rule)
  | exit (r : Rule)
  | terminal (t : Token)
  deriving DecidableEq, Repr

end SyntaxCheck
