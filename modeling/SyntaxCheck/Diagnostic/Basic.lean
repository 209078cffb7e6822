import SyntaxCheck.Token.Basic
import SyntaxCheck.Text.Quoted

/-!
# Diagnostics

A diagnostic says why checking stopped: a syntax error with its message, a character sequence
that starts no token, a string constant left open at the end of its line, or a source that could
not be read. It carries the position it refers to and, for syntax errors, the token that was
found instead of what the grammar expected.

Each diagnostic has a `name`, a `tip` for the reader and a one-line `message`. The message of a
syntax error is its text alone, because that text already names the file and line; every other
message starts with the position.
-/

namespace SyntaxCheck

/-- The cause of a diagnostic. -/
inductive Fault where
  | unexpected (message : String)
  | unrecognised (text : String)
  | unterminatedString
  | unreadable (reason : String)
  deriving DecidableEq, Repr, Inhabited

namespace Fault

/-- The name under which a fault is reported. -/
def name : Fault → String
  | unexpected _ => "SyntaxError"
  | unrecognised _ => "UnrecognisedToken"
  | unterminatedString => "UnterminatedString"
  | unreadable _ => "IoError"

/-- What the fault says, without a position. -/
def describe : Fault → String
  | unexpected m => m
  | unrecognised t => "unrecognised token: " ++ Text.quote t
  | unterminatedString => "unterminated string constant"
  | unreadable r => "could not read source: " ++ r

/-- Advice for the reader. -/
def tip : Fault → String
  | unexpected m => m
  | unrecognised t => "Unrecognised character sequence `" ++ t ++ "`"
  | unterminatedString => "String constants must be closed on the line they start"
  | unreadable r => r

end Fault

/-- A fault at a position, with the offending token when there is one. -/
structure Diagnostic where
  fault : Fault
  pos : Position
  token : Option Token := none
  deriving DecidableEq, Repr, Inhabited

namespace Diagnostic

/-- A syntax error found at token `t`. -/
def unexpected (t : Token) (message : String) : Diagnostic :=
  ⟨.unexpected message, t.pos, some t⟩

/-- A source that could not be read. -/
def unreadable (reason : String) (pos : Position) : Diagnostic :=
  ⟨.unreadable reason, pos, none⟩

/-- The name of the fault. -/
def name (d : Diagnostic) : String := d.fault.name

/-- Advice for the reader. -/
def tip (d : Diagnostic) : String := d.fault.tip

/-- Whether the diagnostic is a syntax error. -/
def isUnexpected (d : Diagnostic) : Bool :=
  match d.fault with
  | .unexpected _ => true
  | _ => false

/-- The one-line message: a syntax error by its text, anything else after its position. -/
def message (d : Diagnostic) : String :=
  match d.fault with
  | .unexpected m => m
  | f => d.pos.render ++ ": " ++ f.describe

end Diagnostic

end SyntaxCheck
