import SyntaxCheck.Position
import SyntaxCheck.Token.Kind

/-!
# Tokens

A token is a kind, the text it was read from and the position where it starts. Its `display`
is how diagnostics, traces and trees show it: the end of file by name, a string constant in
double quotes after its kind, an identifier or number in single quotes after its kind, and any
other token by its spelling in single quotes.
-/

namespace SyntaxCheck

/-- A token of the statement language. -/
structure Token where
  kind : TokenKind
  value : String
  pos : Position
  deriving DecidableEq, Repr, Inhabited

namespace Token

/-- The end-of-file token at a position. -/
def endAt (p : Position) : Token := ⟨.endOfFile, "", p⟩

/-- The line a token starts on. -/
def line (t : Token) : Nat := t.pos.line

/-- How a token is shown to the reader. -/
def display (t : Token) : String :=
  match t.kind with
  | .endOfFile => "end of file"
  | .string => "stringConstant \"" ++ t.value ++ "\""
  | k => if k.hasValue then k.name ++ " '" ++ t.value ++ "'" else "'" ++ t.value ++ "'"

end Token

end SyntaxCheck
