/-!
# Positions

A position names the input a token came from and the line it starts on. Lines count from 1;
line 0 marks a position that no line of text stands behind (the end of an empty token list, or
an input that could not be read at all).
-/

namespace SyntaxCheck

/-- A line of a named input. -/
structure Position where
  line : Nat
  file : String
  deriving DecidableEq, Repr, Inhabited

namespace Position

/-- The position of an end of input that follows no token at all. -/
def null : Position := ⟨0, "<null>"⟩

/-- Positions are written `file:line`. -/
def render (p : Position) : String := p.file ++ ":" ++ toString p.line

end Position

end SyntaxCheck
