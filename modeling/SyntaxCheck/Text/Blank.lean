/-!
# Blank characters

The blank characters are the 25 code points with the White_Space property of Unicode: the ASCII
controls from tab to carriage return, the space, the next-line control, the no-break space,
the ogham space mark, the typographic spaces from en quad to hair space, the line and
paragraph separators, the narrow no-break space, the medium mathematical space and the
ideographic space. The lexer skips runs of them, and excerpts drop them at the end of a line.

The file separators (U+001C to U+001F) and the zero-width no-break space (U+FEFF) are not blank.
-/

namespace SyntaxCheck.Text

/-- Whether `c` has the White_Space property. -/
def isBlank (c : Char) : Bool :=
  let n := c.toNat
  (0x09 ≤ n && n ≤ 0x0D) || n == 0x20 || n == 0x85 || n == 0xA0 || n == 0x1680 ||
    (0x2000 ≤ n && n ≤ 0x200A) || n == 0x2028 || n == 0x2029 || n == 0x202F ||
    n == 0x205F || n == 0x3000

/-- Every character that `Char.isWhitespace` accepts is blank. -/
theorem isBlank_of_isWhitespace {c : Char} (h : c.isWhitespace = true) : isBlank c = true := by
  simp only [Char.isWhitespace, Bool.or_eq_true, decide_eq_true_eq] at h
  rcases h with ((h | h) | h) | h <;> subst h <;> decide

example : isBlank '\n' = true ∧ isBlank '\u3000' = true ∧ isBlank '\uFEFF' = false ∧
    isBlank '\x1c' = false := by decide

end SyntaxCheck.Text
