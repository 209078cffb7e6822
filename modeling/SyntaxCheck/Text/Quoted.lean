import SyntaxCheck.Text.Visible

/-!
# Quoted text

Diagnostics quote an unrecognised character sequence between double quotes. Inside the quotes
the null character, tab, carriage return and line feed are written `\0`, `\t`, `\r` and `\n`; a
backslash and a double quote get a backslash before them; a character that
`Text.shownEscaped` marks is written `\u` followed by its code point in lowercase hexadecimal,
with no leading zeros, between braces; every other character stands for itself.
-/

namespace SyntaxCheck.Text

/-- The lowercase hexadecimal digits of `n`, without leading zeros. -/
def hexDigits (n : Nat) : String := String.ofList (Nat.toDigits 16 n)

/-- How one character is written inside quotes. -/
def escapeChar (c : Char) : String :=
  if c = '\x00' then "\\0"
  else if c = '\t' then "\\t"
  else if c = '\r' then "\\r"
  else if c = '\n' then "\\n"
  else if c = '\\' then "\\\\"
  else if c = '"' then "\\\""
  else if shownEscaped c then "\\u\x7b" ++ hexDigits c.toNat ++ "\x7d"
  else String.singleton c

/-- A text with each character written as `escapeChar` says. -/
def escape (s : String) : String := String.join (s.toList.map escapeChar)

/-- Escaping works character by character, so it splits over a concatenation. -/
theorem escape_append (s t : String) : escape (s ++ t) = escape s ++ escape t := by
  simp [escape, String.join_append]

/-- A text between double quotes, escaped. -/
def quote (s : String) : String := "\"" ++ escape s ++ "\""

end SyntaxCheck.Text
