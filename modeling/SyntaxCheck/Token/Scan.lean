import SyntaxCheck.Diagnostic.Basic
import SyntaxCheck.Text.Blank

/-!
# Scanning text into tokens

The scanner reads a text from the front, one lexeme at a time. At each point the first of these
rules that applies decides the lexeme:

1. a letter or underscore starts a word of ASCII letters, digits and underscores, which is a
   reserved word if it is spelled exactly like one and an identifier otherwise;
2. a digit starts a number: digits, then a point and more digits if a digit follows the point;
3. a blank starts a run of blanks, which is skipped (its line feeds advance the line);
4. a double quote starts a string constant, closed by the next double quote on the same line;
   without one the string is unterminated, an error;
5. two slashes start a comment, skipped up to the end of the line;
6. an operator, two-character operators before their one-character prefixes;
7. anything else is an unrecognised character, an error.

Every lexeme takes at least one character, so `scan` ends; it closes the token list with an
end-of-file token on the last line.
-/

namespace SyntaxCheck

/-- What the front of a text holds. -/
inductive Lexeme where
  | token (kind : TokenKind) (text : String)
  | blank (newlines : Nat)
  | comment
  deriving DecidableEq, Repr

/-- Why no lexeme could be read at the front of a text. -/
inductive ScanFault where
  | unrecognised (c : Char)
  | unterminated
  deriving DecidableEq, Repr

namespace Lexeme

/-- Dropping a prefix never lengthens a list. -/
theorem length_dropWhile_le {α : Type} (p : α → Bool) :
    ∀ l : List α, (l.dropWhile p).length ≤ l.length
  | [] => Nat.le_refl _
  | a :: as => by
    rw [List.dropWhile_cons]
    split
    · exact Nat.le_succ_of_le (length_dropWhile_le p as)
    · exact Nat.le_refl _

/-- Characters that may start an identifier. -/
def isWordStart (c : Char) : Bool := c.isAlpha || c = '_'

/-- Characters that may continue an identifier. -/
def isWordChar (c : Char) : Bool := c.isAlphanum || c = '_'

/-- Characters a string constant may hold. -/
def isStringChar (c : Char) : Bool := c ≠ '"' && c ≠ '\n'

/-- After a number with a fractional part, what is left is shorter than the text after its first
digit. -/
theorem length_after_fraction {cs more : List Char} {d : Char}
    (hr : cs.dropWhile Char.isDigit = '.' :: d :: more) :
    (more.dropWhile Char.isDigit).length ≤ cs.length := by
  have hle := length_dropWhile_le Char.isDigit cs
  have := length_dropWhile_le Char.isDigit more
  rw [hr] at hle
  simp only [List.length_cons] at hle
  omega

/-- After a closed string constant, what is left is shorter than the text after its opening
quote. -/
theorem length_after_string {cs rest : List Char} (hr : cs.dropWhile isStringChar = '"' :: rest) :
    rest.length ≤ cs.length := by
  have := length_dropWhile_le isStringChar cs
  rw [hr, List.length_cons] at this
  omega

/-- The operators with their spellings, longer spellings before their prefixes. -/
def operators : List (List Char × TokenKind) :=
  [([':', '='], .becomes), ([';'], .semicolon), ([','], .comma), (['('], .openParen),
    ([')'], .closeParen), (['>', '='], .greaterEq), (['>'], .greater), (['<', '='], .lessEq),
    (['<'], .less), (['!', '='], .notEqual), (['='], .equal), (['+'], .plus), (['-'], .minus),
    (['*'], .times), (['/'], .divide), (['%'], .percent)]

/-- The lexeme at the front of `c :: cs`, and what follows it. What follows is a suffix of `cs`,
so it is shorter than the text. -/
def front (c : Char) (cs : List Char) :
    Except ScanFault (Lexeme × { r : List Char // r.length ≤ cs.length }) :=
  if isWordStart c then
    let w := c :: cs.takeWhile isWordChar
    let text := String.ofList w
    .ok (.token ((TokenKind.reserved? text).getD .identifier) text,
      ⟨cs.dropWhile isWordChar, length_dropWhile_le _ _⟩)
  else if c.isDigit then
    let whole := cs.takeWhile Char.isDigit
    have hle := length_dropWhile_le Char.isDigit cs
    match hr : cs.dropWhile Char.isDigit with
    | '.' :: d :: more =>
      if d.isDigit then
        let text := String.ofList (c :: whole ++ '.' :: d :: more.takeWhile Char.isDigit)
        .ok (.token .number text, ⟨more.dropWhile Char.isDigit, length_after_fraction hr⟩)
      else
        .ok (.token .number (String.ofList (c :: whole)),
          ⟨'.' :: d :: more, by rw [← hr]; exact hle⟩)
    | rest =>
      .ok (.token .number (String.ofList (c :: whole)), ⟨rest, by rw [← hr]; exact hle⟩)
  else if Text.isBlank c then
    let run := c :: cs.takeWhile Text.isBlank
    .ok (.blank (run.count '\n'), ⟨cs.dropWhile Text.isBlank, length_dropWhile_le _ _⟩)
  else if c = '"' then
    match hr : cs.dropWhile isStringChar with
    | '"' :: rest =>
      .ok (.token .string (String.ofList (cs.takeWhile isStringChar)),
        ⟨rest, length_after_string hr⟩)
    | _ => .error .unterminated
  else if c = '/' && cs.head? = some '/' then
    .ok (.comment, ⟨cs.dropWhile (· ≠ '\n'), length_dropWhile_le _ _⟩)
  else operator c cs
where
  /-- The operator at the front of `c :: cs`, if one is spelled there. -/
  operator (c : Char) (cs : List Char) :
      Except ScanFault (Lexeme × { r : List Char // r.length ≤ cs.length }) :=
    match operators.find? (fun o => o.1.isPrefixOf (c :: cs)) with
    | some (spelling, kind) =>
      .ok (.token kind (String.ofList spelling),
        ⟨cs.drop (spelling.length - 1), by simp⟩)
    | none => .error (.unrecognised c)

end Lexeme

/-- The tokens of `cs`, starting on line `line` of `file`, closed by an end-of-file token on the
last line; or the first scanning fault, at the line where it occurs.

The line is counted in 32 bits: the line feeds of a run of blanks are cut to 32 bits and added
with wrap-around, so past `2 ^ 32 - 1` the count starts again from 0. -/
def scan (file : String) (line : UInt32) : List Char → Except Diagnostic (List Token)
  | [] => .ok [Token.endAt ⟨line.toNat, file⟩]
  | c :: cs =>
    match Lexeme.front c cs with
    | .error (.unrecognised c) =>
      .error ⟨.unrecognised (String.singleton c), ⟨line.toNat, file⟩, none⟩
    | .error .unterminated => .error ⟨.unterminatedString, ⟨line.toNat, file⟩, none⟩
    | .ok (.token k text, ⟨rest, _⟩) =>
      (scan file line rest).map (⟨k, text, ⟨line.toNat, file⟩⟩ :: ·)
    | .ok (.blank n, ⟨rest, _⟩) => scan file (line + n.toUInt32) rest
    | .ok (.comment, ⟨rest, _⟩) => scan file line rest
termination_by cs => cs.length
decreasing_by all_goals simp only [List.length_cons]; omega

/-- The tokens of a source text named `file` (`shell` when it has no name). -/
def tokenize (source : String) (file : Option String) : Except Diagnostic (List Token) :=
  scan (file.getD "shell") 1 source.toList

end SyntaxCheck
