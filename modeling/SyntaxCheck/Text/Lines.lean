import SyntaxCheck.Text.Blank

/-!
# Lines of a text

A text is cut into lines at each line feed, so a text with `k` line feeds has `k + 1` lines, the
last one possibly empty. `lineAt` returns line `n`, counting from 1, without the carriage
returns that end it.

The excerpt helpers measure text in UTF-8 bytes, because that is the unit in which diagnostics
place their carets.
-/

namespace SyntaxCheck.Text

/-- The lines of a character list, cut at every line feed. -/
def splitLines : List Char → List (List Char)
  | [] => [[]]
  | c :: cs =>
    match splitLines cs with
    | [] => [[c]]
    | l :: ls => if c = '\n' then [] :: l :: ls else (c :: l) :: ls

/-- Drop the carriage returns at the end of a line. -/
def dropReturns (l : List Char) : List Char :=
  (l.reverse.dropWhile (· = '\r')).reverse

/-- Line `n` of a text, counting from 1, without its trailing carriage returns; `none` for line 0
and for a line past the end. -/
def lineAt (source : String) (n : Nat) : Option String :=
  match n with
  | 0 => none
  | k + 1 => ((splitLines source.toList)[k]?).map (fun l => String.ofList (dropReturns l))

/-- A line without its leading spaces and tabs. -/
def dropIndent (l : List Char) : List Char :=
  l.dropWhile (fun c => c = ' ' || c = '\t')

/-- A line without its trailing blank characters. -/
def dropTrailingBlanks (l : List Char) : List Char :=
  (l.reverse.dropWhile isBlank).reverse

/-- The number of bytes of the UTF-8 encoding of a character list. -/
def byteSize : List Char → Nat
  | [] => 0
  | c :: cs => c.utf8Size + byteSize cs

theorem byteSize_append (l m : List Char) : byteSize (l ++ m) = byteSize l + byteSize m := by
  induction l with
  | nil => simp [byteSize]
  | cons c l ih => simp [byteSize, ih, Nat.add_assoc]

/-- Measured on its characters, a string has as many bytes as its encoding. -/
theorem byteSize_toList (s : String) : byteSize s.toList = s.utf8ByteSize := by
  induction s using String.push_induction with
  | empty => simp [byteSize]
  | push s c ih => simp_all [byteSize_append, byteSize, String.utf8ByteSize_push]

/-- The byte offset of the first occurrence of `needle` in `hay`, if it occurs. The empty
needle occurs at offset 0. -/
def byteOffset? (needle : List Char) : List Char → Option Nat
  | [] => if needle.isEmpty then some 0 else none
  | c :: cs =>
    if needle.isPrefixOf (c :: cs) then some 0
    else (byteOffset? needle cs).map (c.utf8Size + ·)

example : splitLines "a\nb\n".toList = ["a".toList, "b".toList, []] := by decide
example : lineAt "begin\n  x := 1\r\nend\n" 2 = some "  x := 1" := by decide

end SyntaxCheck.Text
