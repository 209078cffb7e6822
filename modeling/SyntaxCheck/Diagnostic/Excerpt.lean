import SyntaxCheck.Diagnostic.Basic
import SyntaxCheck.Text.Lines

/-!
# Diagnostics with an excerpt

A diagnostic is shown as a header naming it and its tip, an arrow to the path of the input,
and, when its line exists in the source, an excerpt:

    Error: SyntaxError (message)
    -> program.txt
      |
    3 | loop
      | ^^^^

The excerpt shows the line without its indentation (leading spaces and tabs) and without
trailing blanks. The gutter is two columns wider than the line number. The carets sit under the
first occurrence of the offending token in the shown line, as many as the token has bytes (at
least one); without a token, or when the token does not occur there, they run under the whole
line (again at least one). Offsets and widths count UTF-8 bytes.
-/

namespace SyntaxCheck.Diagnostic

open Text

/-- `n` spaces. -/
def spaces (n : Nat) : String := String.ofList (List.replicate n ' ')

/-- `n` carets, at least one. -/
def carets (n : Nat) : String := String.ofList (List.replicate (max 1 n) '^')

/-- The caret line under a shown line: under the token if it occurs there, else under all. -/
def marks (token : Option Token) (shown : List Char) : String :=
  match token with
  | some t =>
    match byteOffset? t.value.toList shown with
    | some off => spaces off ++ carets t.value.utf8ByteSize
    | none => carets (byteSize shown)
  | none => carets (byteSize shown)

/-- The header: name, tip and path. -/
def header (d : Diagnostic) (path : String) : String :=
  "Error: " ++ d.name ++ " (" ++ d.tip ++ ")\n" ++ "-> " ++ path ++ "\n"

/-- A diagnostic with its excerpt from `source`, shown under the name `path`. -/
def render (d : Diagnostic) (path source : String) : String :=
  match lineAt source d.pos.line with
  | none => header d path
  | some text =>
    let shown := dropTrailingBlanks (dropIndent text.toList)
    let number := toString d.pos.line
    let bar := spaces (number.length + 1) ++ "|"
    header d path ++ bar ++ "\n" ++ number ++ " | " ++ String.ofList shown ++ "\n" ++
      bar ++ " " ++ marks d.token shown ++ "\n"

end SyntaxCheck.Diagnostic
