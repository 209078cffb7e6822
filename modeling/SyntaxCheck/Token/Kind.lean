/-!
# Token kinds

The language has three classes of tokens that carry a spelling of their own (identifiers,
number constants and string constants), eleven reserved words, and the operators and
punctuation. The `name` of a kind is how diagnostics refer to it; reserved words and operators
are named by their spelling.

The order of the constructors is the order in which kinds are enumerated (`TokenKind.all`).
-/

namespace SyntaxCheck

/-- The kinds of token of the statement language. -/
inductive TokenKind where
  | endOfFile
  | identifier
  | number
  | string
  | kwBegin
  | kwEnd
  | kwIf
  | kwThen
  | kwElse
  | kwWhile
  | kwLoop
  | kwCall
  | kwDo
  | kwUntil
  | kwFor
  | becomes
  | semicolon
  | comma
  | openParen
  | closeParen
  | greater
  | greaterEq
  | equal
  | notEqual
  | less
  | lessEq
  | plus
  | minus
  | times
  | divide
  | percent
  deriving DecidableEq, Repr, Inhabited

namespace TokenKind

/-- Every kind, in declaration order. -/
def all : List TokenKind :=
  [endOfFile, identifier, number, string, kwBegin, kwEnd, kwIf, kwThen, kwElse, kwWhile, kwLoop,
    kwCall, kwDo, kwUntil, kwFor, becomes, semicolon, comma, openParen, closeParen, greater,
    greaterEq, equal, notEqual, less, lessEq, plus, minus, times, divide, percent]

/-- The name under which diagnostics mention a kind. -/
def name : TokenKind → String
  | endOfFile => "end of file"
  | identifier => "identifier"
  | number => "numberConstant"
  | string => "stringConstant"
  | kwBegin => "begin"
  | kwEnd => "end"
  | kwIf => "if"
  | kwThen => "then"
  | kwElse => "else"
  | kwWhile => "while"
  | kwLoop => "loop"
  | kwCall => "call"
  | kwDo => "do"
  | kwUntil => "until"
  | kwFor => "for"
  | becomes => ":="
  | semicolon => ";"
  | comma => ","
  | openParen => "("
  | closeParen => ")"
  | greater => ">"
  | greaterEq => ">="
  | equal => "="
  | notEqual => "!="
  | less => "<"
  | lessEq => "<="
  | plus => "+"
  | minus => "-"
  | times => "*"
  | divide => "/"
  | percent => "%"

/-- Identifiers, numbers and strings carry a spelling; every other kind has a fixed one. -/
def hasValue : TokenKind → Bool
  | identifier | number | string => true
  | _ => false

/-- The reserved word spelled `s`, if `s` is one. Reserved words are lowercase only. -/
def reserved? (s : String) : Option TokenKind :=
  [kwBegin, kwEnd, kwIf, kwThen, kwElse, kwWhile, kwLoop, kwCall, kwDo, kwUntil, kwFor].find?
    (fun k => k.name == s)

theorem all_complete (k : TokenKind) : k ∈ all := by
  cases k <;> simp [all]

end TokenKind

end SyntaxCheck
