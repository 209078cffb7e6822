import SyntaxCheck.Token.Kind

/-!
# The grammar rules

The statement language has fifteen rules:

    StatementPart       ::= begin StatementList end
    StatementList       ::= Statement ( ; Statement )*
    Statement           ::= AssignmentStatement | IfStatement | WhileStatement
                          | ProcedureStatement | UntilStatement | ForStatement
    AssignmentStatement ::= identifier := ( stringConstant | Expression )
    IfStatement         ::= if Condition then StatementList [ else StatementList ] end if
    WhileStatement      ::= while Condition loop StatementList end loop
    ProcedureStatement  ::= call identifier ( ArgumentList )
    UntilStatement      ::= do StatementList until Condition
    ForStatement        ::= for ( AssignmentStatement ; Condition ; AssignmentStatement )
                            do StatementList end loop
    ArgumentList        ::= identifier ( , identifier )*
    Condition           ::= identifier ConditionalOperator
                            ( identifier | numberConstant | stringConstant )
    ConditionalOperator ::= > | >= | = | != | < | <=
    Expression          ::= Term ( ( + | - ) Term )*
    Term                ::= Factor ( ( * | / | % ) Factor )*
    Factor              ::= identifier | numberConstant | ( Expression )

The four list rules (`StatementList`, `ArgumentList`, `Expression`, `Term`) repeat an item after
each of their separators. The choice points list their alternatives in a fixed order, which is
the order in which a diagnostic names them.
-/

namespace SyntaxCheck

/-- The rules of the grammar, in the order in which reports enumerate them. -/
inductive Rule where
  | statementPart
  | statementList
  | statement
  | assignment
  | ifStatement
  | whileStatement
  | procedureStatement
  | untilStatement
  | forStatement
  | argumentList
  | condition
  | conditionalOperator
  | expression
  | term
  | factor
  deriving DecidableEq, Repr, Inhabited

namespace Rule

/-- Every rule, in declaration order. -/
def all : List Rule :=
  [statementPart, statementList, statement, assignment, ifStatement, whileStatement,
    procedureStatement, untilStatement, forStatement, argumentList, condition,
    conditionalOperator, expression, term, factor]

/-- The name of a rule in reports. -/
def name : Rule → String
  | statementPart => "StatementPart"
  | statementList => "StatementList"
  | statement => "Statement"
  | assignment => "AssignmentStatement"
  | ifStatement => "IfStatement"
  | whileStatement => "WhileStatement"
  | procedureStatement => "ProcedureStatement"
  | untilStatement => "UntilStatement"
  | forStatement => "ForStatement"
  | argumentList => "ArgumentList"
  | condition => "Condition"
  | conditionalOperator => "ConditionalOperator"
  | expression => "Expression"
  | term => "Term"
  | factor => "Factor"

/-- The separators of a list rule; other rules have none. -/
def separators : Rule → List TokenKind
  | statementList => [.semicolon]
  | argumentList => [.comma]
  | expression => [.plus, .minus]
  | term => [.times, .divide, .percent]
  | _ => []

/-- How many rules a rule may pass through before it must accept a token: a statement list
starts with a statement, which starts with a statement of one kind; an expression starts with a
term, which starts with a factor. The recogniser terminates because every call that consumes
nothing goes to a rule of lower rank. -/
def rank : Rule → Nat
  | statementList => 2
  | statement => 1
  | expression => 2
  | term => 1
  | _ => 0

theorem rank_le_two (r : Rule) : r.rank ≤ 2 := by
  cases r <;> decide

theorem endOfFile_not_mem_separators (r : Rule) : TokenKind.endOfFile ∉ r.separators := by
  cases r <;> decide

theorem all_complete (r : Rule) : r ∈ all := by
  cases r <;> simp [all]

end Rule

/-! ## Choice points -/

namespace Choice

/-- The tokens that start a statement. -/
def statementStarts : List TokenKind :=
  [.identifier, .kwIf, .kwWhile, .kwCall, .kwDo, .kwFor]

/-- The comparison operators of a condition. -/
def comparisons : List TokenKind :=
  [.greater, .greaterEq, .equal, .notEqual, .less, .lessEq]

/-- What a condition compares with. -/
def operands : List TokenKind :=
  [.identifier, .number, .string]

/-- The tokens that start a factor. -/
def factorStarts : List TokenKind :=
  [.identifier, .number, .openParen]

end Choice

end SyntaxCheck
