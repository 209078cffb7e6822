import SyntaxCheck.Grammar.Run

/-!
# The recogniser

`recognize o r c` recognises rule `r` from cursor `c`, one rule per arm, in the grammar of
`SyntaxCheck.Grammar.Rule`. A rule is entered, its body run, and the rule left when the body got
to its end; the first mismatch or source failure ends the whole run. `repetition` recognises the
tail `( sep Item )*` of a list rule: while the lookahead is a separator of the rule, it accepts
the separator and recognises one more item, which in the flat shape is the item itself and in the
nested shape the whole list rule again.

A program is a statement part followed by the end of file (`program`); a single rule can also be
recognised on its own from the first token of a source (`single`).

Termination: a call that consumes nothing goes from a rule to one of lower rank, and every other
call comes after a token was accepted, which lowers the weight of the cursor. So
`5 * weight + rank + 1` for rules and `5 * weight` for repetitions decrease along every call.
-/

namespace SyntaxCheck

open Run

theorem endOfFile_not_mem_statementStarts : TokenKind.endOfFile ∉ Choice.statementStarts := by
  decide

theorem endOfFile_not_mem_comparisons : TokenKind.endOfFile ∉ Choice.comparisons := by
  decide

theorem endOfFile_not_mem_operands : TokenKind.endOfFile ∉ Choice.operands := by
  decide

theorem endOfFile_not_mem_factorStarts : TokenKind.endOfFile ∉ Choice.factorStarts := by
  decide

mutual

/-- Recognise rule `r` from cursor `c`. -/
def recognize (o : Options) (r : Rule) (c : Cursor) : Run c :=
  match r with
  | .statementPart => within .statementPart <|
      acceptThen .kwBegin (by decide) c fun c1 _ =>
      (recognize o .statementList c1).bind fun c2 _ =>
      acceptThen .kwEnd (by decide) c2 fun c3 _ => done c3
  | .statementList => within .statementList <|
      (recognize o .statement c).bind fun c1 _ => repetition o .statementList c1
  | .statement => within .statement <|
      choose o Choice.statementStarts endOfFile_not_mem_statementStarts c
        (fun k _ =>
          match k with
          | .identifier => recognize o .assignment c
          | .kwIf => recognize o .ifStatement c
          | .kwWhile => recognize o .whileStatement c
          | .kwCall => recognize o .procedureStatement c
          | .kwDo => recognize o .untilStatement c
          | .kwFor => recognize o .forStatement c
          | _ => done c)
        (done c)
  | .assignment => within .assignment <|
      acceptThen .identifier (by decide) c fun c1 _ =>
      acceptThen .becomes (by decide) c1 fun c2 _ =>
      if c2.lookahead.kind = .string then acceptThen .string (by decide) c2 fun c3 _ => done c3
      else recognize o .expression c2
  | .ifStatement => within .ifStatement <|
      acceptThen .kwIf (by decide) c fun c1 _ =>
      (recognize o .condition c1).bind fun c2 _ =>
      acceptThen .kwThen (by decide) c2 fun c3 _ =>
      (recognize o .statementList c3).bind fun c4 _ =>
      (if c4.lookahead.kind = .kwElse then
          acceptThen .kwElse (by decide) c4 fun c5 _ => recognize o .statementList c5
        else done c4).bind fun c6 _ =>
      acceptThen .kwEnd (by decide) c6 fun c7 _ =>
      acceptThen .kwIf (by decide) c7 fun c8 _ => done c8
  | .whileStatement => within .whileStatement <|
      acceptThen .kwWhile (by decide) c fun c1 _ =>
      (recognize o .condition c1).bind fun c2 _ =>
      acceptThen .kwLoop (by decide) c2 fun c3 _ =>
      (recognize o .statementList c3).bind fun c4 _ =>
      acceptThen .kwEnd (by decide) c4 fun c5 _ =>
      acceptThen .kwLoop (by decide) c5 fun c6 _ => done c6
  | .procedureStatement => within .procedureStatement <|
      acceptThen .kwCall (by decide) c fun c1 _ =>
      acceptThen .identifier (by decide) c1 fun c2 _ =>
      acceptThen .openParen (by decide) c2 fun c3 _ =>
      (recognize o .argumentList c3).bind fun c4 _ =>
      acceptThen .closeParen (by decide) c4 fun c5 _ => done c5
  | .untilStatement => within .untilStatement <|
      acceptThen .kwDo (by decide) c fun c1 _ =>
      (recognize o .statementList c1).bind fun c2 _ =>
      acceptThen .kwUntil (by decide) c2 fun c3 _ =>
      recognize o .condition c3
  | .forStatement => within .forStatement <|
      acceptThen .kwFor (by decide) c fun c1 _ =>
      acceptThen .openParen (by decide) c1 fun c2 _ =>
      (recognize o .assignment c2).bind fun c3 _ =>
      acceptThen .semicolon (by decide) c3 fun c4 _ =>
      (recognize o .condition c4).bind fun c5 _ =>
      acceptThen .semicolon (by decide) c5 fun c6 _ =>
      (recognize o .assignment c6).bind fun c7 _ =>
      acceptThen .closeParen (by decide) c7 fun c8 _ =>
      acceptThen .kwDo (by decide) c8 fun c9 _ =>
      (recognize o .statementList c9).bind fun c10 _ =>
      acceptThen .kwEnd (by decide) c10 fun c11 _ =>
      acceptThen .kwLoop (by decide) c11 fun c12 _ => done c12
  | .argumentList => within .argumentList <|
      acceptThen .identifier (by decide) c fun c1 _ => repetition o .argumentList c1
  | .condition => within .condition <|
      acceptThen .identifier (by decide) c fun c1 _ =>
      (recognize o .conditionalOperator c1).bind fun c2 _ =>
      choose o Choice.operands endOfFile_not_mem_operands c2
        (fun k hk => acceptThen k hk c2 fun c3 _ => done c3) (done c2)
  | .conditionalOperator => within .conditionalOperator <|
      choose o Choice.comparisons endOfFile_not_mem_comparisons c
        (fun k hk => acceptThen k hk c fun c1 _ => done c1) (done c)
  | .expression => within .expression <|
      (recognize o .term c).bind fun c1 _ => repetition o .expression c1
  | .term => within .term <|
      (recognize o .factor c).bind fun c1 _ => repetition o .term c1
  | .factor => within .factor <|
      choose o Choice.factorStarts endOfFile_not_mem_factorStarts c
        (fun k hk =>
          if k = .openParen then
            acceptThen .openParen (by decide) c fun c1 _ =>
            (recognize o .expression c1).bind fun c2 _ =>
            acceptThen .closeParen (by decide) c2 fun c3 _ => done c3
          else acceptThen k hk c fun c1 _ => done c1)
        (done c)
termination_by 5 * c.weight + r.rank + 1
decreasing_by all_goals simp only [Rule.rank]; omega

/-- Recognise the repeated tail of the list rule `r` from cursor `c`. -/
def repetition (o : Options) (r : Rule) (c : Cursor) : Run c :=
  if h : c.lookahead.kind ∈ r.separators then
    acceptThen c.lookahead.kind (fun he => r.endOfFile_not_mem_separators (he ▸ h)) c fun d _ =>
      (match o.shape, r with
        | .nested, _ => recognize o r d
        | .flat, .statementList => recognize o .statement d
        | .flat, .argumentList => acceptThen .identifier (by decide) d fun e _ => done e
        | .flat, .expression => recognize o .term d
        | .flat, .term => recognize o .factor d
        -- rules without separators never get here
        | .flat, _ => done d).bind fun e _ => repetition o r e
  else done c
termination_by 5 * c.weight
decreasing_by
  all_goals
    have := Rule.rank_le_two r
    try simp only [wfParam] at *
    first | omega | (simp only [Rule.rank]; omega)

end

/-- What a whole recognition reports: its events, and the cursor it ended at or its halt. -/
structure Recognition where
  events : List Event
  outcome : Except Halt Cursor

namespace Run

/-- A run seen as a recognition, without the bound on its end cursor. -/
def recognition {c : Cursor} (r : Run c) : Recognition :=
  ⟨r.events, r.outcome.map Subtype.val⟩

end Run

namespace Recognition

/-- Recognise a program from the first token of `s`: a statement part, then the end of file.
A source that fails on its first pull gives no recognition at all. -/
def program (o : Options) (s : TokenSource) : Except Diagnostic Recognition :=
  (Cursor.start s).map fun c =>
    let r := (recognize o .statementPart c).recognition
    match r.outcome with
    | .error h => ⟨r.events, .error h⟩
    | .ok d =>
      if d.lookahead.kind = .endOfFile then
        match d.source.pull with
        | .error e => ⟨r.events ++ [.terminal d.lookahead], .error (.unreadable e d.lookahead)⟩
        | .ok (t, s') => ⟨r.events ++ [.terminal d.lookahead], .ok ⟨t, s'⟩⟩
      else ⟨r.events, .error (.mismatch d.lookahead (.kind .endOfFile))⟩

/-- Recognise the rule `rule` alone from the first token of `s`. -/
def single (o : Options) (rule : Rule) (s : TokenSource) : Except Diagnostic Recognition :=
  (Cursor.start s).map fun c => (recognize o rule c).recognition

/-- The lookahead where the recognition ended or stopped. -/
def lookahead (r : Recognition) : Token :=
  match r.outcome with
  | .ok c => c.lookahead
  | .error h => h.lookahead

/-- Whether the recognition got to its end. -/
def succeeded (r : Recognition) : Bool :=
  match r.outcome with
  | .ok _ => true
  | .error _ => false

end Recognition

end SyntaxCheck
