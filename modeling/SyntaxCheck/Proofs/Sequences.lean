import SyntaxCheck.Proofs.Grammar

/-!
# Rules as sequences of symbols

Most rules of the recogniser accept a fixed sequence of tokens and rules, written in
continuation-passing style: accept a token, then the rest; recognise a rule, then the rest.
`seqRun o xs c k` is that code for a list of symbols `xs`, followed by `k` where the sequence ends.
Each arm of `recognize` is, by definition, `seqRun` of the beginning of its right-hand side,
followed by the rule's own choice or loop (`recognize_whileStatement`, `recognize_condition`, ...),
so the lemmas about a sequence are proved once for all rules.

A list rule in the flat shape repeats `symRun` of its item after each separator
(`repetition_flat`); in the nested shape it enters the whole rule again (`repetition_nested`).
-/

namespace SyntaxCheck

open Run

/-- A cursor weighs no more than itself; stated for cursors so that the definitions below cite it
by name rather than build the proof again. -/
theorem Cursor.weight_le_self (c : Cursor) : c.weight ≤ c.weight := Nat.le_refl _

/-- Recognise the symbols `xs` one after the other from `c`, then run `k` where they end. -/
def seqRun (o : Options) : List Sym → (c : Cursor) →
    ((d : Cursor) → d.weight ≤ c.weight → Run d) → Run c
  | [], c, k => k c (Cursor.weight_le_self c)
  | .tok t :: xs, c, k =>
    if ht : t = .endOfFile then halt (.mismatch c.lookahead (.kind t))
    else acceptThen t ht c fun d hd =>
      seqRun o xs d fun e he => k e (Nat.le_trans he (Nat.le_of_lt hd))
  | .rule r :: xs, c, k =>
    (recognize o r c).bind fun d hd => seqRun o xs d fun e he => k e (Nat.le_trans he hd)

/-- Recognise one symbol: accept a token of its kind, or recognise its rule. -/
def symRun (o : Options) : Sym → (c : Cursor) → Run c
  | .tok t, c =>
    if ht : t = .endOfFile then halt (.mismatch c.lookahead (.kind t))
    else acceptThen t ht c fun d _ => done d
  | .rule r, c => recognize o r c

/-- The item of a list rule: what its repetition recognises after each separator. Other rules
have no separators, and their item is never used. -/
def Rule.item : Rule → Sym
  | .argumentList => .tok .identifier
  | .statementList => .rule .statement
  | .expression => .rule .term
  | .term => .rule .factor
  | r => .rule r

/-- The item of a list rule has a lower rank than the rule. -/
theorem Rule.rank_item_lt {r r' : Rule} (hr : r.separators ≠ []) (h : r.item = .rule r') :
    r'.rank < r.rank := by
  cases r <;> simp [Rule.separators, Rule.item] at hr h <;> subst h <;> decide

/-! ## The rules, read as sequences -/

section Rules

variable (o : Options) (c : Cursor)

theorem recognize_statementPart :
    recognize o .statementPart c = within .statementPart
      (seqRun o [.tok .kwBegin, .rule .statementList, .tok .kwEnd] c fun d _ => done d) := by
  rw [recognize]
  rfl

theorem recognize_statementList :
    recognize o .statementList c = within .statementList
      (seqRun o [.rule .statement] c fun d _ => repetition o .statementList d) := by
  rw [recognize]
  rfl

theorem recognize_statement :
    recognize o .statement c = within .statement
      (choose o Choice.statementStarts endOfFile_not_mem_statementStarts c
        (fun k _ =>
          match k with
          | .identifier => recognize o .assignment c
          | .kwIf => recognize o .ifStatement c
          | .kwWhile => recognize o .whileStatement c
          | .kwCall => recognize o .procedureStatement c
          | .kwDo => recognize o .untilStatement c
          | .kwFor => recognize o .forStatement c
          | _ => done c)
        (done c)) :=
  -- the dispatch is a match of its own here, equal to the recogniser's by unfolding both
  (recognize.eq_def o .statement c).trans rfl

theorem recognize_assignment :
    recognize o .assignment c = within .assignment
      (seqRun o [.tok .identifier, .tok .becomes] c fun d _ =>
        if d.lookahead.kind = .string then seqRun o [.tok .string] d fun e _ => done e
        else recognize o .expression d) := by
  rw [recognize]
  rfl

theorem recognize_ifStatement :
    recognize o .ifStatement c = within .ifStatement
      (seqRun o [.tok .kwIf, .rule .condition, .tok .kwThen, .rule .statementList] c fun d _ =>
        (if d.lookahead.kind = .kwElse then
            seqRun o [.tok .kwElse] d fun e _ => recognize o .statementList e
          else done d).bind fun e _ =>
        seqRun o [.tok .kwEnd, .tok .kwIf] e fun f _ => done f) := by
  rw [recognize]
  rfl

theorem recognize_whileStatement :
    recognize o .whileStatement c = within .whileStatement
      (seqRun o [.tok .kwWhile, .rule .condition, .tok .kwLoop, .rule .statementList,
        .tok .kwEnd, .tok .kwLoop] c fun d _ => done d) := by
  rw [recognize]
  rfl

theorem recognize_procedureStatement :
    recognize o .procedureStatement c = within .procedureStatement
      (seqRun o [.tok .kwCall, .tok .identifier, .tok .openParen, .rule .argumentList,
        .tok .closeParen] c fun d _ => done d) := by
  rw [recognize]
  rfl

theorem recognize_untilStatement :
    recognize o .untilStatement c = within .untilStatement
      (seqRun o [.tok .kwDo, .rule .statementList, .tok .kwUntil] c fun d _ =>
        recognize o .condition d) := by
  rw [recognize]
  rfl

theorem recognize_forStatement :
    recognize o .forStatement c = within .forStatement
      (seqRun o [.tok .kwFor, .tok .openParen, .rule .assignment, .tok .semicolon,
        .rule .condition, .tok .semicolon, .rule .assignment, .tok .closeParen, .tok .kwDo,
        .rule .statementList, .tok .kwEnd, .tok .kwLoop] c fun d _ => done d) := by
  rw [recognize]
  rfl

theorem recognize_argumentList :
    recognize o .argumentList c = within .argumentList
      (seqRun o [.tok .identifier] c fun d _ => repetition o .argumentList d) := by
  rw [recognize]
  rfl

theorem recognize_condition :
    recognize o .condition c = within .condition
      (seqRun o [.tok .identifier, .rule .conditionalOperator] c fun d _ =>
        choose o Choice.operands endOfFile_not_mem_operands d
          (fun k hk => acceptThen k hk d fun e _ => done e) (done d)) := by
  rw [recognize]
  rfl

theorem recognize_conditionalOperator :
    recognize o .conditionalOperator c = within .conditionalOperator
      (choose o Choice.comparisons endOfFile_not_mem_comparisons c
        (fun k hk => acceptThen k hk c fun d _ => done d) (done c)) := by
  rw [recognize]

theorem recognize_expression :
    recognize o .expression c = within .expression
      (seqRun o [.rule .term] c fun d _ => repetition o .expression d) := by
  rw [recognize]
  rfl

theorem recognize_term :
    recognize o .term c = within .term
      (seqRun o [.rule .factor] c fun d _ => repetition o .term d) := by
  rw [recognize]
  rfl

theorem recognize_factor :
    recognize o .factor c = within .factor
      (choose o Choice.factorStarts endOfFile_not_mem_factorStarts c
        (fun k hk =>
          if k = .openParen then
            seqRun o [.tok .openParen, .rule .expression, .tok .closeParen] c fun d _ => done d
          else acceptThen k hk c fun d _ => done d)
        (done c)) := by
  rw [recognize]
  rfl

/-- In the flat shape, a repetition accepts a separator and recognises one item, as long as the
lookahead is a separator of its rule. -/
theorem repetition_flat (hflat : o.shape = .flat) (r : Rule) :
    repetition o r c =
      if h : c.lookahead.kind ∈ r.separators then
        acceptThen c.lookahead.kind (fun he => r.endOfFile_not_mem_separators (he ▸ h)) c
          fun d _ => (symRun o r.item d).bind fun e _ => repetition o r e
      else done c := by
  rw [repetition]
  obtain ⟨shape, strict⟩ := o
  cases hflat
  cases r <;> rfl

/-- In the nested shape, a repetition accepts a separator and recognises the whole list rule
again. -/
theorem repetition_nested (hnested : o.shape = .nested) (r : Rule) :
    repetition o r c =
      if h : c.lookahead.kind ∈ r.separators then
        acceptThen c.lookahead.kind (fun he => r.endOfFile_not_mem_separators (he ▸ h)) c
          fun d _ => (recognize o r d).bind fun e _ => repetition o r e
      else done c := by
  rw [repetition]
  obtain ⟨shape, strict⟩ := o
  cases hnested
  rfl

end Rules

end SyntaxCheck
