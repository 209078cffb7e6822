import SyntaxCheck.Proofs.Streams
import SyntaxCheck.Proofs.FailFast

/-!
# Every recognition is short

The recogniser is total by its own definition: every call that consumes nothing goes to a rule of
lower rank, and every other call comes after a token that is not an end of file was accepted. This
module turns that argument into a bound on what a recognition reports.

A run pays for the rules it enters and leaves with the tokens it accepts (`Run.Thrifty`): a rule
of rank `k` reports at most six entries and exits per accepted token, and `2 * (k + 1)` more for
the rules it passes through before its first token; a repetition reports nothing it has not paid
for, because each of its rounds begins with a separator. Each step of a run keeps such a budget
(`thrifty_acceptThen` earns six, `thrifty_within` spends two, `thrifty_bind` adds), and a sequence
of symbols keeps it when its credit never runs out (`Sym.creditAfter`). So a recognition reports at
most seven events per accepted token, and a few more (`recognize_thrifty`).

The tokens it accepts are the first tokens its source hands out, and none is an end of file but the
one a program closes with. Over a token list that means: a prefix of the tokens before the first
end of file, followed, for a program, by at most that end of file, or by the one the source repeats
when the list has none (`recognition_terminates`).
-/

namespace SyntaxCheck

open Run

/-! ## Entries and exits paid for by tokens -/

namespace Event

/-- The number of entries and exits among the events. -/
def boundaries : List Event → Nat
  | [] => 0
  | .enter _ :: es => boundaries es + 1
  | .exit _ :: es => boundaries es + 1
  | .terminal _ :: es => boundaries es

section Boundaries

variable (es es' : List Event)

@[simp] theorem boundaries_nil : boundaries [] = 0 := rfl

@[simp] theorem boundaries_enter (r : Rule) : boundaries (.enter r :: es) = boundaries es + 1 :=
  rfl

@[simp] theorem boundaries_exit (r : Rule) : boundaries (.exit r :: es) = boundaries es + 1 := rfl

@[simp] theorem boundaries_terminal (t : Token) :
    boundaries (.terminal t :: es) = boundaries es := rfl

@[simp] theorem boundaries_append : boundaries (es ++ es') = boundaries es + boundaries es' := by
  induction es with
  | nil => simp
  | cons e es ih => cases e <;> simp [ih] <;> omega

/-- Every event is an entry, an exit or a terminal. -/
theorem length_eq_boundaries_add : es.length = boundaries es + (terminals es).length := by
  induction es with
  | nil => rfl
  | cons e es ih => cases e <;> simp [ih] <;> omega

end Boundaries

/-- The entries and exits among `es` are at most six for each token accepted, and `n` more. -/
def Thrifty (n : Nat) (es : List Event) : Prop :=
  boundaries es ≤ 6 * (terminals es).length + n

theorem Thrifty.mono {n m : Nat} {es : List Event} (h : Thrifty n es) (hnm : n ≤ m) :
    Thrifty m es := by
  unfold Thrifty at *
  omega

end Event

namespace Run

variable {c : Cursor}

/-- A run whose events are thrifty with a budget `n`, whether it ends or stops. -/
def Thrifty (n : Nat) (r : Run c) : Prop :=
  r.Sat (fun es _ => Event.Thrifty n es) (fun es _ => Event.Thrifty n es)

theorem Thrifty.mono {n m : Nat} {r : Run c} (h : r.Thrifty n) (hnm : n ≤ m) : r.Thrifty m :=
  Sat.mono h (fun _ _ hes => hes.mono hnm) (fun _ _ hes => hes.mono hnm)

/-- The events of a thrifty run, however it went. -/
theorem Thrifty.events {n : Nat} {r : Run c} (h : r.Thrifty n) :
    Event.Thrifty n r.recognition.events := by
  obtain ⟨es, (e | ⟨d, hd⟩)⟩ := r <;> exact h

theorem thrifty_done (n : Nat) : (done c).Thrifty n := by
  simp [Thrifty, Sat, done, Event.Thrifty]

theorem thrifty_halt (n : Nat) (h : Halt) : (halt h : Run c).Thrifty n := by
  simp [Thrifty, Sat, halt, Event.Thrifty]

/-- Entering and leaving a rule spends two. -/
theorem thrifty_within {n : Nat} {x : Rule} {body : Run c} (h : body.Thrifty n) :
    (within x body).Thrifty (n + 2) := by
  apply sat_within
  refine Sat.mono h (fun es _ hes => ?_) (fun es _ hes => ?_) <;>
    simp only [Event.Thrifty, List.cons_append, Event.boundaries_enter, Event.boundaries_append,
      Event.boundaries_exit, Event.boundaries_nil, Event.terminals_enter, Event.terminals_append,
      Event.terminals_exit, Event.terminals_nil, List.append_nil] at hes ⊢ <;> omega

/-- Accepting a token earns six. -/
theorem thrifty_acceptThen {n : Nat} {k : TokenKind} {hk : k ≠ .endOfFile}
    {next : (d : Cursor) → d.weight < c.weight → Run d}
    (hnext : ∀ t s hd, (next ⟨t, s⟩ hd).Thrifty (n + 6)) :
    (acceptThen k hk c next).Thrifty n := by
  apply sat_acceptThen
  · exact fun _ => by simp [Event.Thrifty]
  · exact fun _ _ _ => by simp [Event.Thrifty]
  · intro t s hd _ _
    refine Sat.mono (hnext t s hd) (fun es _ hes => ?_) (fun es _ hes => ?_) <;>
      simp only [Event.Thrifty, Event.boundaries_terminal, Event.terminals_terminal,
        List.length_cons] at hes ⊢ <;> omega

/-- Budgets add up along a run and its continuation. -/
theorem thrifty_bind {a b : Nat} {r : Run c} {k : (d : Cursor) → d.weight ≤ c.weight → Run d}
    (hr : r.Thrifty a) (hk : ∀ d hd, (k d hd).Thrifty b) : (r.bind k).Thrifty (a + b) := by
  apply sat_bind
  refine Sat.mono hr (fun es d hes hd => ?_) (fun es _ hes => hes.mono (Nat.le_add_right a b))
  refine Sat.mono (hk d hd) (fun es' _ hes' => ?_) (fun es' _ hes' => ?_) <;>
    simp only [Event.Thrifty, Event.boundaries_append, Event.terminals_append,
      List.length_append] at hes hes' ⊢ <;> omega

theorem thrifty_choose {n : Nat} {o : Options} {ks : List TokenKind}
    {hks : TokenKind.endOfFile ∉ ks} {pick : (k : TokenKind) → k ≠ .endOfFile → Run c}
    {otherwise : Run c}
    (hpick : ∀ hk, c.lookahead.kind ∈ ks → (pick c.lookahead.kind hk).Thrifty n)
    (hotherwise : otherwise.Thrifty n) : (choose o ks hks c pick otherwise).Thrifty n := by
  apply sat_choose hpick
  · exact fun _ _ => by simp [Event.Thrifty]
  · exact fun _ _ => hotherwise

end Run

/-! ## Sequences -/

/-- What is left of a credit `n` for entries and exits after the symbols `xs`: each token adds
six, and each rule costs two for every rule it may enter before it accepts a token, itself
included; `none` when a rule costs more than is left. -/
def Sym.creditAfter : List Sym → Nat → Option Nat
  | [], n => some n
  | .tok _ :: xs, n => creditAfter xs (n + 6)
  | .rule r :: xs, n =>
    if 2 * (r.rank + 1) ≤ n then creditAfter xs (n - 2 * (r.rank + 1)) else none

/-- **A sequence pays its way** when its credit never runs out, the rules among its symbols pay
for themselves (below a bound `B` that the first symbol, if a rule, is also below), and what comes
after it fits in what is left. -/
theorem thrifty_seqRun {o : Options} {B : Nat} :
    ∀ (xs : List Sym) (n m : Nat) (c : Cursor)
      (k : (d : Cursor) → d.weight ≤ c.weight → Run d),
      Sym.creditAfter xs n = some m → c.weight ≤ B →
      (∀ r, xs.head? = some (.rule r) → c.weight < B) →
      (∀ r d, .rule r ∈ xs → d.weight < B →
        (recognize o r d).Thrifty (2 * (r.rank + 1))) →
      (∀ d hd, (k d hd).Thrifty m) → (seqRun o xs c k).Thrifty n
  | [], n, m, c, k, hcredit, _, _, _, hk => by
    cases hcredit
    exact hk c (Nat.le_refl _)
  | .tok t :: xs, n, m, c, k, hcredit, hc, _, hrec, hk => by
    unfold seqRun
    split
    · exact thrifty_halt n _
    · refine thrifty_acceptThen fun t' s hd => ?_
      exact thrifty_seqRun xs (n + 6) m _ _ hcredit (Nat.le_trans (Nat.le_of_lt hd) hc)
        (fun _ _ => Nat.lt_of_lt_of_le hd hc) (fun r d hr => hrec r d (List.mem_cons_of_mem _ hr))
        (fun d _ => hk d _)
  | .rule r :: xs, n, m, c, k, hcredit, hc, hhead, hrec, hk => by
    have hlt : c.weight < B := hhead r rfl
    simp only [Sym.creditAfter] at hcredit
    split at hcredit
    · rename_i hcost
      -- the rule spends its cost, and the rest of the sequence what is left
      have hsum : 2 * (r.rank + 1) + (n - 2 * (r.rank + 1)) = n := by omega
      rw [← hsum]
      refine thrifty_bind (hrec r c (by simp) hlt) fun d hd => ?_
      exact thrifty_seqRun xs _ m d _ hcredit (Nat.le_trans hd (Nat.le_of_lt hlt))
        (fun _ _ => Nat.lt_of_le_of_lt hd hlt)
        (fun r' d' hr => hrec r' d' (List.mem_cons_of_mem _ hr)) (fun e _ => hk e _)
    · cases hcredit

/-! ## Rule by rule -/

section Rules

variable {o : Options} {c : Cursor}

/-- A rule whose body is a sequence beginning with a token, then `next`. -/
theorem thrifty_tokSeq {k : TokenKind} {xs : List Sym} {n m : Nat}
    {next : (d : Cursor) → d.weight ≤ c.weight → Run d}
    (hcredit : Sym.creditAfter (.tok k :: xs) n = some m)
    (ih : ∀ r d, d.weight < c.weight → (recognize o r d).Thrifty (2 * (r.rank + 1)))
    (hnext : ∀ d hd, d.weight < c.weight → (next d hd).Thrifty m) :
    (seqRun o (.tok k :: xs) c next).Thrifty n := by
  unfold seqRun
  split
  · exact thrifty_halt n _
  · refine thrifty_acceptThen fun t s hd => ?_
    exact thrifty_seqRun xs (n + 6) m _ _ hcredit (Nat.le_of_lt hd) (fun _ _ => hd)
      (fun r d _ hd' => ih r d hd') (fun d hd' => hnext d _ (Nat.lt_of_le_of_lt hd' hd))

theorem thrifty_symRun {x : Sym} {n : Nat}
    (hrule : ∀ r, x = .rule r → (recognize o r c).Thrifty n) : (symRun o x c).Thrifty n := by
  cases x with
  | tok k =>
    rw [symRun]
    split
    · exact thrifty_halt n _
    · exact thrifty_acceptThen fun _ _ _ => thrifty_done _
  | rule r => exact hrule r rfl

/-- **A rule of rank zero whose body is a sequence beginning with a token**, then nothing. -/
theorem thrifty_tokRule {r : Rule} {k : TokenKind} {xs : List Sym} (hrank : r.rank = 0)
    (heq : recognize o r c = within r (seqRun o (.tok k :: xs) c fun d _ => done d))
    (hcredit : (Sym.creditAfter (.tok k :: xs) 0).isSome)
    (ih : ∀ r d, d.weight < c.weight → (recognize o r d).Thrifty (2 * (r.rank + 1))) :
    (recognize o r c).Thrifty (2 * (r.rank + 1)) := by
  obtain ⟨m, hm⟩ := Option.isSome_iff_exists.1 hcredit
  rw [heq, hrank]
  exact thrifty_within (thrifty_tokSeq hm ih fun _ _ _ => thrifty_done m)

/-- **A statement**: a choice of the kind of statement, or nothing. -/
theorem thrifty_statement (hsub : ∀ x : Rule, x.rank < Rule.statement.rank →
    (recognize o x c).Thrifty (2 * (x.rank + 1))) :
    (recognize o .statement c).Thrifty (2 * (Rule.statement.rank + 1)) := by
  rw [recognize_statement]
  refine thrifty_within (thrifty_choose (fun _ _ => ?_) (thrifty_done _))
  split <;> first | exact hsub _ (by decide) | exact thrifty_done _

/-- **A list rule**: its first item, paid for by what the rule may spend before its first token,
then its repetition. -/
theorem thrifty_list {r : Rule} {m : Nat}
    (heq : recognize o r c = within r (seqRun o [r.item] c fun d _ => repetition o r d))
    (hcredit : Sym.creditAfter [r.item] (2 * r.rank) = some m)
    (hitem : ∀ r', r.item = .rule r' → ∀ d, d.weight ≤ c.weight →
      (recognize o r' d).Thrifty (2 * (r'.rank + 1)))
    (hrep : ∀ d, d.weight ≤ c.weight → (repetition o r d).Thrifty 0) :
    (recognize o r c).Thrifty (2 * (r.rank + 1)) := by
  rw [heq]
  refine thrifty_within (thrifty_seqRun (B := c.weight + 1) [r.item] _ m c _ hcredit
    (Nat.le_succ _) (fun _ _ => Nat.lt_succ_self _) (fun r' d hr' hd => ?_)
    (fun d hd => (hrep d hd).mono (Nat.zero_le m)))
  have hr : Sym.rule r' = r.item := by simpa using hr'
  exact hitem r' hr.symm d (Nat.le_of_lt_succ hd)

/-- **A condition**: after the comparison, the operand is one token, or none. -/
theorem thrifty_condition
    (ih : ∀ r d, d.weight < c.weight → (recognize o r d).Thrifty (2 * (r.rank + 1))) :
    (recognize o .condition c).Thrifty (2 * (Rule.condition.rank + 1)) := by
  rw [recognize_condition]
  exact thrifty_within (thrifty_tokSeq (m := 4) (by decide) ih fun d _ _ =>
    thrifty_choose (fun _ _ => thrifty_acceptThen fun _ _ _ => thrifty_done _) (thrifty_done _))

/-- **A comparison**: one token, or none. -/
theorem thrifty_conditionalOperator :
    (recognize o .conditionalOperator c).Thrifty (2 * (Rule.conditionalOperator.rank + 1)) := by
  rw [recognize_conditionalOperator]
  exact thrifty_within (n := 0)
    (thrifty_choose (fun _ _ => thrifty_acceptThen fun _ _ _ => thrifty_done _) (thrifty_done _))

/-- **A factor**: a parenthesised expression, one token, or none. -/
theorem thrifty_factor
    (ih : ∀ r d, d.weight < c.weight → (recognize o r d).Thrifty (2 * (r.rank + 1))) :
    (recognize o .factor c).Thrifty (2 * (Rule.factor.rank + 1)) := by
  rw [recognize_factor]
  refine thrifty_within (n := 0) (thrifty_choose (fun _ _ => ?_) (thrifty_done _))
  split
  · exact thrifty_tokSeq (m := 6) (by decide) ih fun _ _ _ => thrifty_done _
  · exact thrifty_acceptThen fun _ _ _ => thrifty_done _

/-- **An assignment**: a string or an expression after the becomes sign, either paid for by the
two tokens before it. -/
theorem thrifty_assignment
    (ih : ∀ r d, d.weight < c.weight → (recognize o r d).Thrifty (2 * (r.rank + 1))) :
    (recognize o .assignment c).Thrifty (2 * (Rule.assignment.rank + 1)) := by
  rw [recognize_assignment]
  refine thrifty_within (n := 0) (thrifty_tokSeq (m := 12) (by decide) ih fun d _ hd => ?_)
  split
  · exact thrifty_tokSeq (m := 18) (by decide) (fun r e he => ih r e (Nat.lt_trans he hd))
      fun _ _ _ => thrifty_done _
  · exact (ih _ d hd).mono (by decide)

/-- **An if statement**: the optional else part, paid for by its keyword, then the closing
keywords. -/
theorem thrifty_ifStatement
    (ih : ∀ r d, d.weight < c.weight → (recognize o r d).Thrifty (2 * (r.rank + 1))) :
    (recognize o .ifStatement c).Thrifty (2 * (Rule.ifStatement.rank + 1)) := by
  rw [recognize_ifStatement]
  refine thrifty_within (n := 0) (thrifty_tokSeq (m := 4) (by decide) ih fun d _ hd => ?_)
  refine (thrifty_bind (a := 0) (b := 0) ?_ fun e he => ?_).mono (by decide)
  · split
    · exact thrifty_tokSeq (m := 6) (by decide) (fun r e he => ih r e (Nat.lt_trans he hd))
        fun e _ he => ih _ e (Nat.lt_trans he hd)
    · exact thrifty_done _
  · exact thrifty_tokSeq (m := 12) (by decide)
      (fun r f hf => ih r f (Nat.lt_trans hf (Nat.lt_of_le_of_lt he hd)))
      fun _ _ _ => thrifty_done _

/-- **A repetition**, in either shape: each round is paid for by its separator. -/
theorem thrifty_repetition {r : Rule}
    (ih : ∀ r' d, d.weight < c.weight → (recognize o r' d).Thrifty (2 * (r'.rank + 1)))
    (ihrep : ∀ d, d.weight < c.weight → (repetition o r d).Thrifty 0) :
    (repetition o r c).Thrifty 0 := by
  -- a round spends at most what the rule itself may, `2 * (2 + 1)`, and the separator earns six
  have hround : ∀ r' d, d.weight < c.weight → (recognize o r' d).Thrifty 6 :=
    fun r' d hd => (ih r' d hd).mono (by have := Rule.rank_le_two r'; omega)
  cases hshape : o.shape with
  | flat =>
    rw [repetition_flat o c hshape]
    split
    · exact thrifty_acceptThen fun t s hd =>
        thrifty_bind (b := 0) (thrifty_symRun fun r' _ => hround r' _ hd)
          fun e he => ihrep e (Nat.lt_of_le_of_lt he hd)
    · exact thrifty_done _
  | nested =>
    rw [repetition_nested o c hshape]
    split
    · exact thrifty_acceptThen fun t s hd =>
        thrifty_bind (b := 0) (hround r _ hd) fun e he => ihrep e (Nat.lt_of_le_of_lt he hd)
    · exact thrifty_done _

end Rules

/-- **Every run pays for its entries and exits.** In both shapes and with either choices, a run of
a rule of rank `k` reports at most six entries and exits for each token it accepts, and
`2 * (k + 1)` more; a run of a repetition reports none it has not paid for. -/
theorem recognize_thrifty (o : Options) :
    (∀ r c, (recognize o r c).Thrifty (2 * (r.rank + 1))) ∧
      ∀ r c, (repetition o r c).Thrifty 0 := by
  refine recognize_induction (fun r c ihlt ihrank ihrep => ?_)
    (fun r c ihlt ihrep => thrifty_repetition ihlt (ihrep r))
  have hitem : ∀ r', r.separators ≠ [] → r.item = .rule r' →
      ∀ d, d.weight ≤ c.weight → (recognize o r' d).Thrifty (2 * (r'.rank + 1)) :=
    fun r' hsep h d hd => ihrank r' d hd (Rule.rank_item_lt hsep h)
  cases r with
  | statementPart => exact thrifty_tokRule rfl (recognize_statementPart o c) (by decide) ihlt
  | statementList =>
    exact thrifty_list (m := 0) (recognize_statementList o c) (by decide) (hitem · (by decide))
      (ihrep _)
  | statement => exact thrifty_statement fun x hx => ihrank x c (Nat.le_refl _) hx
  | assignment => exact thrifty_assignment ihlt
  | ifStatement => exact thrifty_ifStatement ihlt
  | whileStatement => exact thrifty_tokRule rfl (recognize_whileStatement o c) (by decide) ihlt
  | procedureStatement =>
    exact thrifty_tokRule rfl (recognize_procedureStatement o c) (by decide) ihlt
  | untilStatement =>
    rw [recognize_untilStatement]
    exact thrifty_within (n := 0) (thrifty_tokSeq (m := 6) (by decide) ihlt fun d _ hd =>
      (ihlt _ d hd).mono (by decide))
  | forStatement => exact thrifty_tokRule rfl (recognize_forStatement o c) (by decide) ihlt
  | argumentList =>
    exact thrifty_list (m := 6) (recognize_argumentList o c) (by decide) (hitem · (by decide))
      (ihrep _)
  | condition => exact thrifty_condition ihlt
  | conditionalOperator => exact thrifty_conditionalOperator
  | expression =>
    exact thrifty_list (m := 0) (recognize_expression o c) (by decide) (hitem · (by decide))
      (ihrep _)
  | term =>
    exact thrifty_list (m := 0) (recognize_term o c) (by decide) (hitem · (by decide)) (ihrep _)
  | factor => exact thrifty_factor ihlt

/-! ## Programs and single rules -/

namespace Event

/-- Thrifty events are at most seven per accepted token, and `n` more. -/
theorem Thrifty.length_le {n : Nat} {es : List Event} (h : Thrifty n es) :
    es.length ≤ 7 * (terminals es).length + n := by
  rw [length_eq_boundaries_add]
  unfold Thrifty at h
  omega

/-- A token accepted after thrifty events pays for itself. -/
theorem Thrifty.append_terminal {n : Nat} {es : List Event} (h : Thrifty n es) (t : Token) :
    Thrifty n (es ++ [.terminal t]) := by
  unfold Thrifty at *
  simp only [boundaries_append, boundaries_terminal, boundaries_nil, terminals_append,
    terminals_terminal, terminals_nil, List.length_append, List.length_cons, List.length_nil]
  omega

end Event

namespace Recognition

variable {o : Options} {s : TokenSource} {rec : Recognition}

/-- The events of a program are those of its statement part, and at most the end of file after
it, so they are thrifty with the statement part's budget. -/
theorem program_thrifty (h : program o s = .ok rec) : Event.Thrifty 2 rec.events := by
  obtain ⟨t₀, s₀, -, hcase⟩ := program_cases h
  have hrun := ((recognize_thrifty o).1 .statementPart ⟨t₀, s₀⟩).events
  rcases hcase with ⟨es, e, hr, rfl⟩ | ⟨es, d, e, hr, -, -, rfl⟩ |
    ⟨es, d, t, s', hr, -, -, rfl⟩ | ⟨es, d, hr, -, rfl⟩
  · rwa [hr] at hrun
  · rw [hr] at hrun
    exact hrun.append_terminal _
  · rw [hr] at hrun
    exact hrun.append_terminal _
  · rwa [hr] at hrun

theorem single_thrifty {r : Rule} (h : single o r s = .ok rec) :
    Event.Thrifty (2 * (r.rank + 1)) rec.events := by
  obtain ⟨t₀, s₀, -, rfl⟩ := single_of_ok h
  exact ((recognize_thrifty o).1 r ⟨t₀, s₀⟩).events

/-- Only the last terminal of a program can be an end of file: the one after its statement
part. -/
theorem program_dropLast_ne_endOfFile (h : program o s = .ok rec) :
    ∀ t ∈ rec.trace.terminals.dropLast, t.kind ≠ .endOfFile := by
  obtain ⟨t₀, s₀, -, hcase⟩ := program_cases h
  have hc := ((recognize_consumes o).1 .statementPart ⟨t₀, s₀⟩).terminals_ne_endOfFile
  -- the terminals of the statement part, as the program reports them
  have hsp : ∀ es out,
      (recognize o .statementPart ⟨t₀, s₀⟩).recognition = ⟨es, out⟩ →
      ∀ t ∈ Event.terminals es, t.kind ≠ .endOfFile := fun es out hr => by
    have hes : (recognize o .statementPart ⟨t₀, s₀⟩).events = es :=
      congrArg Recognition.events hr
    exact hes ▸ hc
  rcases hcase with ⟨es, e, hr, rfl⟩ | ⟨es, d, e, hr, -, -, rfl⟩ |
    ⟨es, d, t, s', hr, -, -, rfl⟩ | ⟨es, d, hr, -, rfl⟩
  · exact fun t ht => hsp es _ hr t (List.dropLast_subset _ ht)
  · simpa [trace, Trace.terminals_eq] using hsp es _ hr
  · simpa [trace, Trace.terminals_eq] using hsp es _ hr
  · exact fun t ht => hsp es _ hr t (List.dropLast_subset _ ht)

/-- The terminals of a recognition that follows its source are the first tokens it hands out. -/
theorem FollowsSource.take_terminals (h : rec.FollowsSource s) :
    ∃ s', s.take rec.trace.terminals.length = .ok (rec.trace.terminals, s') := by
  unfold FollowsSource at h
  split at h
  · exact TokenSource.take_of_take_succ rfl h
  · obtain ⟨⟨s', htake⟩, -⟩ := h
    exact TokenSource.take_of_take_succ rfl htake
  · obtain ⟨⟨s', htake, -⟩, -⟩ := h
    exact ⟨s', htake⟩

/-- Over a token list, the terminals are the first tokens of the list followed by copies of its
final end of file. -/
theorem terminals_ofTokens {ts : List Token} (h : rec.FollowsSource (.ofTokens ts)) :
    rec.trace.terminals = ts.take rec.trace.terminals.length ++
      List.replicate (rec.trace.terminals.length - ts.length) (TokenSource.finalEnd ts) := by
  obtain ⟨s', htake⟩ := h.take_terminals
  obtain ⟨us, s'', htake', hus, -, -⟩ := TokenSource.take_ofTokens ts rec.trace.terminals.length
  rw [htake] at htake'
  cases htake'
  exact hus

/-- Over a source that yields `ts` and then fails, the terminals are the first tokens of `ts`: no
more than it has, so with no copy of its final end of file after them. -/
theorem terminals_failing {ts : List Token} {d : Diagnostic}
    (h : rec.FollowsSource (.failing ts d)) :
    rec.trace.terminals.length ≤ ts.length ∧
      rec.trace.terminals = ts.take rec.trace.terminals.length ++
        List.replicate (rec.trace.terminals.length - ts.length) (TokenSource.finalEnd ts) := by
  obtain ⟨s', htake⟩ := h.take_terminals
  rw [TokenSource.take_failing] at htake
  split at htake
  · rename_i hle
    simp only [Except.ok.injEq, Prod.mk.injEq] at htake
    refine ⟨hle, ?_⟩
    rw [Nat.sub_eq_zero_of_le hle, List.replicate_zero, List.append_nil]
    exact htake.1.symm
  · cases htake

section Prefixes

variable {ts : List Token}

/-- A program whose terminals are tokens of `ts` padded with its final end of file accepts tokens
before the first end of file of `ts`, then at most one end of file. -/
theorem program_terminals_prefix (h : program o s = .ok rec)
    (hterm : rec.trace.terminals = ts.take rec.trace.terminals.length ++
      List.replicate (rec.trace.terminals.length - ts.length) (TokenSource.finalEnd ts)) :
    rec.trace.terminals <+:
      (ts ++ [TokenSource.finalEnd ts]).take ((TokenSource.beforeEnd ts).length + 1) := by
  rw [hterm]
  exact TokenSource.prefix_beforeEnd_succ (TokenSource.finalEnd_kind ts) ts _
    (hterm ▸ program_dropLast_ne_endOfFile h)

/-- A single rule whose terminals are tokens of `ts` padded with its final end of file accepts
only tokens before the first end of file of `ts`. -/
theorem single_terminals_prefix {r : Rule} (h : single o r s = .ok rec)
    (hterm : rec.trace.terminals = ts.take rec.trace.terminals.length ++
      List.replicate (rec.trace.terminals.length - ts.length) (TokenSource.finalEnd ts)) :
    rec.trace.terminals <+: TokenSource.beforeEnd ts := by
  rw [hterm]
  exact TokenSource.prefix_beforeEnd (TokenSource.finalEnd_kind ts) ts _
    (hterm ▸ (single_followsSource h).2)

end Prefixes

end Recognition

/-- **Every recognition ends, and is short.** Over a token list `ts`, with any options, a program
is recognised, and so is every single rule: they accept only tokens of `ts` before its first end of
file, the program followed at most by the next token handed out, its closing end of file; and they
report at most seven events per accepted token, and two (a program) or `2 * (k + 1)` (a rule of rank
`k`) more. The same holds over a source that yields `ts` and then fails, whenever its first pull
succeeds; when it fails, `ts` was empty. -/
theorem recognition_terminates (o : Options) (ts : List Token) (d : Diagnostic) :
    (∃ rec, Recognition.program o (.ofTokens ts) = .ok rec ∧
      rec.trace.terminals <+:
        (ts ++ [TokenSource.finalEnd ts]).take ((TokenSource.beforeEnd ts).length + 1) ∧
      rec.events.length ≤ 7 * rec.trace.terminals.length + 2) ∧
    (∀ r, ∃ rec, Recognition.single o r (.ofTokens ts) = .ok rec ∧
      rec.trace.terminals <+: TokenSource.beforeEnd ts ∧
      rec.events.length ≤ 7 * rec.trace.terminals.length + 2 * (r.rank + 1)) ∧
    (∀ rec, Recognition.program o (.failing ts d) = .ok rec →
      rec.trace.terminals <+: ts.take ((TokenSource.beforeEnd ts).length + 1) ∧
      rec.events.length ≤ 7 * rec.trace.terminals.length + 2) ∧
    (∀ r rec, Recognition.single o r (.failing ts d) = .ok rec →
      rec.trace.terminals <+: TokenSource.beforeEnd ts ∧
      rec.events.length ≤ 7 * rec.trace.terminals.length + 2 * (r.rank + 1)) ∧
    (∀ e, Recognition.program o (.failing ts d) = .error e → e = d ∧ ts = []) := by
  obtain ⟨t₀, s₀, hpull, -⟩ := (TokenSource.ends_ofTokens ts).pull
  refine ⟨?_, fun r => ?_, fun rec h => ?_, fun r rec h => ?_, fun e he => ?_⟩
  · obtain ⟨rec, h⟩ := Recognition.program_ok (o := o) hpull
    exact ⟨rec, h, Recognition.program_terminals_prefix h
      (Recognition.terminals_ofTokens (Recognition.program_followsSource h).1),
      (Recognition.program_thrifty h).length_le⟩
  · obtain ⟨rec, h⟩ : ∃ rec, Recognition.single o r (.ofTokens ts) = .ok rec := by
      simp only [Recognition.single, Cursor.start, hpull, Except.map]
      exact ⟨_, rfl⟩
    exact ⟨rec, h, Recognition.single_terminals_prefix h
      (Recognition.terminals_ofTokens (Recognition.single_followsSource h).1),
      (Recognition.single_thrifty h).length_le⟩
  · obtain ⟨hle, hterm⟩ :=
      Recognition.terminals_failing (Recognition.program_followsSource h).1
    refine ⟨?_, (Recognition.program_thrifty h).length_le⟩
    -- the tokens taken are tokens of `ts`, so the end of file after `ts` is not among them
    have hlen := (List.prefix_take_iff.1 (Recognition.program_terminals_prefix h hterm)).2
    rw [hterm, Nat.sub_eq_zero_of_le hle, List.replicate_zero, List.append_nil]
    exact List.take_prefix_take_left hlen
  · exact ⟨Recognition.single_terminals_prefix h
      (Recognition.terminals_failing (Recognition.single_followsSource h).1).2,
      (Recognition.single_thrifty h).length_le⟩
  · rw [Recognition.program_eq_error_iff] at he
    cases ts with
    | nil => exact ⟨by simpa [TokenSource.failing] using he.symm, rfl⟩
    | cons t ts => cases he

end SyntaxCheck
