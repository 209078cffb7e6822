import SyntaxCheck.Proofs.Completeness

/-!
# Relations that every step keeps

Two recognisers with options `o` and `o'` of the same shape run the same code from the same
cursor: the same entries and exits, the same tokens expected, the same calls. They can only part
where a choice finds no alternative, which each does as its own options say. So a relation between
runs from one cursor that every step keeps (`Run.Kept`: the run that does nothing, a rule's body
between its entry and exit, accepting a token, binding, choosing) holds between the two
recognitions of every rule, from every cursor (`Run.Kept.recognize`). A property of single runs is
the relation that looks only at its first run, with `o' = o`.

The steps a rule is made of never expect an end of file, so the relation need not be kept by a
halt that expects one: the sequences of every rule are checked to hold no end-of-file token.

This is the one induction along the recogniser behind the theorems on brackets and on lenient
choices; each of them only shows that its relation is kept by the five steps. The transport also
keeps the bodies apart (`Run.Kept.bodies`): every rule is its body between its entry and its exit,
and the bodies are related.
-/

namespace SyntaxCheck

open Run

/-- A relation between runs from the same cursor, for recognisers with options `o` and `o'`, that
each step of a run keeps: the runs that do nothing are related; a rule's entry and exit around
related bodies, the acceptance of a token before related continuations, and the binding of related
runs to related continuations give related runs; and so does a choice among related alternatives,
made by `o` on one side and by `o'` on the other. -/
structure Run.Kept (o o' : Options) (R : ∀ {c : Cursor}, Run c → Run c → Prop) : Prop where
  done : ∀ c, R (Run.done c) (Run.done c)
  within : ∀ {c : Cursor} (x : Rule) {b b' : Run c}, R b b' →
    R (Run.within x b) (Run.within x b')
  acceptThen : ∀ {c : Cursor} (k : TokenKind) (hk : k ≠ .endOfFile)
    {next next' : (d : Cursor) → d.weight < c.weight → Run d},
    (∀ t s hd, R (next ⟨t, s⟩ hd) (next' ⟨t, s⟩ hd)) →
    R (Run.acceptThen k hk c next) (Run.acceptThen k hk c next')
  bind : ∀ {c : Cursor} {r r' : Run c} {k k' : (d : Cursor) → d.weight ≤ c.weight → Run d},
    R r r' → (∀ d hd, R (k d hd) (k' d hd)) → R (r.bind k) (r'.bind k')
  choose : ∀ {c : Cursor} (ks : List TokenKind) (hks : TokenKind.endOfFile ∉ ks)
    {pick pick' : (k : TokenKind) → k ≠ .endOfFile → Run c} {otherwise otherwise' : Run c},
    (∀ k hk, R (pick k hk) (pick' k hk)) → R otherwise otherwise' →
    R (Run.choose o ks hks c pick otherwise) (Run.choose o' ks hks c pick' otherwise')

namespace Run.Kept

variable {o o' : Options} {R : ∀ {c : Cursor}, Run c → Run c → Prop}

/-! ## Sequences -/

/-- **A sequence of symbols** without an end-of-file token, when the rules among its symbols are
related (below a bound `B` that the first symbol, if a rule, is also below) and so is what comes
after it. -/
theorem seqRun (hR : Run.Kept o o' R) {B : Nat} (xs : List Sym) (hxs : Sym.tok .endOfFile ∉ xs) :
    ∀ (c : Cursor) (k k' : (d : Cursor) → d.weight ≤ c.weight → Run d),
    c.weight ≤ B → (∀ r, xs.head? = some (.rule r) → c.weight < B) →
    (∀ r d, .rule r ∈ xs → d.weight < B → R (recognize o r d) (recognize o' r d)) →
    (∀ d hd, R (k d hd) (k' d hd)) →
    R (SyntaxCheck.seqRun o xs c k) (SyntaxCheck.seqRun o' xs c k') := by
  induction xs with
  | nil => exact fun c k k' _ _ _ hk => hk c _
  | cons x xs ih =>
    intro c k k' hc hhead hrec hk
    have hxs' : Sym.tok .endOfFile ∉ xs := fun h => hxs (List.mem_cons_of_mem _ h)
    have hrec' : ∀ r d, .rule r ∈ xs → d.weight < B →
        R (recognize o r d) (recognize o' r d) :=
      fun r d hr => hrec r d (List.mem_cons_of_mem _ hr)
    cases x with
    | tok t =>
      have ht : t ≠ .endOfFile := by
        rintro rfl
        exact hxs List.mem_cons_self
      simp only [SyntaxCheck.seqRun, ht, dite_false]
      -- the rest of the sequence starts below `c`, after the accepted token
      exact hR.acceptThen t ht fun t' s hd => ih hxs' _ _ _ (Nat.le_trans (Nat.le_of_lt hd) hc)
        (fun _ _ => Nat.lt_of_lt_of_le hd hc) hrec' fun d _ => hk d _
    | rule r =>
      have hlt : c.weight < B := hhead r rfl
      exact hR.bind (hrec r c List.mem_cons_self hlt) fun d hd =>
        ih hxs' d _ _ (Nat.le_trans hd (Nat.le_of_lt hlt)) (fun _ _ => Nat.lt_of_le_of_lt hd hlt)
          hrec' fun e _ => hk e _

/-- A sequence beginning with a token, then `next`: every rule it calls is called after the token,
at a lighter cursor. -/
theorem tokSeq (hR : Run.Kept o o' R) {c : Cursor} {k : TokenKind} {xs : List Sym}
    (hxs : Sym.tok .endOfFile ∉ Sym.tok k :: xs)
    {next next' : (d : Cursor) → d.weight ≤ c.weight → Run d}
    (ih : ∀ r d, d.weight < c.weight → R (recognize o r d) (recognize o' r d))
    (hnext : ∀ d hd, d.weight < c.weight → R (next d hd) (next' d hd)) :
    R (SyntaxCheck.seqRun o (.tok k :: xs) c next)
      (SyntaxCheck.seqRun o' (.tok k :: xs) c next') := by
  have hk : k ≠ .endOfFile := by
    rintro rfl
    exact hxs List.mem_cons_self
  simp only [SyntaxCheck.seqRun, hk, dite_false]
  exact hR.acceptThen k hk fun t s hd =>
    hR.seqRun xs (fun h => hxs (List.mem_cons_of_mem _ h)) _ _ _ (Nat.le_of_lt hd)
      (fun _ _ => hd) (fun r d _ hd' => ih r d hd')
      (fun d hd' => hnext d _ (Nat.lt_of_le_of_lt hd' hd))

/-- One symbol that is not an end-of-file token. -/
theorem symRun (hR : Run.Kept o o' R) {c : Cursor} {x : Sym} (hx : x ≠ .tok .endOfFile)
    (hrule : ∀ r, x = .rule r → R (recognize o r c) (recognize o' r c)) :
    R (SyntaxCheck.symRun o x c) (SyntaxCheck.symRun o' x c) := by
  cases x with
  | tok t =>
    have ht : t ≠ .endOfFile := by
      rintro rfl
      exact hx rfl
    simp only [SyntaxCheck.symRun, ht, dite_false]
    exact hR.acceptThen t ht fun _ _ _ => hR.done _
  | rule r => exact hrule r rfl

/-! ## Rule by rule -/

section Rules

variable {c : Cursor}

/-- **An assignment**: after the becomes sign, a string or an expression, as the lookahead there
decides on both sides alike. -/
theorem assignment (hR : Run.Kept o o' R)
    (ih : ∀ r d, d.weight < c.weight → R (recognize o r d) (recognize o' r d)) :
    R (SyntaxCheck.seqRun o [.tok .identifier, .tok .becomes] c fun d _ =>
        if d.lookahead.kind = .string then
          SyntaxCheck.seqRun o [.tok .string] d fun e _ => Run.done e
        else recognize o .expression d)
      (SyntaxCheck.seqRun o' [.tok .identifier, .tok .becomes] c fun d _ =>
        if d.lookahead.kind = .string then
          SyntaxCheck.seqRun o' [.tok .string] d fun e _ => Run.done e
        else recognize o' .expression d) := by
  refine hR.tokSeq (by decide) ih fun d _ hd => ?_
  split
  · exact hR.tokSeq (by decide) (fun r e he => ih r e (Nat.lt_trans he hd)) fun e _ _ => hR.done e
  · exact ih _ d hd

/-- **An if statement**: the optional else part, as the lookahead after the first statements
decides, then the closing keywords. -/
theorem ifStatement (hR : Run.Kept o o' R)
    (ih : ∀ r d, d.weight < c.weight → R (recognize o r d) (recognize o' r d)) :
    R (SyntaxCheck.seqRun o [.tok .kwIf, .rule .condition, .tok .kwThen, .rule .statementList] c
        fun d _ => (if d.lookahead.kind = .kwElse then
            SyntaxCheck.seqRun o [.tok .kwElse] d fun e _ => recognize o .statementList e
          else Run.done d).bind fun e _ =>
        SyntaxCheck.seqRun o [.tok .kwEnd, .tok .kwIf] e fun f _ => Run.done f)
      (SyntaxCheck.seqRun o' [.tok .kwIf, .rule .condition, .tok .kwThen, .rule .statementList] c
        fun d _ => (if d.lookahead.kind = .kwElse then
            SyntaxCheck.seqRun o' [.tok .kwElse] d fun e _ => recognize o' .statementList e
          else Run.done d).bind fun e _ =>
        SyntaxCheck.seqRun o' [.tok .kwEnd, .tok .kwIf] e fun f _ => Run.done f) := by
  refine hR.tokSeq (by decide) ih fun d _ hd => hR.bind ?_ fun e he => ?_
  · split
    · exact hR.tokSeq (by decide) (fun r e he => ih r e (Nat.lt_trans he hd))
        fun e _ he => ih _ e (Nat.lt_trans he hd)
    · exact hR.done d
  · exact hR.tokSeq (by decide) (fun r f hf => ih r f (Nat.lt_trans hf (Nat.lt_of_le_of_lt he hd)))
      fun f _ _ => hR.done f

/-- **A condition**: the operand after the comparison is one token, or none. -/
theorem condition (hR : Run.Kept o o' R)
    (ih : ∀ r d, d.weight < c.weight → R (recognize o r d) (recognize o' r d)) :
    R (SyntaxCheck.seqRun o [.tok .identifier, .rule .conditionalOperator] c fun d _ =>
        Run.choose o Choice.operands endOfFile_not_mem_operands d
          (fun k hk => Run.acceptThen k hk d fun e _ => Run.done e) (Run.done d))
      (SyntaxCheck.seqRun o' [.tok .identifier, .rule .conditionalOperator] c fun d _ =>
        Run.choose o' Choice.operands endOfFile_not_mem_operands d
          (fun k hk => Run.acceptThen k hk d fun e _ => Run.done e) (Run.done d)) :=
  hR.tokSeq (by decide) ih fun d _ _ =>
    hR.choose _ _ (fun k hk => hR.acceptThen k hk fun _ _ _ => hR.done _) (hR.done d)

/-- **A comparison**: one token, or none. -/
theorem conditionalOperator (hR : Run.Kept o o' R) :
    R (Run.choose o Choice.comparisons endOfFile_not_mem_comparisons c
        (fun k hk => Run.acceptThen k hk c fun d _ => Run.done d) (Run.done c))
      (Run.choose o' Choice.comparisons endOfFile_not_mem_comparisons c
        (fun k hk => Run.acceptThen k hk c fun d _ => Run.done d) (Run.done c)) :=
  hR.choose _ _ (fun k hk => hR.acceptThen k hk fun _ _ _ => hR.done _) (hR.done c)

/-- **A factor**: a parenthesised expression, one token, or none. -/
theorem factor (hR : Run.Kept o o' R)
    (ih : ∀ r d, d.weight < c.weight → R (recognize o r d) (recognize o' r d)) :
    R (Run.choose o Choice.factorStarts endOfFile_not_mem_factorStarts c
        (fun k hk =>
          if k = .openParen then
            SyntaxCheck.seqRun o [.tok .openParen, .rule .expression, .tok .closeParen] c
              fun d _ => Run.done d
          else Run.acceptThen k hk c fun d _ => Run.done d)
        (Run.done c))
      (Run.choose o' Choice.factorStarts endOfFile_not_mem_factorStarts c
        (fun k hk =>
          if k = .openParen then
            SyntaxCheck.seqRun o' [.tok .openParen, .rule .expression, .tok .closeParen] c
              fun d _ => Run.done d
          else Run.acceptThen k hk c fun d _ => Run.done d)
        (Run.done c)) := by
  refine hR.choose _ _ (fun k hk => ?_) (hR.done c)
  split
  · exact hR.tokSeq (by decide) ih fun d _ _ => hR.done d
  · exact hR.acceptThen k hk fun _ _ _ => hR.done _

/-- **A repetition**, in the shape both recognisers share: a separator, then an item or the whole
list rule again, as long as the lookahead is a separator. -/
theorem repetition (hR : Run.Kept o o' R) (hshape : o.shape = o'.shape) {r : Rule}
    (ih : ∀ r' d, d.weight < c.weight → R (recognize o r' d) (recognize o' r' d))
    (ihrep : ∀ d, d.weight < c.weight →
      R (SyntaxCheck.repetition o r d) (SyntaxCheck.repetition o' r d)) :
    R (SyntaxCheck.repetition o r c) (SyntaxCheck.repetition o' r c) := by
  cases h : o.shape with
  | flat =>
    rw [repetition_flat o c h, repetition_flat o' c (hshape ▸ h)]
    split
    · exact hR.acceptThen _ _ fun t s hd => hR.bind
        (hR.symRun (Rule.item_ne_endOfFile r) fun r' _ => ih r' _ hd)
        fun e he => ihrep e (Nat.lt_of_le_of_lt he hd)
    · exact hR.done c
  | nested =>
    rw [repetition_nested o c h, repetition_nested o' c (hshape ▸ h)]
    split
    · exact hR.acceptThen _ _ fun t s hd => hR.bind (ih r _ hd)
        fun e he => ihrep e (Nat.lt_of_le_of_lt he hd)
    · exact hR.done c

end Rules

/-- **Every rule is its body between its entry and its exit, and the steps keep the bodies
related.** For recognisers of the same shape, whatever their choices, the two recognitions of a
rule from any cursor enter the rule, run bodies that `R` relates and leave the rule; the two
repetitions of a list rule are related. -/
theorem bodies (hR : Run.Kept o o' R) (hshape : o.shape = o'.shape) :
    (∀ r c, ∃ body body' : Run c, SyntaxCheck.recognize o r c = Run.within r body ∧
      SyntaxCheck.recognize o' r c = Run.within r body' ∧ R body body') ∧
    ∀ r c, R (SyntaxCheck.repetition o r c) (SyntaxCheck.repetition o' r c) := by
  -- a rule whose bodies are related is related as a whole
  have rel : ∀ r d, (∃ body body' : Run d, SyntaxCheck.recognize o r d = Run.within r body ∧
      SyntaxCheck.recognize o' r d = Run.within r body' ∧ R body body') →
      R (SyntaxCheck.recognize o r d) (SyntaxCheck.recognize o' r d) := by
    rintro r d ⟨b, b', h, h', hb⟩
    rw [h, h']
    exact hR.within r hb
  refine recognize_induction (fun r c ihlt ihrank ihrep => ?_)
    (fun r c ihlt ihrep => hR.repetition hshape (fun r' d hd => rel r' d (ihlt r' d hd)) (ihrep r))
  have ih : ∀ r' d, d.weight < c.weight → R (SyntaxCheck.recognize o r' d)
      (SyntaxCheck.recognize o' r' d) := fun r' d hd => rel r' d (ihlt r' d hd)
  -- the rules whose body is a sequence beginning with a token, then nothing
  have hseq : ∀ {k xs}, Sym.tok .endOfFile ∉ Sym.tok k :: xs →
      (∀ o, SyntaxCheck.recognize o r c =
        Run.within r (SyntaxCheck.seqRun o (.tok k :: xs) c fun d _ => Run.done d)) →
      ∃ body body' : Run c, SyntaxCheck.recognize o r c = Run.within r body ∧
        SyntaxCheck.recognize o' r c = Run.within r body' ∧ R body body' := fun hxs heq =>
    ⟨_, _, heq o, heq o', hR.tokSeq hxs ih fun d _ _ => hR.done d⟩
  -- a list rule: its item, of lower rank, then its repetition
  have hlist : r.separators ≠ [] →
      R (SyntaxCheck.seqRun o [r.item] c fun d _ => SyntaxCheck.repetition o r d)
        (SyntaxCheck.seqRun o' [r.item] c fun d _ => SyntaxCheck.repetition o' r d) := fun hsep =>
    hR.seqRun (B := c.weight + 1) [r.item]
      (fun h => Rule.item_ne_endOfFile r (List.mem_singleton.1 h).symm) c _ _ (Nat.le_succ _)
      (fun _ _ => Nat.lt_succ_self _)
      (fun r' d hr' hd => rel r' d (ihrank r' d (Nat.le_of_lt_succ hd)
        (Rule.rank_item_lt hsep (List.mem_singleton.1 hr').symm)))
      fun d hd => ihrep r d hd
  cases r with
  | statementPart => exact hseq (by decide) (recognize_statementPart · c)
  | statementList =>
    exact ⟨_, _, recognize_statementList o c, recognize_statementList o' c, hlist (by decide)⟩
  | statement =>
    refine ⟨_, _, recognize_statement o c, recognize_statement o' c,
      hR.choose _ _ (fun k _ => ?_) (hR.done c)⟩
    -- each kind of statement is a rule of lower rank
    cases k <;> first
      | exact rel _ c (ihrank _ c (Nat.le_refl _) (by decide))
      | exact hR.done c
  | assignment =>
    exact ⟨_, _, recognize_assignment o c, recognize_assignment o' c, hR.assignment ih⟩
  | ifStatement =>
    exact ⟨_, _, recognize_ifStatement o c, recognize_ifStatement o' c, hR.ifStatement ih⟩
  | whileStatement => exact hseq (by decide) (recognize_whileStatement · c)
  | procedureStatement => exact hseq (by decide) (recognize_procedureStatement · c)
  | untilStatement =>
    exact ⟨_, _, recognize_untilStatement o c, recognize_untilStatement o' c,
      hR.tokSeq (by decide) ih fun d _ hd => ih _ d hd⟩
  | forStatement => exact hseq (by decide) (recognize_forStatement · c)
  | argumentList =>
    exact ⟨_, _, recognize_argumentList o c, recognize_argumentList o' c, hlist (by decide)⟩
  | condition =>
    exact ⟨_, _, recognize_condition o c, recognize_condition o' c, hR.condition ih⟩
  | conditionalOperator =>
    exact ⟨_, _, recognize_conditionalOperator o c, recognize_conditionalOperator o' c,
      hR.conditionalOperator⟩
  | expression =>
    exact ⟨_, _, recognize_expression o c, recognize_expression o' c, hlist (by decide)⟩
  | term => exact ⟨_, _, recognize_term o c, recognize_term o' c, hlist (by decide)⟩
  | factor => exact ⟨_, _, recognize_factor o c, recognize_factor o' c, hR.factor ih⟩

/-- **The steps keep a relation between whole recognitions.** For recognisers of the same shape,
the two recognitions of every rule from every cursor are related, and so are the two repetitions of
every list rule. -/
theorem recognize (hR : Run.Kept o o' R) (hshape : o.shape = o'.shape) :
    (∀ r c, R (SyntaxCheck.recognize o r c) (SyntaxCheck.recognize o' r c)) ∧
    ∀ r c, R (SyntaxCheck.repetition o r c) (SyntaxCheck.repetition o' r c) := by
  refine ⟨fun r c => ?_, (hR.bodies hshape).2⟩
  obtain ⟨b, b', h, h', hb⟩ := (hR.bodies hshape).1 r c
  rw [h, h']
  exact hR.within r hb

end Run.Kept

end SyntaxCheck
