import SyntaxCheck.Proofs.FailFast
import SyntaxCheck.Proofs.Shapes

/-!
# Syntax errors at the earliest token

A list of tokens is a viable prefix when some program begins with it: a sentence of the statement
part followed by an end of file (`ViablePrefix`). A program over a token list that stops with a
syntax error stops at the first token that leaves no program to complete: the tokens it accepted
are viable, they are not once the token it stopped at is added, and every kind its message names
as expected would have kept them viable (`syntax_error_at_longest_viable_prefix`). The grammar is
the strict one when the choices are strict and the lenient one otherwise; the shape of the
repetitions changes nothing, since the nested shape halts as the flat one does.

That what was accepted and what was expected are viable is the soundness of the flat recogniser.
That the token found is not is an argument by contradiction. Had some program begun with the
accepted tokens and that token, the recogniser would walk its derivation to the end from a cursor
that reads it (`recognize_complete`); but a run depends only on the tokens it reads and on the
lookahead where it stops (`recognize_mimics`), so from that cursor it would have stopped, or ended
before the end of file, just as it did here.
-/

namespace SyntaxCheck

open Run

variable {ℓ : Bool}

/-! ## Viable prefixes -/

/-- A list that can be completed to a derivation of the statement part is viable. -/
theorem Completable.viablePrefix {u : List Token} (h : Completable ℓ (.rule .statementPart) u) :
    ViablePrefix ℓ u := by
  obtain ⟨T, hT, hsym, hu⟩ := h
  exact ⟨T.leaves, Token.ofKind .endOfFile, ⟨T, hT, hsym, rfl⟩, rfl,
    hu.trans (List.prefix_append _ _)⟩

/-- A sentence of the statement part, followed by an end of file, is viable. -/
theorem Sentence.viablePrefix {w : List Token} (h : Sentence ℓ .statementPart w) {e : Token}
    (he : e.kind = .endOfFile) : ViablePrefix ℓ (w ++ [e]) :=
  ⟨w, e, h, he, List.prefix_refl _⟩

/-- What begins a viable prefix is viable. -/
theorem ViablePrefix.mono {u v : List Token} (h : ViablePrefix ℓ v) (huv : u <+: v) :
    ViablePrefix ℓ u := by
  obtain ⟨w, e, hw, he, hv⟩ := h
  exact ⟨w, e, hw, he, huv.trans hv⟩

/-- A list that each token of some kinds, of which there are some, continues to a viable prefix
is viable. -/
theorem ViablePrefix.of_continuation {u : List Token} {ks : List TokenKind} (hks : ks ≠ [])
    (h : ∀ t : Token, t.kind ∈ ks → ViablePrefix ℓ (u ++ [t])) : ViablePrefix ℓ u := by
  obtain ⟨k, hk⟩ := List.exists_mem_of_ne_nil ks hks
  exact (h (Token.ofKind k) (by simpa using hk)).mono (List.prefix_append _ _)

/-- A cursor that reads `w` reads every list that begins `w`, up to the token after it. -/
theorem Cursor.Reads.initial {c d : Cursor} {w : List Token} (h : c.Reads w d) :
    ∀ {u : List Token} {t : Token}, u ++ [t] <+: w ++ [d.lookahead] →
      ∃ m, c.Reads u m ∧ m.lookahead = t := by
  induction h with
  | nil c =>
    intro u t hp
    cases u with
    | nil =>
      simp only [List.nil_append, List.cons_prefix_cons, List.nil_prefix, and_true] at hp
      exact ⟨c, .nil c, hp.symm⟩
    | cons a u =>
      have := hp.length_le
      simp at this
  | @cons c d t' s w hp _ ih =>
    intro u t hpre
    cases u with
    | nil =>
      simp only [List.nil_append, List.cons_append, List.cons_prefix_cons, List.nil_prefix,
        and_true] at hpre
      exact ⟨c, .nil c, hpre.symm⟩
    | cons a u =>
      -- the first token is the lookahead, and the rest begins what is read after it
      simp only [List.cons_append, List.cons_prefix_cons] at hpre
      obtain ⟨rfl, hpre⟩ := hpre
      obtain ⟨m, hm, hmt⟩ := ih hpre
      exact ⟨m, .cons hp hm, hmt⟩

/-! ## Where a statement part cannot stop -/

section Flat

variable {o : Options}

/-- **A statement part goes on wherever a program could.** If the tokens `u`, then `t`, begin a
program, a flat run of the statement part that accepted `u` neither stops at `t` with a mismatch
nor ends at `t`, unless `t` is an end of file. -/
theorem statementPart_goes_on (hflat : o.shape = .flat) {u : List Token} {t : Token}
    (hv : ViablePrefix (!o.strict) (u ++ [t])) {c : Cursor} {es : List Event}
    (hu : Event.terminals es = u) :
    (∀ x, (recognize o .statementPart c).recognition ≠ ⟨es, .error (.mismatch t x)⟩) ∧
    ∀ d : Cursor, (recognize o .statementPart c).recognition = ⟨es, .ok d⟩ →
      d.lookahead = t → t.kind = .endOfFile := by
  obtain ⟨w, e, ⟨T, hT, hsym, rfl⟩, he, hpre⟩ := hv
  -- a cursor that reads the program, from which the recogniser walks its derivation to the end
  obtain ⟨c₁, d₁, hr₁, rfl⟩ := Cursor.exists_reads T.leaves e
  have hwalk := recognize_complete o hflat hT .statementPart hsym c₁ d₁ hr₁
    (by simp [Rule.follow, he])
  obtain ⟨m₁, hm₁, hmt⟩ := hr₁.initial hpre
  rw [← hu] at hm₁
  have hmimic := (recognize_mimics o).1 .statementPart c c₁
  have hcons := (recognize_consumes o).1 .statementPart c
  refine ⟨fun x hrun => ?_, fun d hrun hdt => ?_⟩
  · -- from `c₁` the run would stop at the same token, before the end of the derivation
    obtain ⟨m, hm, hmt', -⟩ := hcons.of_recognition_error hrun
    have hstop := hmimic.of_recognition_error hrun m m₁ x (by rw [hmt']) hm.1 hm₁
      (by rw [hmt', hmt])
    rw [hwalk] at hstop
    cases hstop
  · -- from `c₁` the run would end at the same token, which is where the derivation ends
    have hend := hmimic.of_recognition_ok hrun m₁ (hcons.of_recognition_ok hrun).1 hm₁
      (by rw [hdt, hmt])
    rw [hwalk] at hend
    simp only [Recognition.mk.injEq, Except.ok.injEq] at hend
    obtain ⟨-, rfl⟩ := hend
    rw [← hmt]
    exact he

end Flat

/-! ## Programs -/

namespace Recognition

/-- **How a program stops at a mismatch**: its statement part stopped there, or ended at a token
that is no end of file, where the program expected one. -/
theorem program_mismatch {o : Options} {s : TokenSource} {rec : Recognition} {t : Token}
    {x : Expected} (h : program o s = .ok rec) (hhalt : rec.outcome = .error (.mismatch t x)) :
    ∃ t₀ s₀, s.pull = .ok (t₀, s₀) ∧
      ((recognize o .statementPart ⟨t₀, s₀⟩).recognition =
          ⟨rec.events, .error (.mismatch t x)⟩ ∨
        ∃ d : Cursor, (recognize o .statementPart ⟨t₀, s₀⟩).recognition = ⟨rec.events, .ok d⟩ ∧
          d.lookahead = t ∧ t.kind ≠ .endOfFile ∧ x = .kind .endOfFile) := by
  obtain ⟨t₀, s₀, hs, ⟨es, e, hrun, rfl⟩ | ⟨es, d, e, -, -, -, rfl⟩ | ⟨es, d, t', s', -, -, -, rfl⟩ |
    ⟨es, d, hrun, heof, rfl⟩⟩ := program_cases h
  · cases hhalt
    exact ⟨t₀, s₀, hs, .inl hrun⟩
  · cases hhalt
  · cases hhalt
  · cases hhalt
    exact ⟨t₀, s₀, hs, .inr ⟨d, hrun, rfl, heof, rfl⟩⟩

end Recognition

/-- **A flat program stops at the first token that no program continues**, and what it names as
expected continues the tokens it accepted. -/
theorem flat_mismatch_at_unviable {o : Options} (hflat : o.shape = .flat) {s : TokenSource}
    {rec : Recognition} {t : Token} {x : Expected} (h : Recognition.program o s = .ok rec)
    (hhalt : rec.outcome = .error (.mismatch t x)) :
    x.kinds ≠ [] ∧ ¬ ViablePrefix (!o.strict) (rec.trace.terminals ++ [t]) ∧
      ∀ t' : Token, t'.kind ∈ x.kinds → ViablePrefix (!o.strict) (rec.trace.terminals ++ [t']) := by
  obtain ⟨t₀, s₀, -, hcase⟩ := Recognition.program_mismatch h hhalt
  have hsound := (recognize_sound o hflat).1 .statementPart ⟨t₀, s₀⟩
  rw [Trace.terminals_eq]
  rcases hcase with hrun | ⟨d, hrun, rfl, ht, rfl⟩
  · -- the statement part stopped, naming kinds that continue what it accepted
    obtain ⟨-, -, -, hne⟩ :=
      ((recognize_consumes o).1 .statementPart ⟨t₀, s₀⟩).of_recognition_error hrun
    exact ⟨hne, fun hv => (statementPart_goes_on hflat hv rfl).1 x hrun,
      fun t' ht' => (hsound.of_recognition_error hrun t' ht').viablePrefix⟩
  · -- the statement part ended on a sentence, which only an end of file can follow
    obtain ⟨T, hT, hsym, hes⟩ := hsound.of_recognition_ok hrun
    have hw : Sentence (!o.strict) .statementPart (Event.terminals rec.events) :=
      ⟨T, hT, hsym, by rw [hes, Tree.terminals_events]⟩
    refine ⟨List.cons_ne_nil _ _, fun hv => ht ((statementPart_goes_on hflat hv rfl).2 d hrun rfl),
      fun t' ht' => hw.viablePrefix ?_⟩
    simpa [Expected.kinds] using ht'

/-- Over a token list, a program in either shape halts as the flat program with the same choices
halts, after the same tokens. -/
theorem program_as_flat (o : Options) (ts : List Token) {rec : Recognition}
    (h : Recognition.program o (TokenSource.ofTokens ts) = .ok rec) :
    ∃ rec₀, Recognition.program ⟨.flat, o.strict⟩ (TokenSource.ofTokens ts) = .ok rec₀ ∧
      rec.outcome = rec₀.outcome ∧ rec.trace.terminals = rec₀.trace.terminals := by
  obtain ⟨shape, strict⟩ := o
  cases shape with
  | flat => exact ⟨rec, h, rfl, rfl⟩
  | nested =>
    have hn : Recognition.program ⟨.nested, strict⟩ (TokenSource.ofTokens ts) =
        (Recognition.program ⟨.flat, strict⟩ (TokenSource.ofTokens ts)).map Recognition.nest :=
      program_nests (by rfl) (by rfl) (by rfl) (TokenSource.ends_ofTokens ts)
    rw [hn] at h
    cases h₀ : Recognition.program ⟨.flat, strict⟩ (TokenSource.ofTokens ts) with
    | error e =>
      rw [h₀] at h
      cases h
    | ok rec₀ =>
      rw [h₀] at h
      cases h
      exact ⟨rec₀, rfl, rfl, rec₀.terminals_nest⟩

/-- **Syntax errors are found at the earliest token.** When a program over a token list stops with
a syntax error, in either shape and with either choices, the tokens it accepted are the first the
source handed out and the token it stopped at the next one; its message names that token and what
was expected; the accepted tokens begin some program, with that token they begin none, and each
token of a kind the message names as expected would have begun one. -/
theorem syntax_error_at_longest_viable_prefix (o : Options) (ts : List Token) {rec : Recognition}
    {t : Token} {x : Expected} (h : Recognition.program o (TokenSource.ofTokens ts) = .ok rec)
    (hhalt : rec.outcome = .error (.mismatch t x)) :
    (∃ s, (TokenSource.ofTokens ts).take (rec.trace.terminals.length + 1) =
      .ok (rec.trace.terminals ++ [t], s)) ∧
    rec.trace.error = some (Halt.mismatchMessage t x) ∧
    ViablePrefix (!o.strict) rec.trace.terminals ∧
    ¬ ViablePrefix (!o.strict) (rec.trace.terminals ++ [t]) ∧
    ∀ t' : Token, t'.kind ∈ x.kinds → ViablePrefix (!o.strict) (rec.trace.terminals ++ [t']) := by
  have hfollow := (Recognition.program_followsSource h).1
  simp only [Recognition.FollowsSource, hhalt] at hfollow
  -- the flat program with the same choices halts in the same way after the same tokens
  obtain ⟨rec₀, h₀, hout, hterm⟩ := program_as_flat o ts h
  obtain ⟨hne, hnot, hcont⟩ := flat_mismatch_at_unviable rfl h₀ (hout ▸ hhalt)
  rw [← hterm] at hnot hcont
  exact ⟨hfollow.1, hfollow.2.1, ViablePrefix.of_continuation hne hcont, hnot, hcont⟩

/-! ## A program refused after accepted tokens -/

section Runs

variable {o : Options} {c d : Cursor}

/-- A factor at a token that starts one, other than an opening parenthesis, is that token. -/
theorem recognition_factor_token (hk : c.lookahead.kind ∈ Choice.factorStarts)
    (hparen : c.lookahead.kind ≠ .openParen) (hp : c.source.pull = .ok (d.lookahead, d.source)) :
    (recognize o .factor c).recognition =
      ⟨.enter .factor :: [.terminal c.lookahead] ++ [.exit .factor], .ok d⟩ := by
  rw [recognize_factor, choose_of_mem hk]
  apply recognition_within_ok
  rw [if_neg hparen, recognition_acceptThen_of_pull rfl hp]
  rfl

/-- A list rule whose item ends before a token that separates none of its items is that item. -/
theorem recognition_list_of_item (hflat : o.shape = .flat) {r x : Rule} {es : List Event}
    (heq : recognize o r c = within r (seqRun o [.rule x] c fun d _ => repetition o r d))
    (hitem : (recognize o x c).recognition = ⟨es, .ok d⟩) (hsep : d.lookahead.kind ∉ r.separators) :
    (recognize o r c).recognition = ⟨.enter r :: es ++ [.exit r], .ok d⟩ := by
  rw [heq]
  apply recognition_within_ok
  rw [seqRun, recognition_bind_ok hitem, seqRun, repetition_flat o d hflat, dif_neg hsep,
    recognition_done, Recognition.prepend_mk, List.append_nil]

end Runs

/-- A statement list cannot end with a semicolon: the tokens of `begin x := 1 ; end`, read with
strict choices, are refused at `end`, after the five tokens before it, which some program begins
with, while no program begins with all six; each kind that starts a statement would have kept
them viable. -/
theorem trailing_semicolon_refused_at_end :
    let p : Position := ⟨1, "tokens"⟩
    let b : Token := ⟨.kwBegin, "begin", p⟩
    let x : Token := ⟨.identifier, "x", p⟩
    let bc : Token := ⟨.becomes, ":=", p⟩
    let one : Token := ⟨.number, "1", p⟩
    let semi : Token := ⟨.semicolon, ";", p⟩
    let e : Token := ⟨.kwEnd, "end", p⟩
    let found : Recognition := ⟨[.enter .statementPart, .terminal b, .enter .statementList,
      .enter .statement, .enter .assignment, .terminal x, .terminal bc, .enter .expression,
      .enter .term, .enter .factor, .terminal one, .exit .factor, .exit .term, .exit .expression,
      .exit .assignment, .exit .statement, .terminal semi, .enter .statement],
      .error (.mismatch e (.oneOf Choice.statementStarts))⟩
    (Recognition.program ⟨.flat, true⟩ (.ofTokens [b, x, bc, one, semi, e]) = .ok found ∧
      found.outcome = .error (.mismatch e (.oneOf Choice.statementStarts))) ∧
    found.trace.terminals = [b, x, bc, one, semi] ∧
    (∃ s, (TokenSource.ofTokens [b, x, bc, one, semi, e]).take
        (found.trace.terminals.length + 1) = .ok (found.trace.terminals ++ [e], s)) ∧
    found.trace.error = some (Halt.mismatchMessage e (.oneOf Choice.statementStarts)) ∧
    ViablePrefix false found.trace.terminals ∧
    ¬ ViablePrefix false (found.trace.terminals ++ [e]) ∧
    ∀ t' : Token, t'.kind ∈ (Expected.oneOf Choice.statementStarts).kinds →
      ViablePrefix false (found.trace.terminals ++ [t']) := by
  intro p b x bc one semi e found
  let o : Options := ⟨.flat, true⟩
  let T : Tail := .ends "" p
  let c0 : Cursor := ⟨b, ⟨[x, bc, one, semi, e], T⟩⟩
  let c1 : Cursor := ⟨x, ⟨[bc, one, semi, e], T⟩⟩
  let c2 : Cursor := ⟨bc, ⟨[one, semi, e], T⟩⟩
  let c3 : Cursor := ⟨one, ⟨[semi, e], T⟩⟩
  let c4 : Cursor := ⟨semi, ⟨[e], T⟩⟩
  let c5 : Cursor := ⟨e, ⟨[], T⟩⟩
  -- each pull hands out the next token
  have hp0 : c0.source.pull = .ok (c1.lookahead, c1.source) := rfl
  have hp1 : c1.source.pull = .ok (c2.lookahead, c2.source) := rfl
  have hp2 : c2.source.pull = .ok (c3.lookahead, c3.source) := rfl
  have hp3 : c3.source.pull = .ok (c4.lookahead, c4.source) := rfl
  have hp4 : c4.source.pull = .ok (c5.lookahead, c5.source) := rfl
  -- the events of each rule around `x := 1`, innermost first
  let factorEs : List Event := .enter .factor :: [.terminal one] ++ [.exit .factor]
  let exprEs : List Event :=
    .enter .expression :: (.enter .term :: factorEs ++ [.exit .term]) ++ [.exit .expression]
  let assignEs : List Event :=
    .enter .assignment :: ([.terminal x, .terminal bc] ++ exprEs) ++ [.exit .assignment]
  let statementEs : List Event := .enter .statement :: assignEs ++ [.exit .statement]
  let refused : Halt := .mismatch e (.oneOf Choice.statementStarts)
  -- the assignment `x := 1` ends before the semicolon
  have hexpr : (recognize o .expression c3).recognition = ⟨exprEs, .ok c4⟩ :=
    recognition_list_of_item rfl (recognize_expression o c3)
      (recognition_list_of_item rfl (recognize_term o c3)
        (recognition_factor_token (by decide) (by decide) hp3) (by decide)) (by decide)
  have hassign : (recognize o .assignment c1).recognition = ⟨assignEs, .ok c4⟩ := by
    rw [recognize_assignment]
    apply recognition_within_ok
    rw [seqRun, dif_neg (by decide), recognition_acceptThen_of_pull rfl hp1, seqRun,
      dif_neg (by decide), recognition_acceptThen_of_pull rfl hp2, seqRun]
    simp only
    rw [if_neg (by decide), hexpr]
    rfl
  have hstatement : (recognize o .statement c1).recognition = ⟨statementEs, .ok c4⟩ := by
    rw [recognize_statement_of_start (show (TokenKind.identifier, Rule.assignment) ∈ statementKinds
      by decide) rfl]
    exact recognition_within_ok hassign
  -- after the semicolon, `end` starts no statement, and a strict choice refuses it
  have hrepeat : (repetition o .statementList c4).recognition =
      ⟨[.terminal semi, .enter .statement], .error refused⟩ := by
    have hnext :
        (recognize o .statement c5).recognition = ⟨[.enter .statement], .error refused⟩ := by
      rw [recognize_statement, choose_of_not_mem (by decide), if_pos rfl]
      exact recognition_within_error (recognition_halt _)
    rw [repetition_flat o c4 rfl, dif_pos (by decide), recognition_acceptThen_of_pull rfl hp4]
    show ((recognize o .statement c5).bind _).recognition.prepend _ = _
    rw [recognition_bind_error hnext]
    rfl
  have hlist : (recognize o .statementList c1).recognition =
      ⟨.enter .statementList :: (statementEs ++ [.terminal semi, .enter .statement]),
        .error refused⟩ := by
    rw [recognize_statementList]
    apply recognition_within_error
    rw [seqRun, recognition_bind_ok hstatement, seqRun, hrepeat]
    rfl
  have hpart : (recognize o .statementPart c0).recognition =
      ⟨.enter .statementPart :: .terminal b :: .enter .statementList ::
        (statementEs ++ [.terminal semi, .enter .statement]), .error refused⟩ := by
    rw [recognize_statementPart]
    apply recognition_within_error
    rw [seqRun, dif_neg (by decide), recognition_acceptThen_of_pull rfl hp0, seqRun,
      recognition_bind_error hlist]
    rfl
  -- the program stops inside its statement part
  have hprog : Recognition.program o (.ofTokens [b, x, bc, one, semi, e]) = .ok found := by
    rw [Recognition.program,
      show Cursor.start (.ofTokens [b, x, bc, one, semi, e]) = .ok c0 from rfl]
    simp only [Except.map]
    rw [hpart]
    rfl
  exact ⟨⟨hprog, rfl⟩, rfl, syntax_error_at_longest_viable_prefix o _ hprog rfl⟩

end SyntaxCheck
