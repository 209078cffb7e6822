import SyntaxCheck.Proofs.Consumption

/-!
# What a run depends on

A run looks at its input through the lookahead alone, and pulls the next token only once it has
accepted the lookahead. What it does is therefore decided by the tokens it accepts and by the
lookahead at which it ends or stops: from any other cursor that hands out the same tokens up to
that point, the same code reports the same events, and ends at the cursor reached there, or stops
at the same mismatch (`recognize_mimics`).

This is what makes a syntax error a fact about a prefix of the input: together with the
completeness of the flat recogniser, it rules out a mismatch on any prefix of a sentence.
-/

namespace SyntaxCheck

open Run

/-- Two cursors that hand out the same tokens, up to the same lookahead, start at the same
lookahead. -/
theorem Cursor.Reads.lookahead_eq {c c' d d' : Cursor} {u : List Token} (h : c.Reads u d)
    (h' : c'.Reads u d') (hla : d.lookahead = d'.lookahead) : c.lookahead = c'.lookahead := by
  cases u with
  | nil =>
    rw [Cursor.Reads.nil_iff] at h h'
    subst h h'
    exact hla
  | cons t u => rw [(Cursor.Reads.cons_iff.1 h).1, (Cursor.Reads.cons_iff.1 h').1]

namespace Run

variable {c c' : Cursor}

theorem Sat.and {r : Run c} {ok₁ ok₂ : List Event → Cursor → Prop}
    {err₁ err₂ : List Event → Halt → Prop} (h₁ : r.Sat ok₁ err₁) (h₂ : r.Sat ok₂ err₂) :
    r.Sat (fun es d => ok₁ es d ∧ ok₂ es d) (fun es h => err₁ es h ∧ err₂ es h) := by
  obtain ⟨es, (h | d)⟩ := r
  · exact ⟨h₁, h₂⟩
  · exact ⟨h₁, h₂⟩

theorem Sat.forall {ι : Sort _} {r : Run c} {ok : ι → List Event → Cursor → Prop}
    {err : ι → List Event → Halt → Prop} (h : ∀ i, r.Sat (ok i) (err i)) :
    r.Sat (fun es d => ∀ i, ok i es d) (fun es e => ∀ i, err i es e) := by
  obtain ⟨es, (e | d)⟩ := r
  · exact h
  · exact h

/-- `r'` from `c'` does what `r` does from `c`, once `c'` hands out the tokens that `r` accepted
and then the lookahead at which `r` ended or stopped: it reports the same events, and ends at the
cursor that `c'` has then come to, or stops at the same mismatch. -/
def Mimics (r : Run c) (r' : Run c') : Prop :=
  r.Sat
    (fun es d => ∀ d', c.Reads (Event.terminals es) d → c'.Reads (Event.terminals es) d' →
      d.lookahead = d'.lookahead → r'.recognition = ⟨es, .ok d'⟩)
    (fun es h => ∀ d d' x, h = .mismatch d.lookahead x → c.Reads (Event.terminals es) d →
      c'.Reads (Event.terminals es) d' → d.lookahead = d'.lookahead →
      r'.recognition = ⟨es, .error h⟩)

/-- Whatever a run does from `c`, it did after reading from `c`; so a proof that one run mimics
another may take the two cursors to share their lookahead. -/
theorem Mimics.of_lookahead_eq {r : Run c} {r' : Run c'}
    (h : c.lookahead = c'.lookahead → Mimics r r') : Mimics r r' := by
  obtain ⟨es, (e | ⟨d, hd⟩)⟩ := r
  · intro d d' x hx hr hr' hla
    exact h (hr.lookahead_eq hr' hla) d d' x hx hr hr' hla
  · intro d' hr hr' hla
    exact h (hr.lookahead_eq hr' hla) d' hr hr' hla

/-! ## Each step mimics itself -/

theorem mimics_done : Mimics (done c) (done c') := by
  apply sat_done
  intro d' _ hr' _
  rw [Event.terminals_nil, Cursor.Reads.nil_iff] at hr'
  rw [hr', recognition_done]

theorem mimics_mismatch {x : Expected} :
    Mimics (halt (.mismatch c.lookahead x) : Run c) (halt (.mismatch c'.lookahead x) : Run c') := by
  apply sat_halt
  intro d d' y hy hr hr' hla
  rw [Event.terminals_nil, Cursor.Reads.nil_iff] at hr hr'
  subst hr hr'
  rw [recognition_halt, ← hla]

theorem mimics_within {x : Rule} {body : Run c} {body' : Run c'} (h : Mimics body body') :
    Mimics (within x body) (within x body') := by
  apply sat_within
  refine h.mono (fun es d hd d' hr hr' hla => ?_) (fun es e he d d' y hy hr hr' hla => ?_)
  · simp only [Event.terminals_enter, Event.terminals_append, Event.terminals_exit,
      Event.terminals_nil, List.append_nil] at hr hr'
    exact recognition_within_ok (hd d' hr hr' hla)
  · rw [Event.terminals_enter] at hr hr'
    exact recognition_within_error (he d d' y hy hr hr' hla)

theorem mimics_acceptThen {k : TokenKind} {hk : k ≠ .endOfFile}
    {next : (d : Cursor) → d.weight < c.weight → Run d}
    {next' : (d : Cursor) → d.weight < c'.weight → Run d}
    (hnext : ∀ t s hd t' s' hd', Mimics (next ⟨t, s⟩ hd) (next' ⟨t', s'⟩ hd')) :
    Mimics (acceptThen k hk c next) (acceptThen k hk c' next') := by
  apply sat_acceptThen
  · -- a mismatch at the lookahead, which `c'` shares
    intro hkind d d' x hx hr hr' hla
    rw [Event.terminals_nil, Cursor.Reads.nil_iff] at hr hr'
    subst hr hr'
    rw [recognition_acceptThen_of_ne (hla ▸ hkind), ← hla]
  · intro e _ _ d d' x hx
    cases hx
  · -- the rest of the run starts after the same token, pulled from each source
    intro t s hd hkind hp
    have hmim := Sat.forall fun t' => Sat.forall fun s' => Sat.forall fun hd' =>
      hnext t s hd t' s' hd'
    refine hmim.mono (fun es d hes d' hr hr' hla => ?_) (fun es e hes d d' x hx hr hr' hla => ?_)
    all_goals
      rw [Event.terminals_terminal] at hr hr'
      obtain ⟨-, t₁, s₁, hp₁, hr⟩ := Cursor.Reads.cons_iff.1 hr
      rw [hp, Except.ok.injEq, Prod.mk.injEq] at hp₁
      obtain ⟨rfl, rfl⟩ := hp₁
      obtain ⟨hla', t', s', hp', hr'⟩ := Cursor.Reads.cons_iff.1 hr'
      rw [recognition_acceptThen_of_pull (hla' ▸ hkind) hp']
    · rw [hes t' s' _ d' hr hr' hla, Recognition.prepend_mk, hla']
      rfl
    · rw [hes t' s' _ d d' x hx hr hr' hla, Recognition.prepend_mk, hla']
      rfl

/-- **Binding mimics binding**, when the first run accepts what it reads: both second runs then
start after the same tokens. -/
theorem mimics_bind {r : Run c} {r' : Run c'} {k : (d : Cursor) → d.weight ≤ c.weight → Run d}
    {k' : (d : Cursor) → d.weight ≤ c'.weight → Run d} (hr : r.Consumes) (h : Mimics r r')
    (hk : ∀ d hd d' hd', Mimics (k d hd) (k' d' hd')) : Mimics (r.bind k) (r'.bind k') := by
  apply sat_bind
  refine (h.and hr).mono (fun es₁ d hd hw => ?_)
    (fun es e he d d' x hx hr₁ hr₁' hla => recognition_bind_error (he.1 d d' x hx hr₁ hr₁' hla))
  have hmim := Sat.forall fun d' => Sat.forall fun hd' => hk d hw d' hd'
  refine hmim.mono (fun es₂ e he e' hre hre' hla => ?_)
    (fun es₂ e he f f' x hx hre hre' hla => ?_)
  all_goals
    rw [Event.terminals_append] at hre hre'
    -- where `r` ended is where `c` has read its terminals, and `c'` is at the same lookahead there
    obtain ⟨m, hm, hme⟩ := hre.of_append
    obtain rfl := hd.2.1.eq hm
    obtain ⟨m', hm', hme'⟩ := hre'.of_append
    rw [recognition_bind_ok (hd.1 m' hd.2.1 hm' (hme.lookahead_eq hme' hla))]
  · rw [he m' _ e' hme hme' hla, Recognition.prepend_mk]
  · rw [he m' _ f f' x hx hme hme' hla, Recognition.prepend_mk]

theorem mimics_choose {o : Options} {ks : List TokenKind} {hks : TokenKind.endOfFile ∉ ks}
    {pick : (k : TokenKind) → k ≠ .endOfFile → Run c} {otherwise : Run c}
    {pick' : (k : TokenKind) → k ≠ .endOfFile → Run c'} {otherwise' : Run c'}
    (hpick : ∀ k hk hk', Mimics (pick k hk) (pick' k hk')) (hotherwise : Mimics otherwise otherwise') :
    Mimics (choose o ks hks c pick otherwise) (choose o ks hks c' pick' otherwise') := by
  apply Mimics.of_lookahead_eq
  intro hla
  by_cases hmem : c.lookahead.kind ∈ ks
  · rw [choose_of_mem hmem, choose_of_mem (hla ▸ hmem)]
    have := hpick c.lookahead.kind (fun he => hks (he ▸ hmem)) (fun he => hks (he ▸ hla ▸ hmem))
    simpa only [hla] using this
  · rw [choose_of_not_mem hmem, choose_of_not_mem (hla ▸ hmem)]
    cases o.strict
    · exact hotherwise
    · exact mimics_mismatch

end Run

/-! ## Sequences -/

/-- **A sequence mimics itself**, when the rules among its symbols do (below a bound `B` that the
first symbol, if a rule, is also below) and so does what comes after it. -/
theorem mimics_seqRun {o : Options} {B : Nat} :
    ∀ (xs : List Sym) (c c' : Cursor) (k : (d : Cursor) → d.weight ≤ c.weight → Run d)
      (k' : (d : Cursor) → d.weight ≤ c'.weight → Run d),
    c.weight ≤ B → (∀ r, xs.head? = some (.rule r) → c.weight < B) →
    (∀ r d d', .rule r ∈ xs → d.weight < B → Mimics (recognize o r d) (recognize o r d')) →
    (∀ d hd d' hd', Mimics (k d hd) (k' d' hd')) →
    Mimics (seqRun o xs c k) (seqRun o xs c' k')
  | [], c, c', k, k', _, _, _, hk => hk c _ c' _
  | .tok t :: xs, c, c', k, k', hc, _, hrec, hk => by
    by_cases ht : t = .endOfFile
    · simp only [seqRun, ht, dite_true]
      exact mimics_mismatch
    · simp only [seqRun, ht, dite_false]
      refine mimics_acceptThen fun t₁ s₁ hd t₁' s₁' hd' => ?_
      exact mimics_seqRun xs _ _ _ _ (Nat.le_trans (Nat.le_of_lt hd) hc)
        (fun _ _ => Nat.lt_of_lt_of_le hd hc) (fun r d d' hr => hrec r d d' (List.mem_cons_of_mem _ hr))
        (fun d _ d' _ => hk d _ d' _)
  | .rule r :: xs, c, c', k, k', hc, hhead, hrec, hk => by
    have hlt : c.weight < B := hhead r rfl
    refine mimics_bind ((recognize_consumes o).1 r c) (hrec r c c' (by simp) hlt) fun d hd d' _ => ?_
    exact mimics_seqRun xs d d' _ _ (Nat.le_trans hd (Nat.le_of_lt hlt))
      (fun _ _ => Nat.lt_of_le_of_lt hd hlt) (fun r' e e' hr => hrec r' e e' (List.mem_cons_of_mem _ hr))
      (fun e _ e' _ => hk e _ e' _)

/-! ## Rule by rule -/

section Rules

variable {o : Options} {c c' : Cursor}

/-- A rule whose body is a sequence beginning with a token, then `k`. -/
theorem mimics_tokSeq {k : TokenKind} {xs : List Sym}
    {next : (d : Cursor) → d.weight ≤ c.weight → Run d}
    {next' : (d : Cursor) → d.weight ≤ c'.weight → Run d}
    (ih : ∀ r d, d.weight < c.weight → ∀ d', Mimics (recognize o r d) (recognize o r d'))
    (hnext : ∀ d hd d' hd', d.weight < c.weight → Mimics (next d hd) (next' d' hd')) :
    Mimics (seqRun o (.tok k :: xs) c next) (seqRun o (.tok k :: xs) c' next') := by
  by_cases ht : k = .endOfFile
  · simp only [seqRun, ht, dite_true]
    exact mimics_mismatch
  · simp only [seqRun, ht, dite_false]
    refine mimics_acceptThen fun t s hd t' s' hd' => ?_
    exact mimics_seqRun xs _ _ _ _ (Nat.le_of_lt hd) (fun _ _ => hd) (fun r d d' _ hd' => ih r d hd' d')
      (fun d hd'' d' _ => hnext d _ d' _ (Nat.lt_of_le_of_lt hd'' hd))

theorem mimics_symRun {x : Sym}
    (hrule : ∀ r, x = .rule r → Mimics (recognize o r c) (recognize o r c')) :
    Mimics (symRun o x c) (symRun o x c') := by
  cases x with
  | tok k =>
    by_cases ht : k = .endOfFile
    · simp only [symRun, ht, dite_true]
      exact mimics_mismatch
    · simp only [symRun, ht, dite_false]
      exact mimics_acceptThen fun _ _ _ _ _ _ => mimics_done
  | rule r => exact hrule r rfl

/-- **A statement**: a choice of the kind of statement, or nothing. -/
theorem mimics_statement (hsub : ∀ x : Rule, x.rank < Rule.statement.rank →
    Mimics (recognize o x c) (recognize o x c')) :
    Mimics (recognize o .statement c) (recognize o .statement c') := by
  rw [recognize_statement, recognize_statement]
  refine mimics_within (mimics_choose (fun k _ _ => ?_) mimics_done)
  cases k <;> first | exact hsub _ (by decide) | exact mimics_done

/-- **A list rule**: its first item, then its repetition. -/
theorem mimics_list {r : Rule}
    (heq : ∀ c, recognize o r c = within r (seqRun o [r.item] c fun d _ => repetition o r d))
    (hitem : ∀ r', r.item = .rule r' → ∀ d, d.weight ≤ c.weight → ∀ d',
      Mimics (recognize o r' d) (recognize o r' d'))
    (hrep : ∀ d, d.weight ≤ c.weight → ∀ d', Mimics (repetition o r d) (repetition o r d')) :
    Mimics (recognize o r c) (recognize o r c') := by
  rw [heq c, heq c']
  refine mimics_within (mimics_seqRun (B := c.weight + 1) [r.item] c c' _ _ (Nat.le_succ _)
    (fun _ _ => Nat.lt_succ_self _) (fun r' d d' hr' hd => ?_) (fun d hd d' _ => hrep d hd d'))
  have hr : Sym.rule r' = r.item := by simpa using hr'
  exact hitem r' hr.symm d (Nat.le_of_lt_succ hd) d'

/-- **A condition**: the operand after the comparison is one token, or none. -/
theorem mimics_condition
    (ih : ∀ r d, d.weight < c.weight → ∀ d', Mimics (recognize o r d) (recognize o r d')) :
    Mimics (recognize o .condition c) (recognize o .condition c') := by
  rw [recognize_condition, recognize_condition]
  exact mimics_within (mimics_tokSeq ih fun _ _ _ _ _ =>
    mimics_choose (fun _ _ _ => mimics_acceptThen fun _ _ _ _ _ _ => mimics_done) mimics_done)

/-- **A comparison**: one token, or none. -/
theorem mimics_conditionalOperator :
    Mimics (recognize o .conditionalOperator c) (recognize o .conditionalOperator c') := by
  rw [recognize_conditionalOperator, recognize_conditionalOperator]
  exact mimics_within
    (mimics_choose (fun _ _ _ => mimics_acceptThen fun _ _ _ _ _ _ => mimics_done) mimics_done)

/-- **A factor**: a parenthesised expression, one token, or none. -/
theorem mimics_factor
    (ih : ∀ r d, d.weight < c.weight → ∀ d', Mimics (recognize o r d) (recognize o r d')) :
    Mimics (recognize o .factor c) (recognize o .factor c') := by
  rw [recognize_factor, recognize_factor]
  refine mimics_within (mimics_choose (fun k _ _ => ?_) mimics_done)
  by_cases hk : k = .openParen
  · simp only [hk, if_true]
    exact mimics_tokSeq ih fun _ _ _ _ _ => mimics_done
  · simp only [hk, if_false]
    exact mimics_acceptThen fun _ _ _ _ _ _ => mimics_done

/-- **An assignment**: a string or an expression after the becomes sign, as the lookahead there
decides. -/
theorem mimics_assignment
    (ih : ∀ r d, d.weight < c.weight → ∀ d', Mimics (recognize o r d) (recognize o r d')) :
    Mimics (recognize o .assignment c) (recognize o .assignment c') := by
  rw [recognize_assignment, recognize_assignment]
  refine mimics_within (mimics_tokSeq ih fun d _ d' _ hd => Mimics.of_lookahead_eq fun hla => ?_)
  by_cases hs : d.lookahead.kind = .string
  · simp only [hs, ← hla, if_true]
    exact mimics_tokSeq (fun r e he => ih r e (Nat.lt_trans he hd)) fun _ _ _ _ _ => mimics_done
  · simp only [hs, ← hla, if_false]
    exact ih _ d hd d'

/-- **An if statement**: the optional else part, as the lookahead after the first statements
decides, then the closing keywords. -/
theorem mimics_ifStatement
    (ih : ∀ r d, d.weight < c.weight → ∀ d', Mimics (recognize o r d) (recognize o r d')) :
    Mimics (recognize o .ifStatement c) (recognize o .ifStatement c') := by
  rw [recognize_ifStatement, recognize_ifStatement]
  refine mimics_within (mimics_tokSeq ih fun d _ d' _ hd => ?_)
  have ih' : ∀ r e, e.weight < d.weight → ∀ e', Mimics (recognize o r e) (recognize o r e') :=
    fun r e he => ih r e (Nat.lt_trans he hd)
  -- the else part, or nothing: both accept what they read
  have hcons : (if d.lookahead.kind = .kwElse then
      seqRun o [.tok .kwElse] d fun e _ => recognize o .statementList e else done d).Consumes := by
    split
    · exact consumes_tokSeq (fun r e he => (recognize_consumes o).1 r e)
        fun e _ _ => (recognize_consumes o).1 _ e
    · exact consumes_done
  refine mimics_bind hcons (Mimics.of_lookahead_eq fun hla => ?_) fun e he e' _ => ?_
  · by_cases he : d.lookahead.kind = .kwElse
    · simp only [he, ← hla, if_true]
      exact mimics_tokSeq ih' fun e _ e' _ he => ih' _ e he e'
    · simp only [he, ← hla, if_false]
      exact mimics_done
  · exact mimics_tokSeq (fun r f hf => ih' r f (Nat.lt_of_lt_of_le hf he)) fun _ _ _ _ _ => mimics_done

/-- **A repetition**, in either shape: a separator and an item, or the whole list rule again, as
long as the lookahead is a separator. -/
theorem mimics_repetition {r : Rule}
    (ih : ∀ r' d, d.weight < c.weight → ∀ d', Mimics (recognize o r' d) (recognize o r' d'))
    (ihrep : ∀ d, d.weight < c.weight → ∀ d', Mimics (repetition o r d) (repetition o r d')) :
    Mimics (repetition o r c) (repetition o r c') := by
  apply Mimics.of_lookahead_eq
  intro hla
  cases hshape : o.shape with
  | flat =>
    rw [repetition_flat o c hshape, repetition_flat o c' hshape]
    by_cases hsep : c.lookahead.kind ∈ r.separators
    · rw [dif_pos hsep, dif_pos (hla ▸ hsep)]
      simp only [← hla]
      refine mimics_acceptThen fun t s hd t' s' _ => mimics_bind
        (consumes_symRun fun r' _ => (recognize_consumes o).1 r' _)
        (mimics_symRun fun r' _ => ih r' _ hd _) fun e he e' _ => ihrep e (Nat.lt_of_le_of_lt he hd) e'
    · rw [dif_neg hsep, dif_neg (hla ▸ hsep)]
      exact mimics_done
  | nested =>
    rw [repetition_nested o c hshape, repetition_nested o c' hshape]
    by_cases hsep : c.lookahead.kind ∈ r.separators
    · rw [dif_pos hsep, dif_pos (hla ▸ hsep)]
      simp only [← hla]
      exact mimics_acceptThen fun t s hd t' s' _ => mimics_bind ((recognize_consumes o).1 r _)
        (ih r _ hd _) fun e he e' _ => ihrep e (Nat.lt_of_le_of_lt he hd) e'
    · rw [dif_neg hsep, dif_neg (hla ▸ hsep)]
      exact mimics_done

end Rules

/-- **A run depends only on what it reads.** In both shapes and with either choices, a rule or a
repetition run from any other cursor that hands out the tokens the run from `c` accepted, and then
the lookahead at which it ended or stopped, reports the same events and ends at the cursor reached
there, or stops at the same mismatch. -/
theorem recognize_mimics (o : Options) :
    (∀ r c c', Mimics (recognize o r c) (recognize o r c')) ∧
    ∀ r c c', Mimics (repetition o r c) (repetition o r c') := by
  refine recognize_induction (fun r c ihlt ihrank ihrep => ?_)
    (fun r c ihlt ihrep c' => mimics_repetition ihlt (ihrep r))
  intro c'
  -- the rules whose body starts with a token call other rules only at lighter cursors
  have hseq : ∀ {k xs}, (∀ c, recognize o r c = within r (seqRun o (.tok k :: xs) c fun d _ => done d)) →
      Mimics (recognize o r c) (recognize o r c') := fun heq => by
    rw [heq c, heq c']
    exact mimics_within (mimics_tokSeq ihlt fun _ _ _ _ _ => mimics_done)
  have hitem : ∀ r', r.separators ≠ [] → r.item = .rule r' → ∀ d, d.weight ≤ c.weight → ∀ d',
      Mimics (recognize o r' d) (recognize o r' d') := fun r' hsep h d hd =>
    ihrank r' d hd (Rule.rank_item_lt hsep h)
  cases r with
  | statementPart => exact hseq (recognize_statementPart o)
  | statementList =>
    exact mimics_list (recognize_statementList o) (hitem · (by decide)) (ihrep _)
  | statement => exact mimics_statement fun x hx => ihrank x c (Nat.le_refl _) hx c'
  | assignment => exact mimics_assignment ihlt
  | ifStatement => exact mimics_ifStatement ihlt
  | whileStatement => exact hseq (recognize_whileStatement o)
  | procedureStatement => exact hseq (recognize_procedureStatement o)
  | untilStatement =>
    rw [recognize_untilStatement, recognize_untilStatement]
    exact mimics_within (mimics_tokSeq ihlt fun d _ d' _ hd => ihlt _ d hd d')
  | forStatement => exact hseq (recognize_forStatement o)
  | argumentList =>
    exact mimics_list (recognize_argumentList o) (hitem · (by decide)) (ihrep _)
  | condition => exact mimics_condition ihlt
  | conditionalOperator => exact mimics_conditionalOperator
  | expression => exact mimics_list (recognize_expression o) (hitem · (by decide)) (ihrep _)
  | term => exact mimics_list (recognize_term o) (hitem · (by decide)) (ihrep _)
  | factor => exact mimics_factor ihlt

end SyntaxCheck
