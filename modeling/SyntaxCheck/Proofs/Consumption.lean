import SyntaxCheck.Proofs.Sequences

/-!
# Which tokens a run accepts

A run accepts the tokens its cursor hands out, in order, and nothing else. The terminals it reports
are read from its cursor (`Cursor.Reads`), none of them is an end of file, and where the run stops
the lookahead is the token it found unexpected, where it names at least one kind it expected, or
the run has just accepted a token after which the source failed (`Run.Consumes`). Every step of a run keeps this, so every run of the recogniser
does, in both shapes and with either choices (`recognize_consumes`).
-/

namespace SyntaxCheck

open Run

/-- From `c`, the tokens `u` are read up to `d`, and none of them is an end of file. -/
def Cursor.Accepts (c : Cursor) (u : List Token) (d : Cursor) : Prop :=
  c.Reads u d ∧ ∀ t ∈ u, t.kind ≠ .endOfFile

/-- What a run from `c` that accepted `u` and stopped with this halt has read: up to the token it
found, which is no kind of those it names, and it names some; or up to the last token of `u`,
after which the source failed. -/
def Halt.Consumed (c : Cursor) (u : List Token) : Halt → Prop
  | .mismatch t x => ∃ d, c.Accepts u d ∧ d.lookahead = t ∧ x.kinds ≠ []
  | .unreadable e last => ∃ v d, u = v ++ [last] ∧ c.Accepts v d ∧ d.lookahead = last ∧
      last.kind ≠ .endOfFile ∧ d.source.pull = .error e

/-- A run accepts what its cursor hands out, as long as it goes on. -/
def Run.Consumes {c : Cursor} (r : Run c) : Prop :=
  r.Sat (fun es d => c.Accepts (Event.terminals es) d)
    (fun es h => h.Consumed c (Event.terminals es))

namespace Cursor.Accepts

variable {c d e : Cursor} {u v : List Token}

theorem nil (c : Cursor) : c.Accepts [] c := ⟨.nil c, by simp⟩

theorem cons {t : Token} {s : TokenSource} (hp : c.source.pull = .ok (t, s))
    (hk : c.lookahead.kind ≠ .endOfFile) (h : Cursor.Accepts ⟨t, s⟩ u d) :
    c.Accepts (c.lookahead :: u) d :=
  ⟨.cons hp h.1, by simpa [hk] using h.2⟩

theorem append (h : c.Accepts u d) (h' : d.Accepts v e) : c.Accepts (u ++ v) e :=
  ⟨h.1.append h'.1, fun t ht => (List.mem_append.1 ht).elim (h.2 t) (h'.2 t)⟩

end Cursor.Accepts

namespace Halt.Consumed

variable {c d : Cursor} {u v : List Token} {h : Halt}

/-- A halt after a token accepted from `c` is a halt from `c`. -/
theorem cons {t : Token} {s : TokenSource} (hp : c.source.pull = .ok (t, s))
    (hk : c.lookahead.kind ≠ .endOfFile) (hh : h.Consumed ⟨t, s⟩ u) :
    h.Consumed c (c.lookahead :: u) := by
  cases h with
  | mismatch t' x =>
    obtain ⟨d, hd, hla⟩ := hh
    exact ⟨d, hd.cons hp hk, hla⟩
  | unreadable e last =>
    obtain ⟨v, d, rfl, hd, hla, hlast, hpull⟩ := hh
    exact ⟨c.lookahead :: v, d, rfl, hd.cons hp hk, hla, hlast, hpull⟩

/-- A halt after a run that accepted `u` up to `d` is a halt from where that run started. -/
theorem append (hu : c.Accepts u d) (hh : h.Consumed d v) : h.Consumed c (u ++ v) := by
  cases h with
  | mismatch t' x =>
    obtain ⟨e, he, hla⟩ := hh
    exact ⟨e, hu.append he, hla⟩
  | unreadable e last =>
    obtain ⟨w, f, rfl, hf, hla, hlast, hpull⟩ := hh
    exact ⟨u ++ w, f, by simp, hu.append hf, hla, hlast, hpull⟩

end Halt.Consumed

/-! ## Each step accepts what it reads -/

section Steps

variable {c : Cursor}

theorem consumes_done : (done c).Consumes := Cursor.Accepts.nil c

theorem consumes_mismatch {k : TokenKind} :
    (halt (.mismatch c.lookahead (.kind k)) : Run c).Consumes :=
  ⟨c, Cursor.Accepts.nil c, rfl, List.cons_ne_nil k []⟩

theorem consumes_within {x : Rule} {body : Run c} (h : body.Consumes) :
    (within x body).Consumes := by
  apply sat_within
  exact h.mono (fun es d hd => by simpa using hd) (fun es h hh => by simpa using hh)

theorem consumes_acceptThen {k : TokenKind} {hk : k ≠ .endOfFile}
    {next : (d : Cursor) → d.weight < c.weight → Run d}
    (hnext : ∀ t s hd, c.lookahead.kind = k → c.source.pull = .ok (t, s) →
      (next ⟨t, s⟩ hd).Consumes) :
    (acceptThen k hk c next).Consumes := by
  apply sat_acceptThen
  · exact fun _ => consumes_mismatch
  · intro e hkind hp
    exact ⟨[], c, rfl, Cursor.Accepts.nil c, rfl, hkind ▸ hk, hp⟩
  · intro t s hd hkind hp
    have hne : c.lookahead.kind ≠ .endOfFile := hkind ▸ hk
    exact (hnext t s hd hkind hp).mono (fun es d h => by simpa using h.cons hp hne)
      (fun es h hh => by simpa using hh.cons hp hne)

theorem consumes_bind {r : Run c} {k : (d : Cursor) → d.weight ≤ c.weight → Run d}
    (hr : r.Consumes) (hk : ∀ d hd, (k d hd).Consumes) : (r.bind k).Consumes := by
  apply sat_bind
  refine hr.mono (fun es d hd hw => ?_) (fun es h hh => hh)
  exact (hk d hw).mono (fun es' e he => by simpa using hd.append he)
    (fun es' h hh => by simpa using Halt.Consumed.append hd hh)

theorem consumes_choose {o : Options} {ks : List TokenKind} {hks : TokenKind.endOfFile ∉ ks}
    {pick : (k : TokenKind) → k ≠ .endOfFile → Run c} {otherwise : Run c} (hne : ks ≠ [])
    (hpick : ∀ hk, c.lookahead.kind ∈ ks → (pick c.lookahead.kind hk).Consumes)
    (hotherwise : otherwise.Consumes) : (choose o ks hks c pick otherwise).Consumes := by
  apply sat_choose hpick
  · exact fun _ _ => ⟨c, Cursor.Accepts.nil c, rfl, hne⟩
  · exact fun _ _ => hotherwise

end Steps

/-! ## Sequences -/

/-- **A sequence accepts what it reads**, when the rules among its symbols do (below a bound `B`
that the first symbol, if a rule, is also below) and so does what comes after it. -/
theorem consumes_seqRun {o : Options} {B : Nat} :
    ∀ (xs : List Sym) (c : Cursor) (k : (d : Cursor) → d.weight ≤ c.weight → Run d),
    c.weight ≤ B → (∀ r, xs.head? = some (.rule r) → c.weight < B) →
    (∀ r d, .rule r ∈ xs → d.weight < B → (recognize o r d).Consumes) →
    (∀ d hd, (k d hd).Consumes) →
    (seqRun o xs c k).Consumes
  | [], c, k, _, _, _, hk => hk c (Nat.le_refl _)
  | .tok t :: xs, c, k, hc, _, hrec, hk => by
    unfold seqRun
    split
    · exact consumes_mismatch
    · refine consumes_acceptThen fun t' s hd _ _ => ?_
      exact consumes_seqRun xs _ _ (Nat.le_trans (Nat.le_of_lt hd) hc)
        (fun _ _ => Nat.lt_of_lt_of_le hd hc) (fun r d hr => hrec r d (List.mem_cons_of_mem _ hr))
        (fun d hd' => hk d _)
  | .rule r :: xs, c, k, hc, hhead, hrec, hk => by
    have hlt : c.weight < B := hhead r rfl
    refine consumes_bind (hrec r c (by simp) hlt) fun d hd => ?_
    exact consumes_seqRun xs d _ (Nat.le_trans hd (Nat.le_of_lt hlt))
      (fun _ _ => Nat.lt_of_le_of_lt hd hlt) (fun r' d' hr => hrec r' d' (List.mem_cons_of_mem _ hr))
      (fun e he => hk e _)

/-! ## Rule by rule -/

section Rules

variable {o : Options} {c : Cursor}

/-- A rule whose body is a sequence beginning with a token, then `k`. -/
theorem consumes_tokSeq {k : TokenKind} {xs : List Sym}
    {next : (d : Cursor) → d.weight ≤ c.weight → Run d}
    (ih : ∀ r d, d.weight < c.weight → (recognize o r d).Consumes)
    (hnext : ∀ d hd, d.weight < c.weight → (next d hd).Consumes) :
    (seqRun o (.tok k :: xs) c next).Consumes := by
  unfold seqRun
  split
  · exact consumes_mismatch
  · refine consumes_acceptThen fun t s hd _ _ => ?_
    exact consumes_seqRun xs _ _ (Nat.le_of_lt hd) (fun _ _ => hd) (fun r d _ hd' => ih r d hd')
      (fun d hd' => hnext d _ (Nat.lt_of_le_of_lt hd' hd))

theorem consumes_symRun {x : Sym} (hrule : ∀ r, x = .rule r → (recognize o r c).Consumes) :
    (symRun o x c).Consumes := by
  cases x with
  | tok k =>
    rw [symRun]
    split
    · exact consumes_mismatch
    · exact consumes_acceptThen fun _ _ _ _ _ => consumes_done
  | rule r => exact hrule r rfl

/-- **A statement**: a choice of the kind of statement, or nothing. -/
theorem consumes_statement (hsub : ∀ x : Rule, x.rank < Rule.statement.rank →
    (recognize o x c).Consumes) :
    (recognize o .statement c).Consumes := by
  rw [recognize_statement]
  refine consumes_within (consumes_choose (by decide) (fun _ _ => ?_) consumes_done)
  split <;> first | exact hsub _ (by decide) | exact consumes_done

/-- **A list rule**: its first item, then its repetition. -/
theorem consumes_list {r : Rule}
    (heq : recognize o r c = within r (seqRun o [r.item] c fun d _ => repetition o r d))
    (hitem : ∀ r', r.item = .rule r' → ∀ d, d.weight ≤ c.weight → (recognize o r' d).Consumes)
    (hrep : ∀ d, d.weight ≤ c.weight → (repetition o r d).Consumes) :
    (recognize o r c).Consumes := by
  rw [heq]
  refine consumes_within (consumes_seqRun (B := c.weight + 1) [r.item] c _ (Nat.le_succ _)
    (fun _ _ => Nat.lt_succ_self _) (fun r' d hr' hd => ?_) (fun d hd => hrep d hd))
  have hr : Sym.rule r' = r.item := by simpa using hr'
  exact hitem r' hr.symm d (Nat.le_of_lt_succ hd)

/-- **A condition**: the operand after the comparison is one token, or none. -/
theorem consumes_condition (ih : ∀ r d, d.weight < c.weight → (recognize o r d).Consumes) :
    (recognize o .condition c).Consumes := by
  rw [recognize_condition]
  exact consumes_within (consumes_tokSeq ih fun d _ _ =>
    consumes_choose (by decide) (fun _ _ => consumes_acceptThen fun _ _ _ _ _ => consumes_done)
      consumes_done)

/-- **A comparison**: one token, or none. -/
theorem consumes_conditionalOperator : (recognize o .conditionalOperator c).Consumes := by
  rw [recognize_conditionalOperator]
  exact consumes_within
    (consumes_choose (by decide) (fun _ _ => consumes_acceptThen fun _ _ _ _ _ => consumes_done)
      consumes_done)

/-- **A factor**: a parenthesised expression, one token, or none. -/
theorem consumes_factor (ih : ∀ r d, d.weight < c.weight → (recognize o r d).Consumes) :
    (recognize o .factor c).Consumes := by
  rw [recognize_factor]
  refine consumes_within (consumes_choose (by decide) (fun _ _ => ?_) consumes_done)
  split
  · exact consumes_tokSeq ih fun _ _ _ => consumes_done
  · exact consumes_acceptThen fun _ _ _ _ _ => consumes_done

/-- **An assignment**: a string or an expression after the becomes sign. -/
theorem consumes_assignment (ih : ∀ r d, d.weight < c.weight → (recognize o r d).Consumes) :
    (recognize o .assignment c).Consumes := by
  rw [recognize_assignment]
  refine consumes_within (consumes_tokSeq ih fun d _ hd => ?_)
  split
  · exact consumes_tokSeq (fun r e he => ih r e (Nat.lt_trans he hd)) fun _ _ _ => consumes_done
  · exact ih _ d hd

/-- **An if statement**: the optional else part, then the closing keywords. -/
theorem consumes_ifStatement (ih : ∀ r d, d.weight < c.weight → (recognize o r d).Consumes) :
    (recognize o .ifStatement c).Consumes := by
  rw [recognize_ifStatement]
  refine consumes_within (consumes_tokSeq ih fun d _ hd => consumes_bind ?_ fun e he => ?_)
  · split
    · exact consumes_tokSeq (fun r e he => ih r e (Nat.lt_trans he hd))
        fun e _ he => ih _ e (Nat.lt_trans he hd)
    · exact consumes_done
  · exact consumes_tokSeq (fun r f hf => ih r f (Nat.lt_trans hf (Nat.lt_of_le_of_lt he hd)))
      fun _ _ _ => consumes_done

/-- **A repetition**, in either shape: a separator and an item, or the whole list rule again. -/
theorem consumes_repetition {r : Rule}
    (ih : ∀ r' d, d.weight < c.weight → (recognize o r' d).Consumes)
    (ihrep : ∀ d, d.weight < c.weight → (repetition o r d).Consumes) :
    (repetition o r c).Consumes := by
  cases hshape : o.shape with
  | flat =>
    rw [repetition_flat o c hshape]
    split
    · exact consumes_acceptThen fun t s hd _ _ =>
        consumes_bind (consumes_symRun fun r' _ => ih r' _ hd)
          fun e he => ihrep e (Nat.lt_of_le_of_lt he hd)
    · exact consumes_done
  | nested =>
    rw [repetition_nested o c hshape]
    split
    · exact consumes_acceptThen fun t s hd _ _ =>
        consumes_bind (ih r _ hd) fun e he => ihrep e (Nat.lt_of_le_of_lt he hd)
    · exact consumes_done

end Rules

/-- **Every run accepts what it reads.** In both shapes and with either choices, the terminals
that a run of any rule or repetition reports are the tokens its cursor hands out, in order, none
of them an end of file; a run that goes on ends at the cursor after them, and a run that stops
stops at the token it found unexpected, or right after a token when the source failed. -/
theorem recognize_consumes (o : Options) :
    (∀ r c, (recognize o r c).Consumes) ∧ ∀ r c, (repetition o r c).Consumes := by
  refine recognize_induction (fun r c ihlt ihrank ihrep => ?_)
    (fun r c ihlt ihrep => consumes_repetition ihlt (ihrep r))
  -- the rules whose body starts with a token call other rules only at lighter cursors
  have hseq : ∀ {k xs}, (recognize o r c = within r (seqRun o (.tok k :: xs) c fun d _ => done d)) →
      (recognize o r c).Consumes := fun heq => by
    rw [heq]
    exact consumes_within (consumes_tokSeq ihlt fun _ _ _ => consumes_done)
  have hitem : ∀ r', r.separators ≠ [] → r.item = .rule r' → ∀ d, d.weight ≤ c.weight →
      (recognize o r' d).Consumes := fun r' hsep h d hd =>
    ihrank r' d hd (Rule.rank_item_lt hsep h)
  cases r with
  | statementPart => exact hseq (recognize_statementPart o c)
  | statementList =>
    exact consumes_list (recognize_statementList o c) (hitem · (by decide)) (ihrep _)
  | statement => exact consumes_statement fun x hx => ihrank x c (Nat.le_refl _) hx
  | assignment => exact consumes_assignment ihlt
  | ifStatement => exact consumes_ifStatement ihlt
  | whileStatement => exact hseq (recognize_whileStatement o c)
  | procedureStatement => exact hseq (recognize_procedureStatement o c)
  | untilStatement =>
    rw [recognize_untilStatement]
    exact consumes_within (consumes_tokSeq ihlt fun d _ hd => ihlt _ d hd)
  | forStatement => exact hseq (recognize_forStatement o c)
  | argumentList =>
    exact consumes_list (recognize_argumentList o c) (hitem · (by decide)) (ihrep _)
  | condition => exact consumes_condition ihlt
  | conditionalOperator => exact consumes_conditionalOperator
  | expression => exact consumes_list (recognize_expression o c) (hitem · (by decide)) (ihrep _)
  | term => exact consumes_list (recognize_term o c) (hitem · (by decide)) (ihrep _)
  | factor => exact consumes_factor ihlt

end SyntaxCheck
