import SyntaxCheck.Proofs.Sequences

/-!
# What a flat run recognises

In the flat shape, a run of rule `r` that gets to its end reports the walk of a derivation of `r`,
and a run that stops has accepted a prefix that each kind it names as expected continues to the
beginning of a derivation of `r` (`recognize_sound`). The grammar is the strict one when the
choices are strict and the lenient one otherwise.

The two halves are proved together because each needs the other one level down: a rule that stops
after some of its symbols were recognised completes its prefix with the derivations of those
symbols. The proof follows the recogniser (`recognize_induction`); the rules that are sequences of
symbols share `sat_seqRun`, and the four list rules share `sat_listRule` and the lemma on their
repetitions.
-/

namespace SyntaxCheck

open Run

variable {ℓ : Bool}

/-- What a run of the symbol `x` reports when it gets to its end: the walk of a derivation of `x`.
-/
def SymOk (ℓ : Bool) (x : Sym) (es : List Event) (_ : Cursor) : Prop :=
  ∃ T, Derives ℓ T ∧ T.sym = x ∧ es = T.events

/-- What a run of the symbol `x` that stops has accepted: every token of a kind it expected
continues it to the beginning of a derivation of `x`. -/
def SymErr (ℓ : Bool) (x : Sym) (es : List Event) (h : Halt) : Prop :=
  ∀ t : Token, t.kind ∈ h.expected → Completable ℓ x (Event.terminals es ++ [t])

theorem symOk_node {r : Rule} (cs : List Tree) {d : Cursor} (hr : Rhs ℓ r (cs.map Tree.sym))
    (hcs : ∀ c ∈ cs, Derives ℓ c) :
    SymOk ℓ (.rule r) (.enter r :: Tree.eventsAll cs ++ [.exit r]) d :=
  ⟨.node r cs, .node hr hcs, rfl, by simp⟩

/-- A rule that stops after some of its symbols were derived: what each of them accepted, and
what the symbol at which it stopped expected, complete the prefix. -/
theorem symErr_of_rhs {r : Rule} (ts : List Tree) {x : Sym} {β : List Sym} {es : List Event}
    {h : Halt} (hr : Rhs ℓ r (ts.map Tree.sym ++ x :: β)) (hts : ∀ t ∈ ts, Derives ℓ t)
    (hx : SymErr ℓ x es h) : SymErr ℓ (.rule r) (.enter r :: (Tree.eventsAll ts ++ es)) h := by
  intro t ht
  simpa [Tree.terminals_eventsAll] using Completable.of_rhs _ hr hts (hx t ht)

/-- A token expected by its own kind continues the empty prefix. -/
theorem symErr_mismatch_kind {k : TokenKind} {t : Token} :
    SymErr ℓ (.tok k) [] (.mismatch t (.kind k)) := by
  intro t' ht'
  have hk : t'.kind = k := by simpa [Halt.expected, Expected.kinds] using ht'
  simpa using Completable.tok hk ℓ

/-- A failed source expects nothing. -/
theorem symErr_unreadable {x : Sym} {es : List Event} {e : Diagnostic} {t : Token} :
    SymErr ℓ x es (.unreadable e t) := by
  intro t' ht'
  simp [Halt.expected] at ht'

/-- A token run accepts one token of its kind. -/
theorem sat_symRun_tok {o : Options} {k : TokenKind} {c : Cursor} :
    (symRun o (.tok k) c).Sat (SymOk ℓ (.tok k)) (SymErr ℓ (.tok k)) := by
  rw [symRun]
  split
  · exact sat_halt symErr_mismatch_kind
  · apply sat_acceptThen
    · exact fun _ => symErr_mismatch_kind
    · exact fun _ _ _ => symErr_unreadable
    · intro t s hd hkind _
      exact sat_done ⟨.leaf c.lookahead, .leaf _, by simp [hkind], by simp⟩

/-! ## Sequences -/

/-- **A sequence of symbols.** Running the symbols `xs` and then `k` satisfies `ok` and `err` when
every rule among `xs` satisfies its own postconditions (for cursors below a bound `B`, which the
first symbol, if a rule, is also below), `k` satisfies them after any derivations of `xs`, and a
stop at any symbol of `xs`, after derivations of the symbols before it, satisfies `err`. When `xs`
begins with a token, `k` starts strictly below `c`. -/
theorem sat_seqRun {o : Options} {B : Nat} :
    ∀ (xs : List Sym) (c : Cursor) (k : (d : Cursor) → d.weight ≤ c.weight → Run d)
      {ok : List Event → Cursor → Prop} {err : List Event → Halt → Prop},
    c.weight ≤ B → (∀ r, xs.head? = some (.rule r) → c.weight < B) →
    (∀ r d, .rule r ∈ xs → d.weight < B →
      (recognize o r d).Sat (SymOk ℓ (.rule r)) (SymErr ℓ (.rule r))) →
    (∀ ts d hd, ts.map Tree.sym = xs → (∀ t ∈ ts, Derives ℓ t) →
      (∀ k', xs.head? = some (.tok k') → d.weight < c.weight) →
      (k d hd).Sat (fun es e => ok (Tree.eventsAll ts ++ es) e)
        (fun es h => err (Tree.eventsAll ts ++ es) h)) →
    (∀ ts x β es h, ts.map Tree.sym ++ x :: β = xs → (∀ t ∈ ts, Derives ℓ t) →
      SymErr ℓ x es h → err (Tree.eventsAll ts ++ es) h) →
    (seqRun o xs c k).Sat ok err
  | [], c, k, ok, err, _, _, _, hk, _ => by
    have := hk [] c (Nat.le_refl _) rfl (by simp) (by simp)
    rw [seqRun]
    simpa using this
  | .tok t :: xs, c, k, ok, err, hc, _, hrec, hk, herr => by
    have hstop : ∀ es h, SymErr ℓ (.tok t) es h → err es h := fun es h hx => by
      simpa using herr [] (.tok t) xs es h rfl (by simp) hx
    unfold seqRun
    split
    · exact sat_halt (hstop _ _ symErr_mismatch_kind)
    · apply sat_acceptThen
      · exact fun _ => hstop _ _ symErr_mismatch_kind
      · exact fun _ _ _ => hstop _ _ symErr_unreadable
      intro t' s hd hkind _
      -- the rest of the sequence starts below `c`, after the leaf of the accepted token
      refine sat_seqRun xs ⟨t', s⟩ _ (Nat.le_trans (Nat.le_of_lt hd) hc) (fun _ _ => Nat.lt_of_lt_of_le hd hc)
        (fun r d hr => hrec r d (List.mem_cons_of_mem _ hr)) ?_ ?_
      · intro ts d hd' hts hder _
        refine (hk (.leaf c.lookahead :: ts) d _ (by simp [hkind, hts]) ?_
          (fun _ _ => Nat.lt_of_le_of_lt hd' hd)).mono ?_ ?_
        · simpa using ⟨Derives.leaf _, hder⟩
        · exact fun es e h => by simpa using h
        · exact fun es h hh => by simpa using hh
      · intro ts x β es h hsplit hder hx
        have := herr (.leaf c.lookahead :: ts) x β es h (by simp [hkind, hsplit])
          (by simpa using ⟨Derives.leaf _, hder⟩) hx
        simpa using this
  | .rule r :: xs, c, k, ok, err, hc, hhead, hrec, hk, herr => by
    have hlt : c.weight < B := hhead r rfl
    apply sat_bind
    refine (hrec r c (by simp) hlt).mono ?_ ?_
    · rintro es d ⟨T, hT, hsym, rfl⟩ hd
      refine sat_seqRun xs d _ (Nat.le_trans hd (Nat.le_of_lt hlt)) (fun _ _ => Nat.lt_of_le_of_lt hd hlt)
        (fun r' d' hr => hrec r' d' (List.mem_cons_of_mem _ hr)) ?_ ?_
      · intro ts e he hts hder _
        refine (hk (T :: ts) e _ (by simp [hsym, hts]) ?_ (by simp)).mono ?_ ?_
        · simpa using ⟨hT, hder⟩
        · exact fun es e h => by simpa using h
        · exact fun es h hh => by simpa using hh
      · intro ts x β es h hsplit hder hx
        have := herr (T :: ts) x β es h (by simp [hsym, hsplit]) (by simpa using ⟨hT, hder⟩) hx
        simpa using this
    · intro es h hx
      simpa using herr [] (.rule r) xs es h rfl (by simp) hx

/-- **A stop inside a right-hand side.** The run of `r` stops at a symbol `x` of the part `xs` of
a right-hand side, after the trees `pre` derived before `xs` and the trees `ts` derived before `x`
within `xs`. -/
theorem symErr_of_split {r : Rule} (pre : List Tree) {xs γ : List Sym}
    (hr : Rhs ℓ r (pre.map Tree.sym ++ xs ++ γ)) (hpre : ∀ t ∈ pre, Derives ℓ t) :
    ∀ ts x β es h, ts.map Tree.sym ++ x :: β = xs → (∀ t ∈ ts, Derives ℓ t) →
      SymErr ℓ x es h →
      SymErr ℓ (.rule r) (.enter r :: (Tree.eventsAll pre ++ (Tree.eventsAll ts ++ es))) h := by
  rintro ts x β es h rfl hts hx
  simpa using symErr_of_rhs (pre ++ ts) (β := β ++ γ) (by simpa using hr)
    (List.forall_mem_append.2 ⟨hpre, hts⟩) hx

/-- `symErr_of_split` at the beginning of a right-hand side. -/
theorem symErr_of_rhs_start {r : Rule} {xs γ : List Sym} (hr : Rhs ℓ r (xs ++ γ)) :
    ∀ ts x β es h, ts.map Tree.sym ++ x :: β = xs → (∀ t ∈ ts, Derives ℓ t) →
      SymErr ℓ x es h → SymErr ℓ (.rule r) (.enter r :: (Tree.eventsAll ts ++ es)) h := by
  intro ts x β es h hsplit hts hx
  simpa using symErr_of_split [] (by simpa using hr) (by simp) ts x β es h hsplit hts hx

/-! ## Beginnings of rules -/

/-- A rule whose right-hand side starts with the kind of `t` can be completed from `[t]`. -/
theorem Completable.first {r : Rule} {k : TokenKind} {β : List Sym} {t : Token}
    (hr : Rhs ℓ r (.tok k :: β)) (ht : t.kind = k) : Completable ℓ (.rule r) [t] := by
  simpa using Completable.of_rhs [] (by simpa using hr) (by simp) (Completable.tok ht ℓ)

/-- Whatever begins one kind of statement begins a statement. -/
theorem Completable.statement {x : Rule} {u : List Token}
    (hx : x ∈ [Rule.assignment, .ifStatement, .whileStatement, .procedureStatement,
      .untilStatement, .forStatement])
    (h : Completable ℓ (.rule x) u) : Completable ℓ (.rule .statement) u := by
  simpa using Completable.of_rhs [] (β := []) (Rhs.statement hx) (by simp) h

/-- Each kind that starts a statement begins one. -/
theorem Completable.statementStart {t : Token} (ht : t.kind ∈ Choice.statementStarts) :
    Completable ℓ (.rule .statement) [t] := by
  simp only [Choice.statementStarts, List.mem_cons, List.not_mem_nil, or_false] at ht
  rcases ht with h | h | h | h | h | h
  · exact Completable.statement (by simp) (Completable.first .assignExpression h)
  · exact Completable.statement (by simp) (Completable.first .ifThen h)
  · exact Completable.statement (by simp) (Completable.first .whileStatement h)
  · exact Completable.statement (by simp) (Completable.first .procedureStatement h)
  · exact Completable.statement (by simp) (Completable.first .untilStatement h)
  · exact Completable.statement (by simp) (Completable.first .forStatement h)

/-- Each kind that starts a factor begins one. -/
theorem Completable.factorStart {t : Token} (ht : t.kind ∈ Choice.factorStarts) :
    Completable ℓ (.rule .factor) [t] := by
  simp only [Choice.factorStarts, List.mem_cons, List.not_mem_nil, or_false] at ht
  rcases ht with h | h | h
  · exact Completable.first (.factorToken (.inl rfl)) h
  · exact Completable.first (.factorToken (.inr rfl)) h
  · exact Completable.first .parenthesised h

/-! ## Lists -/

/-- `pre` begins the children of the list rule `r`: derived items, separated by separators of `r`.
-/
def ListPrefix (ℓ : Bool) (r : Rule) (pre : List Tree) : Prop :=
  ∃ seps, (∀ s ∈ seps, s ∈ r.separators) ∧ pre.map Tree.sym = r.item.separated seps ∧
    ∀ t ∈ pre, Derives ℓ t

/-- What a repetition that gets to its end reports: after any beginning of its list, more items
with their separators. -/
def RepOk (ℓ : Bool) (r : Rule) (es : List Event) (_ : Cursor) : Prop :=
  ∀ pre, ListPrefix ℓ r pre → ∃ cs, ListPrefix ℓ r (pre ++ cs) ∧ es = Tree.eventsAll cs

/-- What a repetition that stops has accepted: after any beginning of its list, every token of a
kind it expected continues the list to the beginning of a derivation. -/
def RepErr (ℓ : Bool) (r : Rule) (es : List Event) (h : Halt) : Prop :=
  ∀ pre, ListPrefix ℓ r pre → ∀ t : Token, t.kind ∈ h.expected →
    Completable ℓ (.rule r) (Tree.leavesAll pre ++ Event.terminals es ++ [t])

theorem Sym.separated_append (x : Sym) (seps : List TokenKind) (s : TokenKind) :
    x.separated (seps ++ [s]) = x.separated seps ++ [.tok s, x] := by
  simp [Sym.separated]

/-- Items separated by separators of a list rule are one of its right-hand sides. -/
theorem Rhs.of_separated {r : Rule} (hr : r.separators ≠ []) (seps : List TokenKind)
    (hs : ∀ s ∈ seps, s ∈ r.separators) : Rhs ℓ r (r.item.separated seps) := by
  cases r
  case statementList => exact .statementList seps (by simpa [Rule.separators] using hs)
  case argumentList => exact .argumentList seps (by simpa [Rule.separators] using hs)
  case expression => exact .expression seps (by simpa [Rule.separators] using hs)
  case term => exact .term seps (by simpa [Rule.separators] using hs)
  all_goals exact absurd rfl hr

namespace ListPrefix

variable {r : Rule} {pre : List Tree}

theorem single {T : Tree} (hT : Derives ℓ T) (hsym : T.sym = r.item) : ListPrefix ℓ r [T] :=
  ⟨[], by simp, by simp [hsym], by simpa using hT⟩

theorem derives (h : ListPrefix ℓ r pre) : ∀ t ∈ pre, Derives ℓ t := by
  obtain ⟨_, _, _, hder⟩ := h
  exact hder

theorem rhs (h : ListPrefix ℓ r pre) (hr : r.separators ≠ []) : Rhs ℓ r (pre.map Tree.sym) := by
  obtain ⟨seps, hseps, hmap, _⟩ := h
  rw [hmap]
  exact Rhs.of_separated hr _ hseps

/-- A separator and one more item extend the beginning of a list. -/
theorem snoc (h : ListPrefix ℓ r pre) {s : Token} (hs : s.kind ∈ r.separators) {T : Tree}
    (hT : Derives ℓ T) (hsym : T.sym = r.item) : ListPrefix ℓ r (pre ++ [.leaf s, T]) := by
  obtain ⟨seps, hseps, hmap, hder⟩ := h
  refine ⟨seps ++ [s.kind], ?_, ?_, ?_⟩
  · simpa using fun k hk => (hk.elim (hseps k) fun e => e ▸ hs)
  · simp [hmap, hsym, Sym.separated_append]
  · intro t ht
    simp only [List.mem_append, List.mem_cons, List.not_mem_nil, or_false] at ht
    rcases ht with ht | rfl | rfl
    · exact hder t ht
    · exact .leaf s
    · exact hT

/-- A stop in an item after a separator: what the item expected continues the list. -/
theorem symErr (h : ListPrefix ℓ r pre) {s : Token} (hs : s.kind ∈ r.separators)
    {es : List Event} {e : Halt} (hx : SymErr ℓ r.item es e) :
    ∀ t : Token, t.kind ∈ e.expected →
      Completable ℓ (.rule r) (Tree.leavesAll pre ++ Event.terminals (.terminal s :: es) ++ [t]) := by
  intro t ht
  obtain ⟨seps, hseps, hmap, hder⟩ := h
  have hr : Rhs ℓ r ((pre ++ [Tree.leaf s]).map Tree.sym ++ r.item :: []) := by
    have := Rhs.of_separated (ℓ := ℓ) (List.ne_nil_of_mem hs) (seps ++ [s.kind])
      (by simpa using fun k hk => (hk.elim (hseps k) fun e => e ▸ hs))
    simpa [hmap, Sym.separated_append] using this
  have hall : ∀ t ∈ pre ++ [Tree.leaf s], Derives ℓ t := by
    intro t ht
    simp only [List.mem_append, List.mem_cons, List.not_mem_nil, or_false] at ht
    rcases ht with ht | rfl
    · exact hder t ht
    · exact .leaf s
  simpa using Completable.of_rhs _ hr hall (hx t ht)

end ListPrefix

/-! ## Rule by rule -/

/-- The postconditions of a run of rule `r` from `c`, in the grammar that the choices of `o`
recognise. -/
def SoundAt (o : Options) (r : Rule) (c : Cursor) : Prop :=
  (recognize o r c).Sat (SymOk (!o.strict) (.rule r)) (SymErr (!o.strict) (.rule r))

/-- The postconditions of a repetition of rule `r` from `c`. -/
def RepSoundAt (o : Options) (r : Rule) (c : Cursor) : Prop :=
  (repetition o r c).Sat (RepOk (!o.strict) r) (RepErr (!o.strict) r)

section Rules

variable {o : Options} {c : Cursor}

theorem sat_symRun {x : Sym} (hrule : ∀ r, x = .rule r → SoundAt o r c) :
    (symRun o x c).Sat (SymOk (!o.strict) x) (SymErr (!o.strict) x) := by
  cases x with
  | tok k => exact sat_symRun_tok
  | rule r => exact hrule r rfl

/-- **A sequence of symbols beginning with a token**, read as the whole body of the rule `r`. -/
theorem sat_seq {r : Rule} {k : TokenKind} {xs : List Sym} (hr : Rhs (!o.strict) r (.tok k :: xs))
    (ih : ∀ r' d, d.weight < c.weight → SoundAt o r' d) :
    (seqRun o (.tok k :: xs) c fun d _ => done d).Sat
      (fun es d => SymOk (!o.strict) (.rule r) (.enter r :: es ++ [.exit r]) d)
      (fun es h => SymErr (!o.strict) (.rule r) (.enter r :: es) h) := by
  refine sat_seqRun _ c _ (Nat.le_refl _) (by simp) (fun r' d _ hd => ih r' d hd) ?_
    (symErr_of_rhs_start (γ := []) (by simpa using hr))
  intro ts d _ hts hder _
  apply sat_done
  simpa using symOk_node _ (hts ▸ hr) hder

/-- **A rule that is one sequence of symbols**, beginning with a token. -/
theorem soundAt_of_seq {r : Rule} {k : TokenKind} {xs : List Sym}
    (heq : recognize o r c = within r (seqRun o (.tok k :: xs) c fun d _ => done d))
    (hr : Rhs (!o.strict) r (.tok k :: xs))
    (ih : ∀ r' d, d.weight < c.weight → SoundAt o r' d) : SoundAt o r c := by
  unfold SoundAt
  rw [heq]
  exact sat_within (sat_seq hr ih)

/-- The last symbol of a right-hand side is a rule: its derivation completes the node. -/
theorem sat_lastRule {r x : Rule} {ts : List Tree} {d : Cursor}
    (hr : Rhs (!o.strict) r (ts.map Tree.sym ++ [.rule x]))
    (hts : ∀ t ∈ ts, Derives (!o.strict) t) (hx : SoundAt o x d) :
    (recognize o x d).Sat
      (fun es e => SymOk (!o.strict) (.rule r) (.enter r :: (Tree.eventsAll ts ++ es) ++ [.exit r]) e)
      (fun es h => SymErr (!o.strict) (.rule r) (.enter r :: (Tree.eventsAll ts ++ es)) h) := by
  refine hx.mono ?_ ?_
  · rintro es e ⟨T, hT, hsym, rfl⟩
    simpa using symOk_node (ts ++ [T]) (by simpa [hsym] using hr)
      (List.forall_mem_append.2 ⟨hts, by simpa using hT⟩)
  · intro es h hx'
    exact symErr_of_rhs _ (β := []) hr hts hx'

/-- **A list rule**: its first item, then its repetition. -/
theorem soundAt_of_list {r : Rule}
    (heq : recognize o r c = within r (seqRun o [r.item] c fun d _ => repetition o r d))
    (hsep : r.separators ≠ [])
    (hitem : ∀ r', r'.rank < r.rank → ∀ d, d.weight ≤ c.weight → SoundAt o r' d)
    (hrep : ∀ d, d.weight ≤ c.weight → RepSoundAt o r d) : SoundAt o r c := by
  unfold SoundAt
  rw [heq]
  apply sat_within
  refine sat_seqRun (B := c.weight + 1) [r.item] c _ (Nat.le_succ _) (fun _ _ => Nat.lt_succ_self _)
    ?_ ?_ (symErr_of_rhs_start (γ := []) (by simpa using Rhs.of_separated hsep [] (by simp)))
  · intro r' d hr' hd
    have hitem' : Sym.rule r' = r.item := by simpa using hr'
    exact hitem r' (Rule.rank_item_lt hsep hitem'.symm) d (Nat.le_of_lt_succ hd)
  · intro ts d hd hts hder _
    obtain ⟨T, rfl, hsym⟩ := List.map_eq_singleton_iff.1 hts
    have hfirst : ListPrefix (!o.strict) r [T] := .single (hder T (by simp)) hsym
    refine (hrep d hd).mono ?_ ?_
    · intro es e hrest
      obtain ⟨cs, hcs, rfl⟩ := hrest [T] hfirst
      simpa using symOk_node _ (hcs.rhs hsep) hcs.derives
    · intro es h hrest t ht
      simpa [Tree.terminals_events] using hrest [T] hfirst t ht

/-- **The flat repetition.** Each separator and the item after it extend the list. -/
theorem repSoundAt {r : Rule} (hflat : o.shape = .flat)
    (ih : ∀ r' d, d.weight < c.weight → SoundAt o r' d)
    (ihrep : ∀ d, d.weight < c.weight → RepSoundAt o r d) : RepSoundAt o r c := by
  unfold RepSoundAt
  rw [repetition_flat o c hflat]
  split
  case isFalse => exact sat_done fun pre hpre => ⟨[], by simpa using hpre, rfl⟩
  case isTrue hsep =>
    apply sat_acceptThen
    · exact fun hne => absurd rfl hne
    · intro _ _ _ pre _ t ht
      simp [Halt.expected] at ht
    intro t s hd _ _
    apply sat_bind
    refine (sat_symRun fun r' _ => ih r' ⟨t, s⟩ hd).mono ?_ ?_
    · rintro es e ⟨T, hT, hsym, rfl⟩ he
      refine (ihrep e (Nat.lt_of_le_of_lt he hd)).mono ?_ ?_
      · intro es' f hrest pre hpre
        obtain ⟨cs, hcs, rfl⟩ := hrest _ (hpre.snoc hsep hT hsym)
        exact ⟨.leaf c.lookahead :: T :: cs, by simpa using hcs, by simp⟩
      · intro es' h hrest pre hpre t' ht'
        simpa [Tree.terminals_events] using hrest _ (hpre.snoc hsep hT hsym) t' ht'
    · intro es h hx pre hpre t' ht'
      simpa using hpre.symErr hsep hx t' ht'

/-- **A statement**: the kind of statement its first token starts, or none in the lenient
grammar. -/
theorem soundAt_statement (hsub : ∀ x : Rule, x.rank < Rule.statement.rank → SoundAt o x c) :
    SoundAt o .statement c := by
  unfold SoundAt
  rw [recognize]
  apply sat_within
  -- a kind of statement satisfies the postconditions of a statement
  have hkind : ∀ x ∈ [Rule.assignment, .ifStatement, .whileStatement, .procedureStatement,
      .untilStatement, .forStatement],
      (recognize o x c).Sat
        (fun es d => SymOk (!o.strict) (.rule .statement) (.enter .statement :: es ++ [.exit .statement]) d)
        (fun es h => SymErr (!o.strict) (.rule .statement) (.enter .statement :: es) h) := by
    intro x hx
    have hrank : x.rank < Rule.statement.rank := by
      revert x
      decide
    refine (hsub x hrank).mono ?_ ?_
    · rintro es d ⟨T, hT, hsym, rfl⟩
      simpa using symOk_node [T] (by simpa [hsym] using Rhs.statement hx) (by simpa using hT)
    · intro es h hx'
      simpa using symErr_of_rhs [] (β := []) (Rhs.statement hx) (by simp) hx'
  apply sat_choose
  · intro _ hk
    simp only [Choice.statementStarts, List.mem_cons, List.not_mem_nil, or_false] at hk
    split <;> first | exact hkind _ (by simp) | simp_all
  · intro _ _ t ht
    simpa using Completable.statementStart (ℓ := !o.strict) (by simpa [Halt.expected, Expected.kinds] using ht)
  · intro _ hs
    apply sat_done
    simpa [hs] using symOk_node (ℓ := true) [] (d := c) .emptyStatement (by simp)

/-- **An assignment**: a string, or an expression, after the identifier and the becomes sign. -/
theorem soundAt_assignment (ih : ∀ r' d, d.weight < c.weight → SoundAt o r' d) :
    SoundAt o .assignment c := by
  unfold SoundAt
  rw [recognize_assignment]
  apply sat_within
  refine sat_seqRun _ c _ (Nat.le_refl _) (by simp) (by simp) ?_
    (symErr_of_rhs_start (γ := [.rule .expression]) .assignExpression)
  intro ts d _ hts hder hhead
  split
  · refine sat_seqRun _ d _ (Nat.le_refl _) (by simp) (by simp) ?_
      (symErr_of_split _ (γ := []) (by simpa [hts] using Rhs.assignString) hder)
    intro ts' e _ hts' hder' _
    apply sat_done
    simpa using symOk_node (ts ++ ts') (by simpa [hts, hts'] using Rhs.assignString)
      (List.forall_mem_append.2 ⟨hder, hder'⟩)
  · exact sat_lastRule (by simpa [hts] using Rhs.assignExpression) hder
      (ih .expression d (hhead _ rfl))

/-- **An if statement**: the optional else part sits between the statement list and the closing
keywords. -/
theorem soundAt_ifStatement (ih : ∀ r' d, d.weight < c.weight → SoundAt o r' d) :
    SoundAt o .ifStatement c := by
  unfold SoundAt
  rw [recognize_ifStatement]
  apply sat_within
  refine sat_seqRun _ c _ (Nat.le_refl _) (by simp) (fun r' d _ hd => ih r' d hd) ?_
    (symErr_of_rhs_start (γ := [.tok .kwEnd, .tok .kwIf]) .ifThen)
  intro ts d _ hts hder hhead
  have hdc : d.weight < c.weight := hhead _ rfl
  apply sat_bind
  split
  · -- `else`, a statement list, and then the closing keywords
    refine sat_seqRun _ d _ (Nat.le_refl _) (by simp) (by simp) ?_
      (symErr_of_split _ (γ := [.rule .statementList, .tok .kwEnd, .tok .kwIf])
        (by simpa [hts] using Rhs.ifThenElse) hder)
    intro ts' e _ hts' hder' hhead'
    have hec : e.weight < c.weight := Nat.lt_trans (hhead' _ rfl) hdc
    have hr : Rhs (!o.strict) .ifStatement
        ((ts ++ ts').map Tree.sym ++ [.rule .statementList] ++ [.tok .kwEnd, .tok .kwIf]) := by
      simpa [hts, hts'] using Rhs.ifThenElse
    have hpre : ∀ t ∈ ts ++ ts', Derives (!o.strict) t := List.forall_mem_append.2 ⟨hder, hder'⟩
    refine (ih .statementList e hec).mono ?_ ?_
    · rintro es f ⟨T, hT, hsym, rfl⟩ _
      have hpre' : ∀ t ∈ ts ++ ts' ++ [T], Derives (!o.strict) t :=
        List.forall_mem_append.2 ⟨hpre, by simpa using hT⟩
      refine sat_seqRun (ℓ := !o.strict) _ f _ (Nat.le_refl _) (by simp) (by simp) ?_ ?_
      · intro ts'' g _ hts'' hder'' _
        apply sat_done
        simpa using symOk_node (ts ++ ts' ++ T :: ts'')
          (by simpa [hts, hts', hsym, hts''] using Rhs.ifThenElse)
          (by simpa using List.forall_mem_append.2 ⟨hpre', hder''⟩)
      · intro ts'' x β es h hsplit hder'' hx
        simpa using symErr_of_split _ (γ := []) (by simpa [hsym] using hr) hpre' ts'' x β es h
          hsplit hder'' hx
    · intro es h hx
      simpa using symErr_of_rhs _ (β := [.tok .kwEnd, .tok .kwIf]) (by simpa using hr) hpre hx
  · -- no else part: the closing keywords
    refine sat_done fun _ => ?_
    refine sat_seqRun (ℓ := !o.strict) _ d _ (Nat.le_refl _) (by simp) (by simp) ?_ ?_
    · intro ts' e _ hts' hder' _
      apply sat_done
      simpa using symOk_node (ts ++ ts') (by simpa [hts, hts'] using Rhs.ifThen)
        (List.forall_mem_append.2 ⟨hder, hder'⟩)
    · intro ts' x β es h hsplit hder' hx
      simpa using symErr_of_split _ (γ := []) (by simpa [hts] using Rhs.ifThen) hder ts' x β es h
        hsplit hder' hx

/-- **An until statement**: its condition comes last. -/
theorem soundAt_untilStatement (ih : ∀ r' d, d.weight < c.weight → SoundAt o r' d) :
    SoundAt o .untilStatement c := by
  unfold SoundAt
  rw [recognize_untilStatement]
  apply sat_within
  refine sat_seqRun _ c _ (Nat.le_refl _) (by simp) (fun r' d _ hd => ih r' d hd) ?_
    (symErr_of_rhs_start (γ := [.rule .condition]) .untilStatement)
  intro ts d _ hts hder hhead
  exact sat_lastRule (by simpa [hts] using Rhs.untilStatement) hder (ih .condition d (hhead _ rfl))

/-- **A condition**: an identifier, a comparison, and an operand, which the lenient grammar may
leave out. -/
theorem soundAt_condition (ih : ∀ r' d, d.weight < c.weight → SoundAt o r' d) :
    SoundAt o .condition c := by
  unfold SoundAt
  rw [recognize_condition]
  apply sat_within
  refine sat_seqRun _ c _ (Nat.le_refl _) (by simp) (fun r' d _ hd => ih r' d hd) ?_
    (symErr_of_rhs_start (γ := [.tok .identifier]) (.condition (by simp)))
  intro ts d _ hts hder _
  apply sat_choose
  · intro _ hmem
    apply sat_acceptThen
    · exact fun hne => absurd rfl hne
    · exact fun _ _ _ => symErr_unreadable
    · intro t s _ _ _
      apply sat_done
      simpa using symOk_node (ts ++ [.leaf d.lookahead])
        (by simpa [hts] using Rhs.condition hmem) (List.forall_mem_append.2 ⟨hder, by simp [Derives.leaf]⟩)
  · intro _ _ t ht
    have ht' : t.kind ∈ Choice.operands := by simpa [Halt.expected, Expected.kinds] using ht
    simpa [Tree.terminals_eventsAll] using Completable.of_rhs _ (β := [])
      (by simpa [hts] using Rhs.condition ht') hder (Completable.tok rfl _)
  · intro _ hs
    apply sat_done
    simpa [hs] using symOk_node (ℓ := true) ts (d := d)
      (by simpa [hts] using Rhs.conditionWithoutOperand) (by simpa [hs] using hder)

/-- **A comparison**: one comparison operator, which the lenient grammar may leave out. -/
theorem soundAt_conditionalOperator : SoundAt o .conditionalOperator c := by
  unfold SoundAt
  rw [recognize]
  apply sat_within
  apply sat_choose
  · intro _ hmem
    apply sat_acceptThen
    · exact fun hne => absurd rfl hne
    · exact fun _ _ _ => symErr_unreadable
    · intro t s _ _ _
      apply sat_done
      simpa using symOk_node [.leaf c.lookahead] (by simpa using Rhs.comparison hmem)
        (by simp [Derives.leaf])
  · intro _ _ t ht
    have ht' : t.kind ∈ Choice.comparisons := by simpa [Halt.expected, Expected.kinds] using ht
    simpa using Completable.first (β := []) (Rhs.comparison ht') rfl
  · intro _ hs
    apply sat_done
    simpa [hs] using symOk_node (ℓ := true) [] (d := c) .emptyComparison (by simp)

/-- **A factor**: a parenthesised expression, an identifier or a number, which the lenient grammar
may leave out. -/
theorem soundAt_factor (ih : ∀ r' d, d.weight < c.weight → SoundAt o r' d) :
    SoundAt o .factor c := by
  unfold SoundAt
  rw [recognize_factor]
  apply sat_within
  apply sat_choose
  · intro _ hmem
    split
    · exact sat_seq .parenthesised ih
    · rename_i hparen
      have hk : c.lookahead.kind = .identifier ∨ c.lookahead.kind = .number := by
        simp only [Choice.factorStarts, List.mem_cons, List.not_mem_nil, or_false] at hmem
        rcases hmem with h | h | h
        · exact .inl h
        · exact .inr h
        · exact absurd h hparen
      apply sat_acceptThen
      · exact fun hne => absurd rfl hne
      · exact fun _ _ _ => symErr_unreadable
      · intro t s _ _ _
        apply sat_done
        simpa using symOk_node [.leaf c.lookahead] (by simpa using Rhs.factorToken hk)
          (by simp [Derives.leaf])
  · intro _ _ t ht
    simpa using Completable.factorStart (ℓ := !o.strict)
      (by simpa [Halt.expected, Expected.kinds] using ht)
  · intro _ hs
    apply sat_done
    simpa [hs] using symOk_node (ℓ := true) [] (d := c) .emptyFactor (by simp)

end Rules

/-- **Soundness of the flat recogniser.** In the flat shape, a run of any rule that gets to its end
reports the walk of a derivation of that rule, and a run that stops has accepted a prefix that
each kind it expected continues to the beginning of a derivation of the rule; a repetition extends
whatever list it continues. The grammar is the lenient one exactly when the choices are. -/
theorem recognize_sound (o : Options) (hflat : o.shape = .flat) :
    (∀ r c, SoundAt o r c) ∧ ∀ r c, RepSoundAt o r c := by
  refine recognize_induction (fun r c ihlt ihrank ihrep => ?_)
    (fun r c ihlt ihrep => repSoundAt hflat ihlt (ihrep r))
  -- each rule from the runs it makes: from lighter cursors, or from `c` for rules of lower rank
  cases r with
  | statementPart => exact soundAt_of_seq (recognize_statementPart o c) .statementPart ihlt
  | statementList =>
    exact soundAt_of_list (recognize_statementList o c) (by decide)
      (fun r' h d hd => ihrank r' d hd h) (ihrep _)
  | statement => exact soundAt_statement fun x hx => ihrank x c (Nat.le_refl _) hx
  | assignment => exact soundAt_assignment ihlt
  | ifStatement => exact soundAt_ifStatement ihlt
  | whileStatement => exact soundAt_of_seq (recognize_whileStatement o c) .whileStatement ihlt
  | procedureStatement =>
    exact soundAt_of_seq (recognize_procedureStatement o c) .procedureStatement ihlt
  | untilStatement => exact soundAt_untilStatement ihlt
  | forStatement => exact soundAt_of_seq (recognize_forStatement o c) .forStatement ihlt
  | argumentList =>
    exact soundAt_of_list (recognize_argumentList o c) (by decide)
      (fun r' h d hd => ihrank r' d hd h) (ihrep _)
  | condition => exact soundAt_condition ihlt
  | conditionalOperator => exact soundAt_conditionalOperator
  | expression =>
    exact soundAt_of_list (recognize_expression o c) (by decide)
      (fun r' h d hd => ihrank r' d hd h) (ihrep _)
  | term =>
    exact soundAt_of_list (recognize_term o c) (by decide)
      (fun r' h d hd => ihrank r' d hd h) (ihrep _)
  | factor => exact soundAt_factor ihlt

end SyntaxCheck
