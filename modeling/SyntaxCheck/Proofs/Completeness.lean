import SyntaxCheck.Proofs.Soundness

/-!
# What a flat run recognises, the other way round

A derivation of a rule `r` whose leaves a cursor hands out, followed by a token that may follow `r`
in the grammar, is exactly what the flat run of `r` from that cursor reports
(`recognize_complete`). The recogniser decides by its lookahead alone, and the derivation forces
each decision: at a choice the lookahead is the first leaf of the alternative the derivation takes,
and at a loop exit, an optional part or an empty alternative it is a token that may follow the
rule, which is never a separator of the loop, the keyword of the optional part, or the first token
of an alternative.

`Rule.follow` lists, for each rule, the kinds that may follow it in the lenient grammar (and so in
the strict one); `Sym.followOk` checks a right-hand side against that table, and every right-hand
side passes the check (`Rhs.followOk`).
-/

namespace SyntaxCheck

open Run

variable {ℓ : Bool}

/-! ## What may follow a rule -/

/-- The kinds that may follow a derivation of each rule. -/
def Rule.follow : Rule → List TokenKind
  | .statementPart => [.endOfFile]
  | .statementList => [.kwEnd, .kwElse, .kwUntil]
  | .statement => [.semicolon, .kwEnd, .kwElse, .kwUntil]
  | .assignment => [.semicolon, .kwEnd, .kwElse, .kwUntil, .closeParen]
  | .ifStatement => [.semicolon, .kwEnd, .kwElse, .kwUntil]
  | .whileStatement => [.semicolon, .kwEnd, .kwElse, .kwUntil]
  | .procedureStatement => [.semicolon, .kwEnd, .kwElse, .kwUntil]
  | .untilStatement => [.semicolon, .kwEnd, .kwElse, .kwUntil]
  | .forStatement => [.semicolon, .kwEnd, .kwElse, .kwUntil]
  | .argumentList => [.closeParen]
  | .condition => [.kwThen, .kwLoop, .semicolon, .kwEnd, .kwElse, .kwUntil]
  | .conditionalOperator =>
    [.identifier, .number, .string, .kwThen, .kwLoop, .semicolon, .kwEnd, .kwElse, .kwUntil]
  | .expression => [.semicolon, .kwEnd, .kwElse, .kwUntil, .closeParen]
  | .term => [.plus, .minus, .semicolon, .kwEnd, .kwElse, .kwUntil, .closeParen]
  | .factor =>
    [.times, .divide, .percent, .plus, .minus, .semicolon, .kwEnd, .kwElse, .kwUntil, .closeParen]

/-- Every rule symbol of `xs` is followed by a kind it may be followed by: the token after it in
`xs`, or `f` when it is the last symbol. In no right-hand side does a rule follow a rule. -/
def Sym.followOk : List Sym → TokenKind → Bool
  | [], _ => true
  | [.rule r], f => decide (f ∈ r.follow)
  | .rule r :: .tok k :: rest, f => decide (k ∈ r.follow) && followOk (.tok k :: rest) f
  | .rule _ :: .rule _ :: _, _ => false
  | .tok _ :: rest, f => followOk rest f

/-- A loop ends at a kind that may follow the list rule, and that is never a separator. -/
theorem Rule.not_mem_separators_of_mem_follow {r : Rule} {k : TokenKind} (h : k ∈ r.follow) :
    k ∉ r.separators := by
  revert k
  cases r <;> decide

/-- What may follow a list rule, and its separators, may follow its item. -/
theorem Rule.follow_item {r y : Rule} (h : r.item = .rule y) :
    (∀ s ∈ r.separators, s ∈ y.follow) ∧ ∀ k ∈ r.follow, k ∈ y.follow := by
  cases r <;> simp only [Rule.item, Sym.rule.injEq, reduceCtorEq] at h <;> subst h <;> decide

theorem Sym.mem_separated {x y : Sym} {seps : List TokenKind} (h : y ∈ x.separated seps) :
    y = x ∨ ∃ s ∈ seps, y = .tok s := by
  simp only [Sym.separated, List.mem_cons, List.mem_flatMap, List.not_mem_nil, or_false] at h
  rcases h with h | ⟨s, hs, h | h⟩
  · exact .inl h
  · exact .inr ⟨s, hs, h⟩
  · exact .inl h

/-- Items separated by kinds that may follow the item pass the check. -/
theorem Sym.followOk_separated {x : Sym} {f : TokenKind} :
    ∀ seps : List TokenKind, (∀ y, x = .rule y → (∀ s ∈ seps, s ∈ y.follow) ∧ f ∈ y.follow) →
      Sym.followOk (x.separated seps) f = true
  | [], hx => by
    cases x with
    | tok k => rfl
    | rule y => simpa [Sym.followOk] using (hx y rfl).2
  | s :: seps, hx => by
    have ih := Sym.followOk_separated seps fun y hy =>
      ⟨fun s' hs' => (hx y hy).1 s' (List.mem_cons_of_mem _ hs'), (hx y hy).2⟩
    rw [Sym.separated_cons]
    cases x with
    | tok k => simpa [Sym.followOk] using ih
    | rule y => simpa [Sym.followOk, (hx y rfl).1 s (by simp)] using ih

/-- The right-hand sides of a list rule pass the check. -/
theorem Sym.followOk_list {r : Rule} {seps : List TokenKind} {f : TokenKind}
    (hseps : ∀ s ∈ seps, s ∈ r.separators) (hf : f ∈ r.follow) :
    Sym.followOk (r.item.separated seps) f = true := by
  refine Sym.followOk_separated seps fun y hy => ?_
  obtain ⟨hsep, hfol⟩ := Rule.follow_item hy
  exact ⟨fun s hs => hsep s (hseps s hs), hfol f hf⟩

/-- **Every right-hand side passes the follow check.** -/
theorem Rhs.followOk {r : Rule} {xs : List Sym} {f : TokenKind} (hr : Rhs ℓ r xs)
    (hf : f ∈ r.follow) : Sym.followOk xs f = true := by
  cases hr with
  | statement hx =>
    simp only [List.mem_cons, List.not_mem_nil, or_false] at hx
    rcases hx with rfl | rfl | rfl | rfl | rfl | rfl <;> revert f <;> decide
  | condition hk =>
    simp only [List.mem_cons, List.not_mem_nil, or_false] at hk
    rcases hk with rfl | rfl | rfl <;> rfl
  | comparison => rfl
  | factorToken => rfl
  | statementList seps hs =>
    exact Sym.followOk_list (r := .statementList) (by simpa [Rule.separators] using hs) hf
  | argumentList seps hs =>
    exact Sym.followOk_list (r := .argumentList) (by simpa [Rule.separators] using hs) hf
  | expression seps hs =>
    exact Sym.followOk_list (r := .expression) (by simpa [Rule.separators] using hs) hf
  | term seps hs => exact Sym.followOk_list (r := .term) (by simpa [Rule.separators] using hs) hf
  | _ => revert f; decide

/-- No right-hand side has the end of file. -/
theorem Rhs.tok_ne_endOfFile {r : Rule} {xs : List Sym} {k : TokenKind} (hr : Rhs ℓ r xs)
    (hk : .tok k ∈ xs) : k ≠ .endOfFile := by
  rintro rfl
  cases hr with
  | statementList seps hs | argumentList seps hs | expression seps hs | term seps hs =>
    rcases Sym.mem_separated hk with h | ⟨s, hs', h⟩
    · cases h
    · cases h
      simpa using hs _ hs'
  | condition hk' | comparison hk' | factorToken hk' =>
    simp only [List.mem_cons, Sym.tok.injEq, reduceCtorEq, List.not_mem_nil, or_false,
      false_or] at hk
    subst hk
    simp at hk'
  | _ => simp at hk

/-! ## Leaves of derivations -/

theorem Tree.mem_leavesAll {t : Token} {cs : List Tree} :
    t ∈ Tree.leavesAll cs ↔ ∃ c ∈ cs, t ∈ c.leaves := by
  induction cs with
  | nil => simp
  | cons c cs ih => simp [ih]

theorem Tree.eq_leaf_of_sym {T : Tree} {k : TokenKind} (h : T.sym = .tok k) :
    ∃ t, T = .leaf t ∧ t.kind = k := by
  cases T with
  | leaf t => exact ⟨t, rfl, by simpa using h⟩
  | node r cs => simp at h

/-- **What the leaves of a derivation can be.** If the right-hand sides of the rules in `R` only
have tokens of kinds in `K` and rules in `R`, the leaves of a derivation of a symbol of that kind
have kinds in `K`. -/
theorem Derives.leaves_mem {K : TokenKind → Prop} {R : Rule → Prop}
    (hclosed : ∀ r xs, R r → Rhs ℓ r xs →
      ∀ y ∈ xs, (∀ k, y = .tok k → K k) ∧ ∀ r', y = .rule r' → R r')
    {T : Tree} (hT : Derives ℓ T) :
    (∀ r, T.sym = .rule r → R r) → (∀ k, T.sym = .tok k → K k) → ∀ t ∈ T.leaves, K t.kind := by
  induction hT with
  | leaf t =>
    intro _ hk u hu
    simp only [Tree.leaves_leaf, List.mem_singleton] at hu
    exact hu ▸ hk _ rfl
  | @node r cs hr _ ih =>
    intro hR _ u hu
    obtain ⟨c, hc, hu⟩ := Tree.mem_leavesAll.1 (by simpa using hu)
    have hsub := hclosed r _ (hR r rfl) hr c.sym (List.mem_map_of_mem hc)
    exact ih c hc hsub.2 hsub.1 u hu

/-- A derivation has no end of file among its leaves. -/
theorem Derives.leaves_ne_endOfFile {T : Tree} {r : Rule} (hT : Derives ℓ T)
    (hsym : T.sym = .rule r) : ∀ t ∈ T.leaves, t.kind ≠ .endOfFile := by
  refine hT.leaves_mem (K := fun k => k ≠ .endOfFile) (R := fun _ => True) ?_ (fun _ _ => trivial) ?_
  · intro r xs _ hr y hy
    exact ⟨fun k hk => hr.tok_ne_endOfFile (hk ▸ hy), fun _ _ => trivial⟩
  · intro k hk
    rw [hsym] at hk
    cases hk

/-- An expression, a term or a factor has no string among its leaves. -/
theorem Derives.leaves_ne_string {T : Tree} {r : Rule} (hT : Derives ℓ T) (hsym : T.sym = .rule r)
    (hr : r ∈ [Rule.expression, .term, .factor]) : ∀ t ∈ T.leaves, t.kind ≠ .string := by
  refine hT.leaves_mem (K := fun k => k ≠ .string) (R := fun r => r ∈ [Rule.expression, .term, .factor])
    ?_ ?_ ?_
  · intro r xs hR hrhs y hy
    simp only [List.mem_cons, List.not_mem_nil, or_false] at hR
    rcases hR with rfl | rfl | rfl <;> cases hrhs
    case expression seps hs | term seps hs =>
      rcases Sym.mem_separated hy with rfl | ⟨s, hs', rfl⟩
      · exact ⟨fun k hk => (by cases hk), fun r' hr' => (by cases hr'; simp)⟩
      · refine ⟨fun k hk => ?_, fun r' hr' => by cases hr'⟩
        cases hk
        rcases hs s hs' with rfl | rfl | rfl <;> decide
    case factorToken k hk =>
      simp only [List.mem_cons, List.not_mem_nil, or_false] at hy
      subst hy
      refine ⟨fun k' hk' => ?_, fun r' hr' => by cases hr'⟩
      cases hk'
      rcases hk with rfl | rfl <;> decide
    case parenthesised =>
      simp only [List.mem_cons, List.not_mem_nil, or_false] at hy
      rcases hy with rfl | rfl | rfl <;>
        exact ⟨fun k hk => (by cases hk <;> decide), fun r' hr' => (by cases hr' <;> simp)⟩
    case emptyFactor => simp at hy
  · intro r' hr'
    rw [hsym] at hr'
    cases hr'
    exact hr
  · intro k hk
    rw [hsym] at hk
    cases hk

/-! ## Runs that follow a derivation -/

/-- The flat run of `r` reports the derivation `T` from any cursor that hands out the leaves of
`T` and then a kind that may follow `r`. -/
def Complete (o : Options) (T : Tree) (r : Rule) : Prop :=
  ∀ c d, c.Reads T.leaves d → d.lookahead.kind ∈ r.follow →
    (recognize o r c).recognition = ⟨T.events, .ok d⟩

/-- After a rule symbol of a sequence that passes the follow check, the lookahead may follow the
rule. -/
theorem lookahead_after {r : Rule} {ts : List Tree} {d e : Cursor}
    (hok : Sym.followOk (.rule r :: ts.map Tree.sym) e.lookahead.kind = true)
    (h : d.Reads (Tree.leavesAll ts) e) :
    d.lookahead.kind ∈ r.follow ∧ Sym.followOk (ts.map Tree.sym) e.lookahead.kind = true := by
  cases ts with
  | nil =>
    obtain rfl := Cursor.Reads.nil_iff.1 h
    simpa [Sym.followOk] using hok
  | cons T ts =>
    cases T with
    | node r' cs => simp [Sym.followOk] at hok
    | leaf t =>
      simp only [List.map_cons, Tree.sym_leaf, Sym.followOk, Bool.and_eq_true,
        decide_eq_true_eq] at hok
      obtain ⟨hk, hrest⟩ := hok
      obtain ⟨hla, -⟩ := Cursor.Reads.cons_iff.1 (by simpa using h)
      exact ⟨hla ▸ hk, by simpa [Sym.followOk] using hrest⟩

/-- **A sequence that follows its derivations.** Running the symbols of the derivations `ts` from a
cursor that hands out their leaves reports their walks, and goes on where they end. -/
theorem seqRun_recognition {o : Options} :
    ∀ (ts : List Tree) (c d : Cursor) (k : (e : Cursor) → e.weight ≤ c.weight → Run e),
    (∀ T ∈ ts, ∀ r, T.sym = .rule r → Complete o T r) →
    (∀ T ∈ ts, ∀ k, T.sym = .tok k → k ≠ .endOfFile) →
    Sym.followOk (ts.map Tree.sym) d.lookahead.kind = true →
    (h : c.Reads (Tree.leavesAll ts) d) →
    (seqRun o (ts.map Tree.sym) c k).recognition =
      (k d h.weight_le).recognition.prepend (Tree.eventsAll ts)
  | [], c, d, k, _, _, _, h => by
    obtain rfl := Cursor.Reads.nil_iff.1 h
    rfl
  | .leaf t :: ts, c, d, k, hc, hne, hok, h => by
    have ht : t.kind ≠ .endOfFile := hne (.leaf t) (by simp) t.kind rfl
    obtain ⟨hla, t', s, hp, hr⟩ := Cursor.Reads.cons_iff.1 (by simpa using h)
    rw [List.map_cons, Tree.sym_leaf, seqRun, dif_neg ht,
      recognition_acceptThen_of_pull (by rw [hla]) hp,
      seqRun_recognition ts _ d _ (fun T hT => hc T (by simp [hT]))
        (fun T hT => hne T (by simp [hT])) (by simpa [Sym.followOk] using hok) hr]
    simp [Recognition.prepend_append, hla]
  | .node r cs :: ts, c, d, k, hc, hne, hok, h => by
    obtain ⟨d1, h1, h2⟩ := Cursor.Reads.of_append (by simpa using h)
    obtain ⟨hfollow, hok'⟩ := lookahead_after (by simpa using hok) h2
    have hrun := hc (.node r cs) (by simp) r rfl c d1 h1 hfollow
    rw [List.map_cons, Tree.sym_node, seqRun, recognition_bind_ok hrun,
      seqRun_recognition ts d1 d _ (fun T hT => hc T (by simp [hT]))
        (fun T hT => hne T (by simp [hT])) hok' h2]
    simp [Recognition.prepend_append]

/-- One symbol that follows its derivation. -/
theorem symRun_recognition {o : Options} {T : Tree} {c d : Cursor}
    (hc : ∀ r, T.sym = .rule r → Complete o T r) (hne : ∀ k, T.sym = .tok k → k ≠ .endOfFile)
    (hfollow : ∀ r, T.sym = .rule r → d.lookahead.kind ∈ r.follow) (h : c.Reads T.leaves d) :
    (symRun o T.sym c).recognition = ⟨T.events, .ok d⟩ := by
  cases T with
  | node r cs => exact hc r rfl c d h (hfollow r rfl)
  | leaf t =>
    obtain ⟨hla, t', s, hp, hr⟩ := Cursor.Reads.cons_iff.1 (by simpa using h)
    obtain rfl := Cursor.Reads.nil_iff.1 hr
    rw [Tree.sym_leaf, symRun, dif_neg (hne _ rfl), recognition_acceptThen_of_pull (by rw [hla]) hp]
    simp [hla]

/-- Before the rest of a list, the lookahead is a separator of the list or may follow the list;
either way it may follow the item. -/
theorem lookahead_before_rest {r y : Rule} {seps : List TokenKind} {rest : List Tree}
    {d e : Cursor} (hy : r.item = .rule y) (hseps : ∀ s ∈ seps, s ∈ r.separators)
    (hrest : rest.map Tree.sym = seps.flatMap fun s => [.tok s, r.item])
    (hf : e.lookahead.kind ∈ r.follow) (h : d.Reads (Tree.leavesAll rest) e) :
    d.lookahead.kind ∈ y.follow := by
  obtain ⟨hsep, hfol⟩ := Rule.follow_item hy
  cases seps with
  | nil =>
    obtain rfl : rest = [] := by simpa using hrest
    obtain rfl := Cursor.Reads.nil_iff.1 h
    exact hfol _ hf
  | cons s seps =>
    rw [List.flatMap_cons, List.cons_append] at hrest
    obtain ⟨T0, rest', rfl, h0, -⟩ := List.map_eq_cons_iff.1 hrest
    obtain ⟨t, rfl, ht⟩ := Tree.eq_leaf_of_sym h0
    obtain ⟨hla, -⟩ := Cursor.Reads.cons_iff.1 (by simpa using h)
    rw [hla, ht]
    exact hsep s (hseps s (by simp))

theorem Rule.item_ne_endOfFile (r : Rule) : r.item ≠ .tok .endOfFile := by
  cases r <;> simp [Rule.item]

/-- **The flat repetition follows the rest of a list**: separators and items, up to a lookahead
that may follow the list. -/
theorem repetition_recognition {o : Options} (hflat : o.shape = .flat) {r : Rule} :
    ∀ (seps : List TokenKind) (ts : List Tree) (c d : Cursor),
    (∀ s ∈ seps, s ∈ r.separators) →
    ts.map Tree.sym = seps.flatMap (fun s => [.tok s, r.item]) →
    (∀ T ∈ ts, ∀ x, T.sym = .rule x → Complete o T x) →
    d.lookahead.kind ∈ r.follow →
    c.Reads (Tree.leavesAll ts) d →
    (repetition o r c).recognition = ⟨Tree.eventsAll ts, .ok d⟩
  | [], ts, c, d, _, hts, _, hf, h => by
    obtain rfl : ts = [] := by simpa using hts
    obtain rfl := Cursor.Reads.nil_iff.1 h
    rw [repetition_flat o _ hflat, dif_neg (Rule.not_mem_separators_of_mem_follow hf)]
    rfl
  | s :: seps, ts, c, d, hseps, hts, hc, hf, h => by
    rw [List.flatMap_cons, List.cons_append, List.cons_append, List.nil_append] at hts
    obtain ⟨T0, ts1, rfl, h0, hts1⟩ := List.map_eq_cons_iff.1 hts
    obtain ⟨T1, rest, rfl, h1, hrest⟩ := List.map_eq_cons_iff.1 hts1
    obtain ⟨t, rfl, ht⟩ := Tree.eq_leaf_of_sym h0
    obtain ⟨hla, t', s', hp, hr⟩ := Cursor.Reads.cons_iff.1 (by simpa using h)
    obtain ⟨d1, h1', h2⟩ := Cursor.Reads.of_append hr
    have hseps' : ∀ s ∈ seps, s ∈ r.separators := fun s' hs' =>
      hseps s' (List.mem_cons_of_mem _ hs')
    have hsep : c.lookahead.kind ∈ r.separators := by
      rw [hla, ht]
      exact hseps s (by simp)
    -- the item after the separator ends where the rest of the list begins
    have hitem : (symRun o r.item ⟨t', s'⟩).recognition = ⟨T1.events, .ok d1⟩ := by
      rw [← h1]
      refine symRun_recognition (fun x hx => hc T1 (by simp) x hx) (fun k hk => ?_)
        (fun y hy => lookahead_before_rest (h1 ▸ hy) hseps' hrest hf h2) h1'
      rintro rfl
      exact r.item_ne_endOfFile (h1 ▸ hk)
    rw [repetition_flat o _ hflat, dif_pos hsep, recognition_acceptThen_of_pull rfl hp,
      recognition_bind_ok hitem, repetition_recognition hflat seps rest d1 d hseps' hrest
        (fun T hT => hc T (by simp [hT])) hf h2]
    simp [hla]

/-! ## Rule by rule -/

section Productions

variable {o : Options}

/-- A rule whose body reports the walks of its children reports the walk of the node. -/
theorem recognition_node {c d : Cursor} {x : Rule} {cs : List Tree} {body : Run c}
    (h : body.recognition = ⟨Tree.eventsAll cs, .ok d⟩) :
    (within x body).recognition = ⟨(Tree.node x cs).events, .ok d⟩ := by
  rw [recognition_within_ok h, Tree.events_node]

/-- The token children at the beginning of a right-hand side are not the end of file. -/
theorem Rhs.ne_endOfFile_of_map {r : Rule} {cs : List Tree} {u v : List Sym}
    (hr : Rhs ℓ r (u ++ v)) (hcs : cs.map Tree.sym = u) :
    ∀ T ∈ cs, ∀ k, T.sym = .tok k → k ≠ .endOfFile := by
  intro T hT k hk
  apply hr.tok_ne_endOfFile
  rw [← hk, ← hcs]
  exact List.mem_append_left _ (List.mem_map_of_mem hT)

/-- A sequence of one symbol passes the follow check when the lookahead may follow it. -/
theorem Sym.followOk_single {x : Sym} {f : TokenKind} (h : ∀ y, x = .rule y → f ∈ y.follow) :
    Sym.followOk [x] f = true := by
  cases x with
  | tok k => rfl
  | rule y => simpa [Sym.followOk] using h y rfl

/-- **A rule that is one sequence of symbols.** -/
theorem complete_seq {r : Rule} {xs : List Sym} {cs : List Tree}
    (heq : ∀ c, recognize o r c = within r (seqRun o xs c fun d _ => done d))
    (hr : Rhs ℓ r xs) (hcs : cs.map Tree.sym = xs)
    (ih : ∀ T ∈ cs, ∀ x, T.sym = .rule x → Complete o T x) : Complete o (.node r cs) r := by
  intro c d h hf
  rw [heq, ← hcs]
  apply recognition_node
  rw [seqRun_recognition cs c d _ ih (Rhs.ne_endOfFile_of_map (v := []) (by simpa [hcs] using hr) rfl)
    (by rw [hcs]; exact hr.followOk hf) (by simpa using h)]
  simp

/-- **A list rule**: its first item, then the flat repetition of the rest. -/
theorem complete_list (hflat : o.shape = .flat) {r : Rule} {seps : List TokenKind} {cs : List Tree}
    (heq : ∀ c, recognize o r c = within r (seqRun o [r.item] c fun d _ => repetition o r d))
    (hseps : ∀ s ∈ seps, s ∈ r.separators) (hcs : cs.map Tree.sym = r.item.separated seps)
    (ih : ∀ T ∈ cs, ∀ x, T.sym = .rule x → Complete o T x) : Complete o (.node r cs) r := by
  intro c d h hf
  obtain ⟨T0, rest, rfl, h0, hrest⟩ := List.map_eq_cons_iff.1 hcs
  obtain ⟨d1, h1, h2⟩ := Cursor.Reads.of_append (by simpa using h)
  rw [heq, show [r.item] = [T0].map Tree.sym by simp [h0]]
  apply recognition_node
  rw [seqRun_recognition [T0] c d1 _ (fun T hT => ih T (by simp_all))
    (fun T hT k hk => by
      rintro rfl
      simp only [List.mem_singleton] at hT
      subst hT
      exact r.item_ne_endOfFile (h0 ▸ hk))
    (Sym.followOk_single fun y hy => lookahead_before_rest (h0 ▸ hy) hseps hrest hf h2)
    (by simpa using h1)]
  rw [repetition_recognition hflat seps rest d1 d hseps hrest
    (fun T hT => ih T (by simp [hT])) hf h2]
  simp

/-- The kind of statement that each of its first tokens starts. -/
def statementKinds : List (TokenKind × Rule) :=
  [(.identifier, .assignment), (.kwIf, .ifStatement), (.kwWhile, .whileStatement),
    (.kwCall, .procedureStatement), (.kwDo, .untilStatement), (.kwFor, .forStatement)]

/-- A statement runs the kind of statement that its lookahead starts. -/
theorem recognize_statement_of_start {c : Cursor} {k : TokenKind} {x : Rule}
    (hx : (k, x) ∈ statementKinds) (hk : c.lookahead.kind = k) :
    recognize o .statement c = within .statement (recognize o x c) := by
  simp only [statementKinds, List.mem_cons, Prod.mk.injEq, List.not_mem_nil, or_false] at hx
  rcases hx with ⟨rfl, rfl⟩ | ⟨rfl, rfl⟩ | ⟨rfl, rfl⟩ | ⟨rfl, rfl⟩ | ⟨rfl, rfl⟩ | ⟨rfl, rfl⟩ <;>
    rw [recognize_statement, choose_of_mem (by rw [hk]; decide)] <;> split <;>
      first | rfl | simp_all

theorem Tree.leavesAll_of_map_tok {cs : List Tree} {k : TokenKind} {xs : List Sym}
    (h : cs.map Tree.sym = .tok k :: xs) : ∃ t rest, Tree.leavesAll cs = t :: rest ∧ t.kind = k := by
  obtain ⟨T, cs', rfl, hT, -⟩ := List.map_eq_cons_iff.1 h
  obtain ⟨t, rfl, ht⟩ := Tree.eq_leaf_of_sym hT
  exact ⟨t, Tree.leavesAll cs', by simp, ht⟩

/-- Each kind of statement begins with the token that starts it. -/
theorem Derives.statement_start {T : Tree} {x : Rule} (hT : Derives ℓ T) (hsym : T.sym = .rule x)
    (hx : x ∈ [Rule.assignment, .ifStatement, .whileStatement, .procedureStatement,
      .untilStatement, .forStatement]) :
    ∃ k t rest, (k, x) ∈ statementKinds ∧ T.leaves = t :: rest ∧ t.kind = k := by
  cases hT with
  | leaf t => simp at hsym
  | @node r cs hr _ =>
    simp only [Tree.sym_node, Sym.rule.injEq] at hsym
    subst hsym
    generalize hxs : cs.map Tree.sym = xs at hr
    cases hr <;> simp only [List.mem_cons, reduceCtorEq, List.not_mem_nil, or_false,
      or_true] at hx <;>
    · obtain ⟨t, rest, hl, ht⟩ := Tree.leavesAll_of_map_tok hxs
      exact ⟨_, t, rest, by decide, by simpa using hl, ht⟩

/-- What may follow a statement may follow each kind of statement. -/
theorem Rule.follow_of_statement {x : Rule} {k : TokenKind}
    (hx : x ∈ [Rule.assignment, .ifStatement, .whileStatement, .procedureStatement,
      .untilStatement, .forStatement]) (hk : k ∈ Rule.statement.follow) : k ∈ x.follow := by
  simp only [List.mem_cons, List.not_mem_nil, or_false] at hx
  revert k
  rcases hx with rfl | rfl | rfl | rfl | rfl | rfl <;> decide

/-- **A statement**: the kind of statement that its first token starts. -/
theorem complete_statement {cs : List Tree} {x : Rule}
    (hx : x ∈ [Rule.assignment, .ifStatement, .whileStatement, .procedureStatement,
      .untilStatement, .forStatement])
    (hcs : cs.map Tree.sym = [.rule x]) (hder : ∀ T ∈ cs, Derives ℓ T)
    (ih : ∀ T ∈ cs, ∀ x, T.sym = .rule x → Complete o T x) :
    Complete o (.node .statement cs) .statement := by
  intro c d h hf
  obtain ⟨T, rfl, hT⟩ := List.map_eq_singleton_iff.1 hcs
  obtain ⟨k, t, rest, hkx, hl, ht⟩ := (hder T (by simp)).statement_start hT hx
  have hla : c.lookahead = t := (Cursor.Reads.cons_iff.1 (by simpa [hl] using h)).1
  rw [recognize_statement_of_start hkx (by rw [hla, ht])]
  apply recognition_node
  rw [ih T (by simp) x hT c d (by simpa using h) (Rule.follow_of_statement hx hf)]
  simp

/-- **An empty alternative of the lenient grammar**: the lookahead may follow the rule, and so it
starts none of its alternatives. -/
theorem complete_empty {r : Rule}
    (heq : ∀ c, c.lookahead.kind ∈ r.follow → recognize o r c = within r (done c)) :
    Complete o (.node r []) r := by
  intro c d h hf
  obtain rfl := Cursor.Reads.nil_iff.1 (by simpa using h)
  rw [heq _ hf]
  exact recognition_node rfl

/-- In the lenient grammar, a statement that the lookahead does not start is empty. -/
theorem recognize_statement_empty (hs : o.strict = false) {c : Cursor}
    (hc : c.lookahead.kind ∈ Rule.statement.follow) :
    recognize o .statement c = within .statement (done c) := by
  have hdis : ∀ k ∈ Rule.statement.follow, k ∉ Choice.statementStarts := by decide
  rw [recognize_statement, choose_of_not_mem (hdis _ hc), hs]
  rfl

/-- **An assignment of an expression**: after the becomes sign the lookahead starts the expression,
or follows the assignment when the expression is empty, and is never a string. -/
theorem complete_assignExpression {cs : List Tree}
    (hcs : cs.map Tree.sym = [.tok .identifier, .tok .becomes, .rule .expression])
    (hder : ∀ T ∈ cs, Derives ℓ T) (ih : ∀ T ∈ cs, ∀ x, T.sym = .rule x → Complete o T x) :
    Complete o (.node .assignment cs) .assignment := by
  intro c d h hf
  obtain ⟨cs1, cs2, rfl, h1, h2⟩ := List.map_eq_append_iff.1 (by simpa using hcs :
    cs.map Tree.sym = [.tok .identifier, .tok .becomes] ++ [.rule .expression])
  obtain ⟨T, rfl, hT⟩ := List.map_eq_singleton_iff.1 h2
  obtain ⟨d2, hr1, hr2⟩ := Cursor.Reads.of_append (by simpa using h)
  have hstr : d2.lookahead.kind ≠ .string := by
    cases hl : T.leaves with
    | nil =>
      rw [hl, Cursor.Reads.nil_iff] at hr2
      subst hr2
      intro hk
      rw [hk] at hf
      simp [Rule.follow] at hf
    | cons t rest =>
      rw [(Cursor.Reads.cons_iff.1 (hl ▸ hr2)).1]
      exact (hder T (by simp)).leaves_ne_string hT (by simp) t (by simp [hl])
  rw [recognize_assignment, ← h1]
  apply recognition_node
  rw [seqRun_recognition cs1 c d2 _ (fun T hT => ih T (by simp [hT]))
    (Rhs.ne_endOfFile_of_map (v := [.rule .expression]) (by simpa using Rhs.assignExpression (ℓ := false)) h1)
    (by rw [h1]; rfl) hr1]
  simp only [if_neg hstr]
  rw [ih T (by simp) .expression hT d2 d (by simpa using hr2) hf]
  simp

/-- **An assignment of a string.** -/
theorem complete_assignString {cs : List Tree}
    (hcs : cs.map Tree.sym = [.tok .identifier, .tok .becomes, .tok .string])
    (ih : ∀ T ∈ cs, ∀ x, T.sym = .rule x → Complete o T x) :
    Complete o (.node .assignment cs) .assignment := by
  intro c d h hf
  obtain ⟨cs1, cs2, rfl, h1, h2⟩ := List.map_eq_append_iff.1 (by simpa using hcs :
    cs.map Tree.sym = [.tok .identifier, .tok .becomes] ++ [.tok .string])
  obtain ⟨T, rfl, hT⟩ := List.map_eq_singleton_iff.1 h2
  obtain ⟨t, rfl, ht⟩ := Tree.eq_leaf_of_sym hT
  obtain ⟨d2, hr1, hr2⟩ := Cursor.Reads.of_append (by simpa using h)
  have hstr : d2.lookahead.kind = .string := by
    rw [(Cursor.Reads.cons_iff.1 (by simpa using hr2)).1, ht]
  rw [recognize_assignment, ← h1]
  apply recognition_node
  rw [seqRun_recognition cs1 c d2 _ (fun T hT => ih T (by simp [hT]))
    (Rhs.ne_endOfFile_of_map (v := [.tok .string]) (by simpa using Rhs.assignString (ℓ := false)) h1)
    (by rw [h1]; rfl) hr1]
  simp only [if_pos hstr]
  rw [show [Sym.tok .string] = [Tree.leaf t].map Tree.sym by simp [ht],
    seqRun_recognition [Tree.leaf t] d2 d _ (by simp) (by simp [ht]) rfl (by simpa using hr2)]
  simp

/-- **An if statement without else**: after the statement list the lookahead is the closing
`end`, not `else`. -/
theorem complete_ifThen {cs : List Tree}
    (hcs : cs.map Tree.sym = [.tok .kwIf, .rule .condition, .tok .kwThen, .rule .statementList,
      .tok .kwEnd, .tok .kwIf])
    (ih : ∀ T ∈ cs, ∀ x, T.sym = .rule x → Complete o T x) :
    Complete o (.node .ifStatement cs) .ifStatement := by
  intro c d h hf
  obtain ⟨cs1, cs2, rfl, h1, h2⟩ := List.map_eq_append_iff.1 (by simpa using hcs :
    cs.map Tree.sym = [.tok .kwIf, .rule .condition, .tok .kwThen, .rule .statementList] ++
      [.tok .kwEnd, .tok .kwIf])
  obtain ⟨d2, hr1, hr2⟩ := Cursor.Reads.of_append (by simpa using h)
  obtain ⟨t, rest, hl, ht⟩ := Tree.leavesAll_of_map_tok h2
  have hend : d2.lookahead.kind = .kwEnd := by rw [(Cursor.Reads.cons_iff.1 (hl ▸ hr2)).1, ht]
  have hne := Rhs.ne_endOfFile_of_map (v := []) (by simpa using Rhs.ifThen (ℓ := false)) hcs
  rw [recognize_ifStatement, ← h1]
  apply recognition_node
  rw [seqRun_recognition cs1 c d2 _ (fun T hT => ih T (by simp [hT]))
    (fun T hT => hne T (by simp [hT])) (by rw [h1, hend]; rfl) hr1]
  simp only [hend, reduceCtorEq, if_false]
  rw [recognition_bind_ok (recognition_done _), ← h2,
    seqRun_recognition cs2 d2 d _ (fun T hT => ih T (by simp [hT]))
      (fun T hT => hne T (by simp [hT])) (by rw [h2]; rfl) hr2]
  simp

/-- **An if statement with else**: after the first statement list the lookahead is `else`. -/
theorem complete_ifThenElse {cs : List Tree}
    (hcs : cs.map Tree.sym = [.tok .kwIf, .rule .condition, .tok .kwThen, .rule .statementList,
      .tok .kwElse, .rule .statementList, .tok .kwEnd, .tok .kwIf])
    (ih : ∀ T ∈ cs, ∀ x, T.sym = .rule x → Complete o T x) :
    Complete o (.node .ifStatement cs) .ifStatement := by
  intro c d h hf
  obtain ⟨cs1, cs2, rfl, h1, h2⟩ := List.map_eq_append_iff.1 (by simpa using hcs :
    cs.map Tree.sym = [.tok .kwIf, .rule .condition, .tok .kwThen, .rule .statementList] ++
      [.tok .kwElse, .rule .statementList, .tok .kwEnd, .tok .kwIf])
  obtain ⟨T0, cs3, rfl, h0, h3⟩ := List.map_eq_cons_iff.1 h2
  obtain ⟨TL, cs4, rfl, hL, h4⟩ := List.map_eq_cons_iff.1 h3
  obtain ⟨t, rfl, ht⟩ := Tree.eq_leaf_of_sym h0
  have hne := Rhs.ne_endOfFile_of_map (v := []) (by simpa using Rhs.ifThenElse (ℓ := false)) hcs
  obtain ⟨d2, hr1, hr2⟩ := Cursor.Reads.of_append (by simpa using h)
  obtain ⟨hla, t', s', hp, hr3⟩ := Cursor.Reads.cons_iff.1 (by simpa using hr2)
  obtain ⟨d4, hrL, hr4⟩ := Cursor.Reads.of_append hr3
  obtain ⟨u, rest, hl, hu⟩ := Tree.leavesAll_of_map_tok h4
  have hend : d4.lookahead.kind = .kwEnd := by rw [(Cursor.Reads.cons_iff.1 (hl ▸ hr4)).1, hu]
  have helse : d2.lookahead.kind = .kwElse := by rw [hla, ht]
  -- the else part: `else`, then the second statement list up to the closing `end`
  have hpart : (seqRun o [.tok .kwElse] d2 fun e _ => recognize o .statementList e).recognition =
      ⟨.terminal t :: TL.events, .ok d4⟩ := by
    rw [show [Sym.tok .kwElse] = [Tree.leaf t].map Tree.sym by simp [ht],
      seqRun_recognition [Tree.leaf t] d2 ⟨t', s'⟩ _ (by simp) (by simp [ht]) rfl
        (by simpa [hla] using Cursor.Reads.cons hp (.nil _))]
    rw [ih TL (by simp) .statementList hL _ d4 hrL (by rw [hend]; decide)]
    simp
  rw [recognize_ifStatement, ← h1]
  apply recognition_node
  rw [seqRun_recognition cs1 c d2 _ (fun T hT => ih T (by simp [hT]))
    (fun T hT => hne T (by simp [hT])) (by rw [h1, helse]; rfl) hr1]
  simp only [helse, if_true]
  rw [recognition_bind_ok hpart, ← h4,
    seqRun_recognition cs4 d4 d _ (fun T hT => ih T (by simp [hT]))
      (fun T hT => hne T (by simp [hT])) (by rw [h4]; rfl) hr4]
  simp

/-- **An until statement**: its condition comes last and is followed by what follows the
statement. -/
theorem complete_untilStatement {cs : List Tree}
    (hcs : cs.map Tree.sym = [.tok .kwDo, .rule .statementList, .tok .kwUntil, .rule .condition])
    (ih : ∀ T ∈ cs, ∀ x, T.sym = .rule x → Complete o T x) :
    Complete o (.node .untilStatement cs) .untilStatement := by
  intro c d h hf
  obtain ⟨cs1, cs2, rfl, h1, h2⟩ := List.map_eq_append_iff.1 (by simpa using hcs :
    cs.map Tree.sym = [.tok .kwDo, .rule .statementList, .tok .kwUntil] ++ [.rule .condition])
  obtain ⟨T, rfl, hT⟩ := List.map_eq_singleton_iff.1 h2
  obtain ⟨d2, hr1, hr2⟩ := Cursor.Reads.of_append (by simpa using h)
  rw [recognize_untilStatement, ← h1]
  apply recognition_node
  rw [seqRun_recognition cs1 c d2 _ (fun T hT => ih T (by simp [hT]))
    (Rhs.ne_endOfFile_of_map (v := [.rule .condition]) (by simpa using Rhs.untilStatement (ℓ := false)) h1)
    (by rw [h1]; rfl) hr1]
  rw [ih T (by simp) .condition hT d2 d (by simpa using hr2)
    (by revert hf; generalize d.lookahead.kind = k; revert k; decide)]
  simp

/-- **A condition with its operand**: after the comparison the lookahead is the operand. -/
theorem complete_condition {cs : List Tree} {k : TokenKind}
    (hk : k ∈ [TokenKind.identifier, .number, .string])
    (hcs : cs.map Tree.sym = [.tok .identifier, .rule .conditionalOperator, .tok k])
    (ih : ∀ T ∈ cs, ∀ x, T.sym = .rule x → Complete o T x) :
    Complete o (.node .condition cs) .condition := by
  intro c d h hf
  obtain ⟨cs1, cs2, rfl, h1, h2⟩ := List.map_eq_append_iff.1 (by simpa using hcs :
    cs.map Tree.sym = [.tok .identifier, .rule .conditionalOperator] ++ [.tok k])
  obtain ⟨T, rfl, hT⟩ := List.map_eq_singleton_iff.1 h2
  obtain ⟨t, rfl, ht⟩ := Tree.eq_leaf_of_sym hT
  obtain ⟨d2, hr1, hr2⟩ := Cursor.Reads.of_append (by simpa using h)
  obtain ⟨hla, t', s', hp, hr3⟩ := Cursor.Reads.cons_iff.1 (by simpa using hr2)
  obtain rfl := Cursor.Reads.nil_iff.1 hr3
  have hkind : d2.lookahead.kind ∈ Choice.operands := by rw [hla, ht]; exact hk
  rw [recognize_condition, ← h1]
  apply recognition_node
  rw [seqRun_recognition cs1 c d2 _ (fun T hT => ih T (by simp [hT]))
    (Rhs.ne_endOfFile_of_map (v := [.tok k]) (by simpa using Rhs.condition (ℓ := false) hk) h1)
    (by rw [h1]; revert hkind; generalize d2.lookahead.kind = k'; revert k'; decide) hr1]
  rw [choose_of_mem hkind, recognition_acceptThen_of_pull rfl hp]
  simp [hla]

/-- **A condition without its operand**, in the lenient grammar: what follows the condition is no
operand. -/
theorem complete_conditionWithoutOperand (hs : o.strict = false) {cs : List Tree}
    (hcs : cs.map Tree.sym = [.tok .identifier, .rule .conditionalOperator])
    (ih : ∀ T ∈ cs, ∀ x, T.sym = .rule x → Complete o T x) :
    Complete o (.node .condition cs) .condition := by
  intro c d h hf
  have hdis : ∀ k ∈ Rule.condition.follow, k ∉ Choice.operands := by decide
  rw [recognize_condition, ← hcs]
  apply recognition_node
  rw [seqRun_recognition cs c d _ ih
    (Rhs.ne_endOfFile_of_map (v := []) (by simpa using Rhs.conditionWithoutOperand) hcs)
    (by rw [hcs]; revert hf; generalize d.lookahead.kind = k; revert k; decide) (by simpa using h)]
  rw [choose_of_not_mem (hdis _ hf), hs]
  simp

/-- **A comparison.** -/
theorem complete_comparison {cs : List Tree} {k : TokenKind} (hk : k ∈ Choice.comparisons)
    (hcs : cs.map Tree.sym = [.tok k]) :
    Complete o (.node .conditionalOperator cs) .conditionalOperator := by
  intro c d h hf
  obtain ⟨T, rfl, hT⟩ := List.map_eq_singleton_iff.1 hcs
  obtain ⟨t, rfl, ht⟩ := Tree.eq_leaf_of_sym hT
  obtain ⟨hla, t', s', hp, hr⟩ := Cursor.Reads.cons_iff.1 (by simpa using h)
  obtain rfl := Cursor.Reads.nil_iff.1 hr
  rw [recognize_conditionalOperator, choose_of_mem (by rw [hla, ht]; exact hk)]
  apply recognition_node
  rw [recognition_acceptThen_of_pull rfl hp]
  simp [hla]

/-- In the lenient grammar, a comparison that the lookahead does not start is empty. -/
theorem recognize_conditionalOperator_empty (hs : o.strict = false) {c : Cursor}
    (hc : c.lookahead.kind ∈ Rule.conditionalOperator.follow) :
    recognize o .conditionalOperator c = within .conditionalOperator (done c) := by
  have hdis : ∀ k ∈ Rule.conditionalOperator.follow, k ∉ Choice.comparisons := by decide
  rw [recognize_conditionalOperator, choose_of_not_mem (hdis _ hc), hs]
  rfl

/-- **A factor that is one token**, an identifier or a number. -/
theorem complete_factorToken {cs : List Tree} {k : TokenKind}
    (hk : k = .identifier ∨ k = .number) (hcs : cs.map Tree.sym = [.tok k]) :
    Complete o (.node .factor cs) .factor := by
  intro c d h hf
  obtain ⟨T, rfl, hT⟩ := List.map_eq_singleton_iff.1 hcs
  obtain ⟨t, rfl, ht⟩ := Tree.eq_leaf_of_sym hT
  obtain ⟨hla, t', s', hp, hr⟩ := Cursor.Reads.cons_iff.1 (by simpa using h)
  obtain rfl := Cursor.Reads.nil_iff.1 hr
  have hkind : c.lookahead.kind = k := by rw [hla, ht]
  rw [recognize_factor, choose_of_mem (by rw [hkind]; rcases hk with rfl | rfl <;> decide)]
  apply recognition_node
  rw [if_neg (by rw [hkind]; rcases hk with rfl | rfl <;> decide),
    recognition_acceptThen_of_pull rfl hp]
  simp [hla]

/-- **A parenthesised expression.** -/
theorem complete_parenthesised {cs : List Tree}
    (hcs : cs.map Tree.sym = [.tok .openParen, .rule .expression, .tok .closeParen])
    (ih : ∀ T ∈ cs, ∀ x, T.sym = .rule x → Complete o T x) :
    Complete o (.node .factor cs) .factor := by
  intro c d h hf
  obtain ⟨t, rest, hl, ht⟩ := Tree.leavesAll_of_map_tok hcs
  have hkind : c.lookahead.kind = .openParen := by
    rw [(Cursor.Reads.cons_iff.1 (by simpa [hl] using h)).1, ht]
  rw [recognize_factor, choose_of_mem (by rw [hkind]; decide)]
  apply recognition_node
  rw [if_pos hkind, ← hcs, seqRun_recognition cs c d _ ih
    (Rhs.ne_endOfFile_of_map (v := []) (by simpa using Rhs.parenthesised (ℓ := false)) hcs)
    (by rw [hcs]; rfl) (by simpa using h)]
  simp

/-- In the lenient grammar, a factor that the lookahead does not start is empty. -/
theorem recognize_factor_empty (hs : o.strict = false) {c : Cursor}
    (hc : c.lookahead.kind ∈ Rule.factor.follow) :
    recognize o .factor c = within .factor (done c) := by
  have hdis : ∀ k ∈ Rule.factor.follow, k ∉ Choice.factorStarts := by decide
  rw [recognize_factor, choose_of_not_mem (hdis _ hc), hs]
  rfl

end Productions

/-- **Completeness of the flat recogniser.** In the flat shape, a derivation of a rule, in the
grammar that the choices recognise (the lenient one exactly when they are lenient), is what the
run of that rule reports from any cursor that hands out its leaves followed by a kind that may
follow the rule: its walk, ending where the leaves end. -/
theorem recognize_complete (o : Options) (hflat : o.shape = .flat) {T : Tree}
    (hT : Derives (!o.strict) T) : ∀ r, T.sym = .rule r → Complete o T r := by
  induction hT with
  | leaf t =>
    intro r h
    cases h
  | @node r cs hr hder ih =>
    intro r' hr'
    cases hr'
    -- the lenient alternatives exist only when the choices are lenient
    generalize hℓ : (!o.strict) = ℓ at hr hder
    have hs : ℓ = true → o.strict = false := fun h => by simpa [h] using hℓ
    generalize hxs : cs.map Tree.sym = xs at hr
    cases hr with
    | statementPart => exact complete_seq (ℓ := ℓ) (recognize_statementPart o) .statementPart hxs ih
    | statementList seps hsep =>
      exact complete_list hflat (recognize_statementList o) (by simpa [Rule.separators] using hsep)
        hxs ih
    | statement hx => exact complete_statement hx hxs hder ih
    | emptyStatement =>
      obtain rfl : cs = [] := by simpa using hxs
      exact complete_empty fun c hc => recognize_statement_empty (hs rfl) hc
    | assignExpression => exact complete_assignExpression hxs hder ih
    | assignString => exact complete_assignString hxs ih
    | ifThen => exact complete_ifThen hxs ih
    | ifThenElse => exact complete_ifThenElse hxs ih
    | whileStatement => exact complete_seq (ℓ := ℓ) (recognize_whileStatement o) .whileStatement hxs ih
    | procedureStatement =>
      exact complete_seq (ℓ := ℓ) (recognize_procedureStatement o) .procedureStatement hxs ih
    | untilStatement => exact complete_untilStatement hxs ih
    | forStatement => exact complete_seq (ℓ := ℓ) (recognize_forStatement o) .forStatement hxs ih
    | argumentList seps hsep =>
      exact complete_list hflat (recognize_argumentList o) (by simpa [Rule.separators] using hsep)
        hxs ih
    | condition hk => exact complete_condition hk hxs ih
    | conditionWithoutOperand => exact complete_conditionWithoutOperand (hs rfl) hxs ih
    | comparison hk => exact complete_comparison hk hxs
    | emptyComparison =>
      obtain rfl : cs = [] := by simpa using hxs
      exact complete_empty fun c hc => recognize_conditionalOperator_empty (hs rfl) hc
    | expression seps hsep =>
      exact complete_list hflat (recognize_expression o) (by simpa [Rule.separators] using hsep)
        hxs ih
    | term seps hsep =>
      exact complete_list hflat (recognize_term o) (by simpa [Rule.separators] using hsep) hxs ih
    | factorToken hk => exact complete_factorToken hk hxs
    | parenthesised => exact complete_parenthesised hxs ih
    | emptyFactor =>
      obtain rfl : cs = [] := by simpa using hxs
      exact complete_empty fun c hc => recognize_factor_empty (hs rfl) hc

end SyntaxCheck
