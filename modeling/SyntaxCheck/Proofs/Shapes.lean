import SyntaxCheck.Proofs.Locality
import SyntaxCheck.Proofs.Programs

/-!
# The two shapes of repetition

A list rule `X ::= Y (sep Y)*` is recognised in one of two shapes. The flat shape loops: after each
separator it recognises one more item. The nested shape recurses: after each separator it
recognises the whole list rule again, which enters the rule once more and leaves it once more at
the end. Both accept the same tokens and end, or stop, in the same way; only the walk differs.

The nested walk is a function of the flat one (`Event.nestFrom`). Reading the flat walk with the
stack of the rule instances open at each point, a terminal whose kind separates the items of the
innermost instance is a separator accepted by that instance's repetition: the nested walk enters
the rule again right after it. When an instance exits, the nested walk exits it once more for
every separator its repetition accepted. The separators of a `for` header are not among them:
there the innermost instance is the `for` statement, which separates nothing.

The simulation is proved step by step (`Run.Nests`, with `Run.NestsIn` inside the body of a list
rule, where the repetition has left exits pending) and then, for whole runs, by the recogniser's
induction (`recognize_nests`).
-/

namespace SyntaxCheck

/-! ## The nested walk of a flat walk -/

namespace Event

/-- One event of a flat walk, read with the instances open before it (innermost first, each with
the number of separators its repetition has accepted): the events it stands for in the nested
walk, and the instances open after it. -/
def nestStep : List (Rule × Nat) → Event → List Event × List (Rule × Nat)
  | st, .enter r => ([.enter r], (r, 0) :: st)
  | [], .terminal t => ([.terminal t], [])
  | (x, n) :: st, .terminal t =>
    if t.kind ∈ x.separators then ([.terminal t, .enter x], (x, n + 1) :: st)
    else ([.terminal t], (x, n) :: st)
  | [], .exit r => ([.exit r], [])
  | (_, n) :: st, .exit r => (List.replicate (n + 1) (.exit r), st)

/-- The nested walk of the flat walk `es`, read from the open instances `st`. -/
def nestFrom : List (Rule × Nat) → List Event → List Event
  | _, [] => []
  | st, e :: es => (nestStep st e).1 ++ nestFrom (nestStep st e).2 es

/-- The instances open after the flat walk `es`, read from `st`. -/
def openAfter : List (Rule × Nat) → List Event → List (Rule × Nat)
  | st, [] => st
  | st, e :: es => openAfter (nestStep st e).2 es

/-- The kinds that the innermost open instance separates its items by. -/
def topSeparators : List (Rule × Nat) → List TokenKind
  | [] => []
  | (x, _) :: _ => x.separators

section Walks

variable (st : List (Rule × Nat)) (es es' : List Event)

@[simp] theorem nestFrom_nil : nestFrom st [] = [] := rfl

@[simp] theorem openAfter_nil : openAfter st [] = st := rfl

@[simp] theorem nestFrom_enter (r : Rule) :
    nestFrom st (.enter r :: es) = .enter r :: nestFrom ((r, 0) :: st) es := rfl

@[simp] theorem openAfter_enter (r : Rule) :
    openAfter st (.enter r :: es) = openAfter ((r, 0) :: st) es := rfl

@[simp] theorem nestFrom_exit (r : Rule) (x : Rule) (n : Nat) :
    nestFrom ((x, n) :: st) (.exit r :: es) = List.replicate (n + 1) (.exit r) ++ nestFrom st es :=
  rfl

@[simp] theorem openAfter_exit (r : Rule) (x : Rule) (n : Nat) :
    openAfter ((x, n) :: st) (.exit r :: es) = openAfter st es := rfl

/-- A terminal that the innermost instance does not separate by stands for itself. -/
theorem nestFrom_terminal {t : Token} (ht : t.kind ∉ topSeparators st) :
    nestFrom st (.terminal t :: es) = .terminal t :: nestFrom st es := by
  cases st with
  | nil => rfl
  | cons p st =>
    obtain ⟨x, n⟩ := p
    simp only [topSeparators] at ht
    simp [nestFrom, nestStep, ht]

theorem openAfter_terminal {t : Token} (ht : t.kind ∉ topSeparators st) :
    openAfter st (.terminal t :: es) = openAfter st es := by
  cases st with
  | nil => rfl
  | cons p st =>
    obtain ⟨x, n⟩ := p
    simp only [topSeparators] at ht
    simp [openAfter, nestStep, ht]

/-- A separator of the innermost instance enters its rule again, and counts one more separator. -/
theorem nestFrom_separator {t : Token} {x : Rule} {n : Nat} (ht : t.kind ∈ x.separators) :
    nestFrom ((x, n) :: st) (.terminal t :: es) =
      .terminal t :: .enter x :: nestFrom ((x, n + 1) :: st) es := by
  simp [nestFrom, nestStep, ht]

theorem openAfter_separator {t : Token} {x : Rule} {n : Nat} (ht : t.kind ∈ x.separators) :
    openAfter ((x, n) :: st) (.terminal t :: es) = openAfter ((x, n + 1) :: st) es := by
  simp [openAfter, nestStep, ht]

theorem nestFrom_append :
    nestFrom st (es ++ es') = nestFrom st es ++ nestFrom (openAfter st es) es' := by
  induction es generalizing st with
  | nil => rfl
  | cons e es ih => simp [nestFrom, openAfter, ih]

theorem openAfter_append : openAfter st (es ++ es') = openAfter (openAfter st es) es' := by
  induction es generalizing st with
  | nil => rfl
  | cons e es ih => simp [openAfter, ih]

/-- The nested walk accepts the same tokens as the flat walk. -/
@[simp] theorem terminals_nestFrom : terminals (nestFrom st es) = terminals es := by
  induction es generalizing st with
  | nil => rfl
  | cons e es ih =>
    rw [nestFrom, terminals_append, ih]
    cases e with
    | enter r => rfl
    | exit r =>
      cases st with
      | nil => rfl
      | cons p st => simp [nestStep, terminals]
    | terminal t =>
      cases st with
      | nil => rfl
      | cons p st =>
        simp only [nestStep]
        split <;> rfl

/-- How many separators the repetitions of the instances of `x` accept along the flat walk `es`,
read with the rules open before it (innermost first): the terminals read directly inside an
instance of `x` whose kind separates its items. -/
def separatorsOf (x : Rule) : List Rule → List Event → Nat
  | _, [] => 0
  | rs, .enter r :: es => separatorsOf x (r :: rs) es
  | rs, .exit _ :: es => separatorsOf x rs.tail es
  | rs, .terminal t :: es =>
    (if rs.head? = some x ∧ t.kind ∈ x.separators then 1 else 0) + separatorsOf x rs es

/-- The nested walk enters `x` once more for every separator accepted by an instance of `x`. -/
theorem count_enter_nestFrom (x : Rule) :
    (nestFrom st es).count (.enter x) =
      es.count (.enter x) + separatorsOf x (st.map Prod.fst) es := by
  induction es generalizing st with
  | nil => rfl
  | cons e es ih =>
    cases e with
    | enter r =>
      simp only [nestFrom_enter, List.count_cons, ih, separatorsOf, List.map_cons]
      omega
    | exit r =>
      cases st with
      | nil => simp [nestFrom, nestStep, ih, separatorsOf]
      | cons p st =>
        obtain ⟨y, n⟩ := p
        simp [ih, separatorsOf, List.count_replicate]
    | terminal t =>
      cases st with
      | nil => simp [nestFrom, nestStep, ih, separatorsOf]
      | cons p st =>
        obtain ⟨y, n⟩ := p
        by_cases ht : t.kind ∈ y.separators
        · rw [nestFrom_separator _ _ ht]
          by_cases hy : y = x
          · subst hy
            simp [ih, separatorsOf, ht]
            omega
          · simp [ih, separatorsOf, hy]
        · rw [nestFrom_terminal _ _ ht]
          have hsep : ¬ (y = x ∧ t.kind ∈ x.separators) := fun ⟨hy, hx⟩ => ht (hy ▸ hx)
          simp [ih, separatorsOf, hsep]

end Walks

end Event

open Event Run

/-! ## Simulating the flat shape step by step -/

namespace Run

variable {c : Cursor} {st : List (Rule × Nat)}

/-- Postconditions that hold of every outcome hold of every run. -/
theorem Sat.of_forall {r : Run c} {ok : List Event → Cursor → Prop}
    {err : List Event → Halt → Prop} (hok : ∀ es d, ok es d) (herr : ∀ es h, err es h) :
    r.Sat ok err := by
  obtain ⟨es, (h | d)⟩ := r
  · exact herr _ _
  · exact hok _ _

/-- The nested run `r'` reports the nested walk of what the flat run `r` reports, read from the
open instances `st`; it ends where `r` ends, which leaves the same instances open, or stops at the
same mismatch. A pull that fails right after a separator is left out: there the nested run has
not entered the rule again yet. -/
def Nests (st : List (Rule × Nat)) (r r' : Run c) : Prop :=
  r.Sat (fun es d => openAfter st es = st ∧ r'.recognition = ⟨nestFrom st es, .ok d⟩)
    (fun es h => ∀ t x, h = .mismatch t x → r'.recognition = ⟨nestFrom st es, .error h⟩)

/-- `Nests` inside an instance of the rule `x` that has accepted `n` separators: where `r` ends,
the instance has accepted some `m` more, and `r'` has already left the `m` instances of `x` that
its repetition entered. -/
def NestsIn (x : Rule) (n : Nat) (st : List (Rule × Nat)) (r r' : Run c) : Prop :=
  r.Sat (fun es d => ∃ m, openAfter ((x, n) :: st) es = (x, n + m) :: st ∧
      r'.recognition = ⟨nestFrom ((x, n) :: st) es ++ List.replicate m (.exit x), .ok d⟩)
    (fun es h => ∀ t y, h = .mismatch t y →
      r'.recognition = ⟨nestFrom ((x, n) :: st) es, .error h⟩)

theorem nests_done : Nests st (done c) (done c) := sat_done ⟨rfl, rfl⟩

theorem nests_halt {h : Halt} : Nests st (halt h : Run c) (halt h) := sat_halt fun _ _ _ => rfl

theorem nests_acceptThen {k : TokenKind} {hk : k ≠ .endOfFile}
    {next next' : (d : Cursor) → d.weight < c.weight → Run d} (hsep : k ∉ topSeparators st)
    (hnext : ∀ t s hd, Nests st (next ⟨t, s⟩ hd) (next' ⟨t, s⟩ hd)) :
    Nests st (acceptThen k hk c next) (acceptThen k hk c next') := by
  apply sat_acceptThen
  · intro hkind t x _
    rw [recognition_acceptThen_of_ne hkind]
    rfl
  · intro e _ _ t x hx
    cases hx
  · intro t s hd hkind hp
    have hsep' : c.lookahead.kind ∉ topSeparators st := hkind ▸ hsep
    refine (hnext t s hd).mono (fun es d hes => ⟨?_, ?_⟩) (fun es h hh t' x hx => ?_)
    · rw [openAfter_terminal _ _ hsep', hes.1]
    · rw [recognition_acceptThen_of_pull hkind hp, hes.2, nestFrom_terminal _ _ hsep']
      rfl
    · rw [recognition_acceptThen_of_pull hkind hp, hh t' x hx, nestFrom_terminal _ _ hsep']
      rfl

theorem nests_bind {r r' : Run c} {k k' : (d : Cursor) → d.weight ≤ c.weight → Run d}
    (h : Nests st r r') (hk : ∀ d hd, Nests st (k d hd) (k' d hd)) :
    Nests st (r.bind k) (r'.bind k') := by
  apply sat_bind
  refine h.mono (fun es₁ d hes₁ hd => ?_) (fun es e he t x hx => recognition_bind_error (he t x hx))
  refine (hk d hd).mono (fun es₂ e hes₂ => ⟨?_, ?_⟩) (fun es₂ e he t x hx => ?_)
  · rw [openAfter_append, hes₁.1, hes₂.1]
  · rw [recognition_bind_ok hes₁.2, hes₂.2, nestFrom_append, hes₁.1, Recognition.prepend_mk]
  · rw [recognition_bind_ok hes₁.2, he t x hx, nestFrom_append, hes₁.1, Recognition.prepend_mk]

theorem nests_choose {o o' : Options} (hs : o.strict = o'.strict) {ks : List TokenKind}
    {hks : TokenKind.endOfFile ∉ ks} {pick pick' : (k : TokenKind) → k ≠ .endOfFile → Run c}
    {otherwise otherwise' : Run c} (hpick : ∀ k hk, Nests st (pick k hk) (pick' k hk))
    (hotherwise : Nests st otherwise otherwise') :
    Nests st (choose o ks hks c pick otherwise) (choose o' ks hks c pick' otherwise') := by
  by_cases hmem : c.lookahead.kind ∈ ks
  · rw [choose_of_mem hmem, choose_of_mem hmem]
    exact hpick _ _
  · rw [choose_of_not_mem hmem, choose_of_not_mem hmem, ← hs]
    cases o.strict
    · exact hotherwise
    · exact nests_halt

/-- A rule's instance, entered and left around its body. -/
theorem nests_within {x : Rule} {body body' : Run c} (h : NestsIn x 0 st body body') :
    Nests st (within x body) (within x body') := by
  apply sat_within
  refine h.mono (fun es d ⟨m, hst, hrec⟩ => ⟨?_, ?_⟩) (fun es e he t y hy => ?_)
  · rw [List.cons_append, openAfter_enter, openAfter_append, hst, openAfter_exit, openAfter_nil]
  · rw [recognition_within_ok hrec]
    simp only [List.cons_append, nestFrom_enter, nestFrom_append, hst, nestFrom_exit, nestFrom_nil,
      List.append_nil, Nat.zero_add, List.replicate_succ', List.append_assoc]
  · rw [recognition_within_error (he t y hy), nestFrom_enter]

theorem NestsIn.of_nests {x : Rule} {n : Nat} {r r' : Run c} (h : Nests ((x, n) :: st) r r') :
    NestsIn x n st r r' :=
  h.mono (fun _ d hes => ⟨0, hes.1, by rw [hes.2, List.replicate_zero, List.append_nil]⟩)
    (fun _ _ he => he)

theorem NestsIn.congr {x : Rule} {n : Nat} {r r₁ r₂ : Run c} (h : NestsIn x n st r r₁)
    (he : r₁.recognition = r₂.recognition) : NestsIn x n st r r₂ :=
  h.mono (fun _ _ ⟨m, hst, hrec⟩ => ⟨m, hst, he ▸ hrec⟩) (fun _ _ hh t y hy => he ▸ hh t y hy)

theorem nestsIn_halt {x : Rule} {n : Nat} {h : Halt} :
    NestsIn x n st (halt h : Run c) (halt h) := NestsIn.of_nests nests_halt

theorem nestsIn_acceptThen {x : Rule} {n : Nat} {k : TokenKind} {hk : k ≠ .endOfFile}
    {next next' : (d : Cursor) → d.weight < c.weight → Run d} (hsep : k ∉ x.separators)
    (hnext : ∀ t s hd, NestsIn x n st (next ⟨t, s⟩ hd) (next' ⟨t, s⟩ hd)) :
    NestsIn x n st (acceptThen k hk c next) (acceptThen k hk c next') := by
  apply sat_acceptThen
  · intro hkind t y _
    rw [recognition_acceptThen_of_ne hkind]
    rfl
  · intro e _ _ t y hy
    cases hy
  · intro t s hd hkind hp
    have hsep' : c.lookahead.kind ∉ topSeparators ((x, n) :: st) := hkind ▸ hsep
    refine (hnext t s hd).mono (fun es d ⟨m, hst, hrec⟩ => ⟨m, ?_, ?_⟩) (fun es h hh t' y hy => ?_)
    · rw [openAfter_terminal _ _ hsep', hst]
    · rw [recognition_acceptThen_of_pull hkind hp, hrec, nestFrom_terminal _ _ hsep']
      rfl
    · rw [recognition_acceptThen_of_pull hkind hp, hh t' y hy, nestFrom_terminal _ _ hsep']
      rfl

theorem nestsIn_bind {x : Rule} {n : Nat} {r r' : Run c}
    {k k' : (d : Cursor) → d.weight ≤ c.weight → Run d} (h : Nests ((x, n) :: st) r r')
    (hk : ∀ d hd, NestsIn x n st (k d hd) (k' d hd)) : NestsIn x n st (r.bind k) (r'.bind k') := by
  apply sat_bind
  refine h.mono (fun es₁ d hes₁ hd => ?_) (fun es e he t y hy => recognition_bind_error (he t y hy))
  refine (hk d hd).mono (fun es₂ e ⟨m, hst, hrec⟩ => ⟨m, ?_, ?_⟩) (fun es₂ e he t y hy => ?_)
  · rw [openAfter_append, hes₁.1, hst]
  · rw [recognition_bind_ok hes₁.2, hrec, nestFrom_append, hes₁.1, Recognition.prepend_mk,
      List.append_assoc]
  · rw [recognition_bind_ok hes₁.2, he t y hy, nestFrom_append, hes₁.1, Recognition.prepend_mk]

end Run

/-! ## The pieces of a list rule -/

/-- Recognising one symbol and then `k` reports what the run of the symbol, bound to `k`,
reports. -/
theorem recognition_seqRun_single (o : Options) (y : Sym) (c : Cursor)
    (k : (d : Cursor) → d.weight ≤ c.weight → Run d) :
    (seqRun o [y] c k).recognition = ((symRun o y c).bind k).recognition := by
  cases y with
  | rule r => rfl
  | tok t =>
    by_cases ht : t = .endOfFile
    · simp only [seqRun, symRun, ht, dite_true]
      rfl
    · simp only [seqRun, symRun, ht, dite_false]
      by_cases hkind : c.lookahead.kind = t
      · cases hp : c.source.pull with
        | error e =>
          rw [recognition_acceptThen_of_error hkind hp,
            recognition_bind_error (recognition_acceptThen_of_error hkind hp)]
        | ok p =>
          obtain ⟨t', s⟩ := p
          have hacc : (acceptThen t ht c fun d _ => done d).recognition =
              ⟨[.terminal c.lookahead], .ok ⟨t', s⟩⟩ := by
            rw [recognition_acceptThen_of_pull hkind hp]
            rfl
          rw [recognition_acceptThen_of_pull hkind hp, recognition_bind_ok hacc]
      · rw [recognition_acceptThen_of_ne hkind,
          recognition_bind_error (recognition_acceptThen_of_ne hkind)]

/-- A repetition that ends, in either shape, ends at a lookahead that its rule does not separate
by. -/
theorem repetition_ends_off_separators (o : Options) :
    ∀ x c, (repetition o x c).Sat (fun _ d => d.lookahead.kind ∉ x.separators)
      (fun _ _ => True) := by
  refine (recognize_induction (motive := fun _ _ => True) (fun _ _ _ _ _ => trivial)
    fun x c _ ihrep => ?_).2
  -- after a separator, the rest of the repetition starts at a lighter cursor
  have hrest : ∀ d, d.weight < c.weight → ∀ r : Run d,
      (r.bind fun e _ => repetition o x e).Sat (fun _ d => d.lookahead.kind ∉ x.separators)
        (fun _ _ => True) := fun d hd r =>
    sat_bind (Run.Sat.of_forall (fun _ e he => ihrep x e (Nat.lt_of_le_of_lt he hd))
      fun _ _ => trivial)
  -- in either shape, a repetition accepts a separator, runs something and repeats, or ends
  obtain ⟨body, heq⟩ : ∃ body : (d : Cursor) → Run d, repetition o x c =
      if h : c.lookahead.kind ∈ x.separators then
        acceptThen c.lookahead.kind (fun he => x.endOfFile_not_mem_separators (he ▸ h)) c
          fun d _ => (body d).bind fun e _ => repetition o x e
      else done c := by
    cases hshape : o.shape
    · exact ⟨_, repetition_flat o c hshape x⟩
    · exact ⟨_, repetition_nested o c hshape x⟩
  rw [heq]
  split
  · exact sat_acceptThen (fun _ => trivial) (fun _ _ _ => trivial) fun _ _ hd _ _ => hrest _ hd _
  · exact sat_done ‹_›

/-- A list rule is its first item, then its repetition. -/
theorem recognize_listRule (o : Options) {x : Rule} (hx : x.separators ≠ []) (c : Cursor) :
    recognize o x c = within x (seqRun o [x.item] c fun d _ => repetition o x d) := by
  cases x <;> simp only [Rule.separators, ne_eq, not_true_eq_false] at hx
  · exact recognize_statementList o c
  · exact recognize_argumentList o c
  · exact recognize_expression o c
  · exact recognize_term o c

/-- The only list rule whose item is a token does not separate by it. -/
theorem Rule.item_tok_not_mem_separators {x : Rule} {k : TokenKind} (h : x.item = .tok k) :
    k ∉ x.separators := by
  cases x <;> simp only [Rule.item, Sym.tok.injEq, reduceCtorEq] at h
  -- only the argument list has a token for its item
  subst h
  decide

/-! ## Sequences -/

section Sequences

variable {o o' : Options}

/-- **A sequence of symbols**, inside instances that do not separate by its tokens, when the
rules among its symbols are simulated (below a bound `B` that the first symbol, if a rule, is
also below) and so is what comes after it. -/
theorem nests_seqRun {B : Nat} {st : List (Rule × Nat)} :
    ∀ (xs : List Sym) (c : Cursor) (k k' : (d : Cursor) → d.weight ≤ c.weight → Run d),
    c.weight ≤ B → (∀ r, xs.head? = some (.rule r) → c.weight < B) →
    (∀ t, .tok t ∈ xs → t ∉ topSeparators st) →
    (∀ r d, .rule r ∈ xs → d.weight < B → Nests st (recognize o r d) (recognize o' r d)) →
    (∀ d hd, Nests st (k d hd) (k' d hd)) →
    Nests st (seqRun o xs c k) (seqRun o' xs c k')
  | [], c, k, k', _, _, _, _, hk => hk c _
  | .tok t :: xs, c, k, k', hc, _, htok, hrec, hk => by
    by_cases ht : t = .endOfFile
    · simp only [seqRun, ht, dite_true]
      exact nests_halt
    · simp only [seqRun, ht, dite_false]
      refine nests_acceptThen (htok t List.mem_cons_self) fun t' s hd => ?_
      exact nests_seqRun xs _ _ _ (Nat.le_trans (Nat.le_of_lt hd) hc)
        (fun _ _ => Nat.lt_of_lt_of_le hd hc) (fun t' ht' => htok t' (List.mem_cons_of_mem _ ht'))
        (fun r d hr => hrec r d (List.mem_cons_of_mem _ hr)) (fun d _ => hk d _)
  | .rule r :: xs, c, k, k', hc, hhead, htok, hrec, hk => by
    have hlt : c.weight < B := hhead r rfl
    refine nests_bind (hrec r c List.mem_cons_self hlt) fun d hd => ?_
    exact nests_seqRun xs d _ _ (Nat.le_trans hd (Nat.le_of_lt hlt))
      (fun _ _ => Nat.lt_of_le_of_lt hd hlt) (fun t' ht' => htok t' (List.mem_cons_of_mem _ ht'))
      (fun r' e hr => hrec r' e (List.mem_cons_of_mem _ hr)) (fun e _ => hk e _)

theorem nests_symRun {st : List (Rule × Nat)} {y : Sym} {c : Cursor}
    (hy : ∀ r, y = .rule r → Nests st (recognize o r c) (recognize o' r c))
    (htok : ∀ t, y = .tok t → t ∉ topSeparators st) :
    Nests st (symRun o y c) (symRun o' y c) := by
  cases y with
  | tok t =>
    by_cases ht : t = .endOfFile
    · simp only [symRun, ht, dite_true]
      exact nests_halt
    · simp only [symRun, ht, dite_false]
      exact nests_acceptThen (htok t rfl) fun _ _ _ => nests_done
  | rule r => exact hy r rfl

/-- The item of a list rule, then what follows it, inside an instance of the rule. -/
theorem nestsIn_seqItem {x : Rule} {n : Nat} {st : List (Rule × Nat)} {y : Sym} {c : Cursor}
    {k k' : (d : Cursor) → d.weight ≤ c.weight → Run d}
    (hy : ∀ r, y = .rule r → Nests ((x, n) :: st) (recognize o r c) (recognize o' r c))
    (htok : ∀ t, y = .tok t → t ∉ x.separators)
    (hk : ∀ d hd, NestsIn x n st (k d hd) (k' d hd)) :
    NestsIn x n st (seqRun o [y] c k) (seqRun o' [y] c k') := by
  cases y with
  | tok t =>
    by_cases ht : t = .endOfFile
    · simp only [seqRun, ht, dite_true]
      exact nestsIn_halt
    · simp only [seqRun, ht, dite_false]
      exact nestsIn_acceptThen (htok t rfl) fun _ _ _ => hk _ _
  | rule r =>
    simp only [seqRun]
    exact nestsIn_bind (hy r rfl) fun _ _ => hk _ _

end Sequences

/-! ## Rule by rule -/

section Rules

variable {o o' : Options} {c : Cursor}

/-- **One round of a repetition.** After a separator, the flat repetition recognises one item and
goes on; the nested one enters the list rule again, recognises the item and the rest of the
repetition there, and leaves it, after which nothing is left to repeat. -/
theorem nestsIn_repetition (hf : o.shape = .flat) (hn : o'.shape = .nested) {x : Rule}
    (ih : ∀ r d, d.weight < c.weight → ∀ st, Nests st (recognize o r d) (recognize o' r d))
    (ihrep : ∀ d, d.weight < c.weight → ∀ n st,
      NestsIn x n st (repetition o x d) (repetition o' x d))
    (n : Nat) (st : List (Rule × Nat)) :
    NestsIn x n st (repetition o x c) (repetition o' x c) := by
  rw [repetition_flat o c hf, repetition_nested o' c hn]
  by_cases hsep : c.lookahead.kind ∈ x.separators
  · rw [dif_pos hsep, dif_pos hsep]
    have hx : x.separators ≠ [] := List.ne_nil_of_mem hsep
    apply sat_acceptThen
    · intro hne
      exact absurd rfl hne
    · intro e _ _ t y hy
      cases hy
    · intro t s hd _ hp
      -- the item and the rest of the repetition, inside the instance the nested shape enters
      have hbody : NestsIn x (n + 1) st ((symRun o x.item ⟨t, s⟩).bind fun e _ => repetition o x e)
          (seqRun o' [x.item] ⟨t, s⟩ fun e _ => repetition o' x e) :=
        (nestsIn_bind (nests_symRun (fun r _ => ih r _ hd _)
          fun k hk => Rule.item_tok_not_mem_separators hk)
          fun e he => ihrep e (Nat.lt_of_le_of_lt he hd) (n + 1) st).congr
          (recognition_seqRun_single o' x.item _ _).symm
      have hoff : ((symRun o x.item ⟨t, s⟩).bind fun e _ => repetition o x e).Sat
          (fun _ d => d.lookahead.kind ∉ x.separators) (fun _ _ => True) :=
        sat_bind (Sat.of_forall (fun _ e _ => repetition_ends_off_separators o x e)
          fun _ _ => trivial)
      refine (hbody.and hoff).mono (fun es d ⟨⟨m, hst, hrec⟩, hend⟩ => ⟨m + 1, ?_, ?_⟩)
        (fun es h ⟨hh, _⟩ t' y hy => ?_)
      · rw [openAfter_separator _ _ hsep, hst, Nat.add_right_comm, Nat.add_assoc]
      · have hrule : (recognize o' x ⟨t, s⟩).recognition = ⟨.enter x ::
            (nestFrom ((x, n + 1) :: st) es ++ List.replicate m (.exit x)) ++ [.exit x], .ok d⟩ := by
          rw [recognize_listRule o' hx]
          exact recognition_within_ok hrec
        -- where the instance entered again ends, the lookahead separates nothing
        have hdone : (repetition o' x d).recognition = ⟨[], .ok d⟩ := by
          rw [repetition_nested o' d hn, dif_neg hend, recognition_done]
        rw [recognition_acceptThen_of_pull rfl hp, recognition_bind_ok hrule, hdone]
        simp [nestFrom_separator _ _ hsep, List.replicate_succ']
      · have hrule : (recognize o' x ⟨t, s⟩).recognition =
            ⟨.enter x :: nestFrom ((x, n + 1) :: st) es, .error h⟩ := by
          rw [recognize_listRule o' hx]
          exact recognition_within_error (hh t' y hy)
        rw [recognition_acceptThen_of_pull rfl hp, recognition_bind_error hrule,
          nestFrom_separator _ _ hsep]
        rfl
  · rw [dif_neg hsep, dif_neg hsep]
    exact NestsIn.of_nests nests_done

/-- A sequence beginning with a token, then `next`, inside an instance of a rule that separates
nothing. -/
theorem nests_tokSeq {k : TokenKind} {xs : List Sym} {st : List (Rule × Nat)}
    {next next' : (d : Cursor) → d.weight ≤ c.weight → Run d} (hst : topSeparators st = [])
    (ih : ∀ r d, d.weight < c.weight → ∀ st, Nests st (recognize o r d) (recognize o' r d))
    (hnext : ∀ d hd, d.weight < c.weight → Nests st (next d hd) (next' d hd)) :
    Nests st (seqRun o (.tok k :: xs) c next) (seqRun o' (.tok k :: xs) c next') := by
  by_cases ht : k = .endOfFile
  · simp only [seqRun, ht, dite_true]
    exact nests_halt
  · simp only [seqRun, ht, dite_false]
    refine nests_acceptThen (by simp [hst]) fun t s hd => ?_
    exact nests_seqRun xs _ _ _ (Nat.le_of_lt hd) (fun _ _ => hd) (fun _ _ => by simp [hst])
      (fun r d _ hd' => ih r d hd' st) (fun d hd' => hnext d _ (Nat.lt_of_le_of_lt hd' hd))

/-- **A statement**: a choice of the kind of statement, or nothing. -/
theorem nests_statement (hs : o.strict = o'.strict) {st : List (Rule × Nat)}
    (hsub : ∀ x : Rule, x.rank < Rule.statement.rank → ∀ st,
      Nests st (recognize o x c) (recognize o' x c)) :
    Nests st (recognize o .statement c) (recognize o' .statement c) := by
  rw [recognize_statement, recognize_statement]
  refine nests_within (NestsIn.of_nests (nests_choose hs (fun k _ => ?_) nests_done))
  cases k <;> first | exact hsub _ (by decide) _ | exact nests_done

/-- **A list rule**: its first item, then its repetition, inside one instance. -/
theorem nests_list {x : Rule} (hx : x.separators ≠ []) {st : List (Rule × Nat)}
    (hitem : ∀ r', x.item = .rule r' → ∀ st, Nests st (recognize o r' c) (recognize o' r' c))
    (hrep : ∀ d, d.weight ≤ c.weight → ∀ n st,
      NestsIn x n st (repetition o x d) (repetition o' x d)) :
    Nests st (recognize o x c) (recognize o' x c) := by
  rw [recognize_listRule o hx, recognize_listRule o' hx]
  exact nests_within (nestsIn_seqItem (fun r hr => hitem r hr _)
    (fun k hk => Rule.item_tok_not_mem_separators hk) fun d hd => hrep d hd 0 st)

/-- **A condition**: the operand after the comparison is one token, or none. -/
theorem nests_condition (hs : o.strict = o'.strict) {st : List (Rule × Nat)}
    (ih : ∀ r d, d.weight < c.weight → ∀ st, Nests st (recognize o r d) (recognize o' r d)) :
    Nests st (recognize o .condition c) (recognize o' .condition c) := by
  rw [recognize_condition, recognize_condition]
  exact nests_within (NestsIn.of_nests (nests_tokSeq rfl ih fun _ _ _ =>
    nests_choose hs (fun _ _ => nests_acceptThen (by simp [topSeparators, Rule.separators])
      fun _ _ _ => nests_done) nests_done))

/-- **A comparison**: one token, or none. -/
theorem nests_conditionalOperator (hs : o.strict = o'.strict) {st : List (Rule × Nat)} :
    Nests st (recognize o .conditionalOperator c) (recognize o' .conditionalOperator c) := by
  rw [recognize_conditionalOperator, recognize_conditionalOperator]
  exact nests_within (NestsIn.of_nests (nests_choose hs
    (fun _ _ => nests_acceptThen (by simp [topSeparators, Rule.separators]) fun _ _ _ => nests_done)
    nests_done))

/-- **A factor**: a parenthesised expression, one token, or none. -/
theorem nests_factor (hs : o.strict = o'.strict) {st : List (Rule × Nat)}
    (ih : ∀ r d, d.weight < c.weight → ∀ st, Nests st (recognize o r d) (recognize o' r d)) :
    Nests st (recognize o .factor c) (recognize o' .factor c) := by
  rw [recognize_factor, recognize_factor]
  refine nests_within (NestsIn.of_nests (nests_choose hs (fun k _ => ?_) nests_done))
  by_cases hk : k = .openParen
  · simp only [hk, if_true]
    exact nests_tokSeq rfl ih fun _ _ _ => nests_done
  · simp only [hk, if_false]
    exact nests_acceptThen (by simp [topSeparators, Rule.separators]) fun _ _ _ => nests_done

/-- **An assignment**: a string or an expression after the becomes sign. -/
theorem nests_assignment {st : List (Rule × Nat)}
    (ih : ∀ r d, d.weight < c.weight → ∀ st, Nests st (recognize o r d) (recognize o' r d)) :
    Nests st (recognize o .assignment c) (recognize o' .assignment c) := by
  rw [recognize_assignment, recognize_assignment]
  refine nests_within (NestsIn.of_nests (nests_tokSeq rfl ih fun d _ hd => ?_))
  by_cases hstr : d.lookahead.kind = .string
  · simp only [hstr, if_true]
    exact nests_tokSeq rfl (fun r e he => ih r e (Nat.lt_trans he hd)) fun _ _ _ => nests_done
  · simp only [hstr, if_false]
    exact ih _ d hd _

/-- **An if statement**: the optional else part, then the closing keywords. -/
theorem nests_ifStatement {st : List (Rule × Nat)}
    (ih : ∀ r d, d.weight < c.weight → ∀ st, Nests st (recognize o r d) (recognize o' r d)) :
    Nests st (recognize o .ifStatement c) (recognize o' .ifStatement c) := by
  rw [recognize_ifStatement, recognize_ifStatement]
  refine nests_within (NestsIn.of_nests (nests_tokSeq rfl ih fun d _ hd =>
    nests_bind ?_ fun e he => ?_))
  · by_cases helse : d.lookahead.kind = .kwElse
    · simp only [helse, if_true]
      exact nests_tokSeq rfl (fun r e he => ih r e (Nat.lt_trans he hd))
        fun e _ he => ih _ e (Nat.lt_trans he hd) _
    · simp only [helse, if_false]
      exact nests_done
  · exact nests_tokSeq rfl (fun r f hf => ih r f (Nat.lt_trans hf (Nat.lt_of_le_of_lt he hd)))
      fun _ _ _ => nests_done

end Rules

/-- **The nested shape simulates the flat shape.** With the same choices, a rule recognised with
nested repetitions reports the nested walk of what it reports with flat ones, from any open
instances, and ends where it ends or stops at the same mismatch; a repetition does the same
inside an instance of its rule. -/
theorem recognize_nests {o o' : Options} (hf : o.shape = .flat) (hn : o'.shape = .nested)
    (hs : o.strict = o'.strict) :
    (∀ r c st, Nests st (recognize o r c) (recognize o' r c)) ∧
    ∀ r c n st, NestsIn r n st (repetition o r c) (repetition o' r c) := by
  refine recognize_induction (fun r c ihlt ihrank ihrep => ?_)
    (fun r c ihlt ihrep => nestsIn_repetition hf hn ihlt (ihrep r))
  intro st
  -- the rules whose body starts with a token call other rules only at lighter cursors
  have hseq : ∀ {k xs}, (∀ o, recognize o r c = within r (seqRun o (.tok k :: xs) c fun d _ =>
      done d)) → topSeparators ((r, 0) :: st) = [] →
      Nests st (recognize o r c) (recognize o' r c) := fun heq hsep => by
    rw [heq o, heq o']
    exact nests_within (NestsIn.of_nests (nests_tokSeq hsep ihlt fun _ _ _ => nests_done))
  have hitem : ∀ r', r.separators ≠ [] → r.item = .rule r' → ∀ st,
      Nests st (recognize o r' c) (recognize o' r' c) := fun r' hsep h =>
    ihrank r' c (Nat.le_refl _) (Rule.rank_item_lt hsep h)
  cases r with
  | statementPart => exact hseq (recognize_statementPart · c) rfl
  | statementList => exact nests_list (by decide) (hitem · (by decide)) (ihrep _)
  | statement => exact nests_statement hs fun x hx => ihrank x c (Nat.le_refl _) hx
  | assignment => exact nests_assignment ihlt
  | ifStatement => exact nests_ifStatement ihlt
  | whileStatement => exact hseq (recognize_whileStatement · c) rfl
  | procedureStatement => exact hseq (recognize_procedureStatement · c) rfl
  | untilStatement =>
    rw [recognize_untilStatement, recognize_untilStatement]
    exact nests_within (NestsIn.of_nests (nests_tokSeq rfl ihlt fun d _ hd => ihlt _ d hd _))
  | forStatement => exact hseq (recognize_forStatement · c) rfl
  | argumentList => exact nests_list (by decide) (hitem · (by decide)) (ihrep _)
  | condition => exact nests_condition hs ihlt
  | conditionalOperator => exact nests_conditionalOperator hs
  | expression => exact nests_list (by decide) (hitem · (by decide)) (ihrep _)
  | term => exact nests_list (by decide) (hitem · (by decide)) (ihrep _)
  | factor => exact nests_factor hs ihlt

/-! ## Programs and single rules -/

namespace Recognition

/-- The recognition with nested repetitions that stands for `rec`, recognised with flat ones: the
same outcome, after the nested walk. -/
def nest (rec : Recognition) : Recognition := ⟨nestFrom [] rec.events, rec.outcome⟩

theorem terminals_nest (rec : Recognition) : rec.nest.trace.terminals = rec.trace.terminals :=
  terminals_nestFrom [] rec.events

theorem entered_nest (rec : Recognition) (x : Rule) :
    rec.nest.trace.entered x = rec.trace.entered x + separatorsOf x [] rec.events :=
  count_enter_nestFrom [] rec.events x

end Recognition

section Programs

variable {o o' : Options}

/-- Over a source that never fails, a flat run stops only at a mismatch, so a run it simulates
from no open instance is its nested recognition. -/
theorem recognition_of_nests {c : Cursor} {r r' : Run c} (hn : Nests [] r r') (hc : r.Consumes)
    (hends : c.source.Ends) : r'.recognition = r.recognition.nest := by
  obtain ⟨es, out⟩ := r
  cases out with
  | ok d => exact hn.2
  | error h =>
    cases h with
    | mismatch t x => exact hn t x rfl
    | unreadable e last =>
      obtain ⟨v, d, -, hacc, -, -, hp⟩ := hc
      obtain ⟨t, s, hp', -⟩ := (hacc.1.ends hends).pull
      rw [hp'] at hp
      cases hp

/-- **A program with nested repetitions** over a source that never fails is the program with
flat ones, its walk nested. -/
theorem program_nests (hf : o.shape = .flat) (hn : o'.shape = .nested)
    (hs : o.strict = o'.strict) {s : TokenSource} (hends : s.Ends) :
    Recognition.program o' s = (Recognition.program o s).map Recognition.nest := by
  obtain ⟨t₀, s₀, hp, hends₀⟩ := hends.pull
  have hsim := (recognize_nests hf hn hs).1 .statementPart ⟨t₀, s₀⟩ []
  have hrec := recognition_of_nests hsim ((recognize_consumes o).1 .statementPart ⟨t₀, s₀⟩) hends₀
  -- a statement part that ends has closed every instance it opened
  have hopen : ∀ es d, (recognize o .statementPart ⟨t₀, s₀⟩).recognition = ⟨es, .ok d⟩ →
      openAfter [] es = [] := fun _ _ h => (hsim.of_recognition_ok h).1
  simp only [Recognition.program, Cursor.start, hp, Except.map, hrec]
  generalize (recognize o .statementPart ⟨t₀, s₀⟩).recognition = R at hopen
  obtain ⟨es, out⟩ := R
  cases out with
  | error h => rfl
  | ok d =>
    have hend : nestFrom [] (es ++ [.terminal d.lookahead]) =
        nestFrom [] es ++ [.terminal d.lookahead] := by
      rw [nestFrom_append, hopen es d rfl]
      rfl
    by_cases heof : d.lookahead.kind = .endOfFile
    · cases hpd : d.source.pull with
      | error e => simp [heof, hpd, Recognition.nest, hend]
      | ok p => simp [heof, hpd, Recognition.nest, hend]
    · simp [heof, Recognition.nest]

/-- **A single rule with nested repetitions** over a source that never fails is the rule with
flat ones, its walk nested. -/
theorem single_nests (hf : o.shape = .flat) (hn : o'.shape = .nested)
    (hs : o.strict = o'.strict) {s : TokenSource} (hends : s.Ends) (r : Rule) :
    Recognition.single o' r s = (Recognition.single o r s).map Recognition.nest := by
  obtain ⟨t₀, s₀, hp, hends₀⟩ := hends.pull
  have hrec := recognition_of_nests ((recognize_nests hf hn hs).1 r ⟨t₀, s₀⟩ [])
    ((recognize_consumes o).1 r ⟨t₀, s₀⟩) hends₀
  simp only [Recognition.single, Cursor.start, hp, Except.map, hrec]

end Programs

/-- **The two shapes of repetition are equivalent.** Over a token list, with either choices, a
program or a single rule recognised with nested repetitions is the one recognised with flat
repetitions, its walk nested: the same outcome (the same end, or the same halt, hence the same
error), the same accepted tokens and the same reported error; the nested walk enters each list
rule once more for every separator its instances accepted. -/
theorem repetition_shapes_agree (b : Bool) (ts : List Token) :
    Recognition.program ⟨.nested, b⟩ (TokenSource.ofTokens ts) =
        (Recognition.program ⟨.flat, b⟩ (TokenSource.ofTokens ts)).map Recognition.nest ∧
    (∀ r, Recognition.single ⟨.nested, b⟩ r (TokenSource.ofTokens ts) =
        (Recognition.single ⟨.flat, b⟩ r (TokenSource.ofTokens ts)).map Recognition.nest) ∧
    ∀ rec : Recognition, rec.nest.outcome = rec.outcome ∧
      rec.nest.trace.terminals = rec.trace.terminals ∧ rec.nest.trace.error = rec.trace.error ∧
      ∀ x, rec.nest.trace.entered x = rec.trace.entered x + separatorsOf x [] rec.events :=
  ⟨program_nests (by rfl) (by rfl) (by rfl) (TokenSource.ends_ofTokens ts),
    fun r => single_nests (by rfl) (by rfl) (by rfl) (TokenSource.ends_ofTokens ts) r,
    fun rec => ⟨rfl, rec.terminals_nest, rfl, rec.entered_nest⟩⟩

end SyntaxCheck
