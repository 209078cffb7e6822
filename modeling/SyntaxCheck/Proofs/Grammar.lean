import SyntaxCheck.Proofs.Runs

/-!
# The statement grammar

The grammar that the recogniser is meant to accept, written down on its own. `Rhs lenient r xs`
says that the symbols `xs` are a right-hand side of the rule `r`, and `Derives lenient T` that every
node of the tree `T` is its rule applied to the symbols of its children. A list rule
`X ::= Y (sep Y)*` is one node whose children are the items and the separators between them, as
many as there are.

With `lenient = false` this is the grammar of the statement language. With `lenient = true` a
statement, a comparison, the operand of a condition and a factor may also be empty: that is what
the lenient recogniser accepts where none of the alternatives of a choice matches.

A derivation is reported as the preorder walk of its tree (`Tree.events`): the entry of a rule,
the events of its children, the exit; the token of each leaf. The builder rebuilds a tree from
that walk (`Builder.feed_events`), so two trees are never reported alike.

The last section gives what the error theorems need of the grammar: every symbol derives some
tree (`Derives.exists_of_sym`), and a rule can be completed from any prefix with which one of the
symbols of a right-hand side can be completed, once the symbols before it are derived
(`Completable.of_rhs`).
-/

namespace SyntaxCheck

/-- A symbol of the grammar: a token kind or a rule. -/
inductive Sym where
  | tok (k : TokenKind)
  | rule (r : Rule)
  deriving DecidableEq, Repr

/-- `x (sep x)*` with the separators `seps`: the item, then a separator and an item for each
separator. -/
def Sym.separated (x : Sym) (seps : List TokenKind) : List Sym :=
  x :: seps.flatMap fun s => [.tok s, x]

@[simp] theorem Sym.separated_nil (x : Sym) : x.separated [] = [x] := rfl

theorem Sym.separated_cons (x : Sym) (s : TokenKind) (seps : List TokenKind) :
    x.separated (s :: seps) = x :: .tok s :: x.separated seps := rfl

/-! ## Trees and their walks -/

namespace Tree

/-- The symbol at the root of a tree. -/
def sym : Tree → Sym
  | .leaf t => .tok t.kind
  | .node r _ => .rule r

@[simp] theorem sym_leaf (t : Token) : (Tree.leaf t).sym = .tok t.kind := rfl

@[simp] theorem sym_node (r : Rule) (cs : List Tree) : (Tree.node r cs).sym = .rule r := rfl

mutual

/-- The events that report a tree: its preorder walk, each node between its entry and its exit. -/
def events : Tree → List Event
  | .leaf t => [.terminal t]
  | .node r cs => .enter r :: eventsAll cs ++ [.exit r]

/-- The events that report a list of trees, one after the other. -/
def eventsAll : List Tree → List Event
  | [] => []
  | t :: ts => t.events ++ eventsAll ts

end

@[simp] theorem events_leaf (t : Token) : (Tree.leaf t).events = [.terminal t] := by
  simp [events]

@[simp] theorem events_node (r : Rule) (cs : List Tree) :
    (Tree.node r cs).events = .enter r :: eventsAll cs ++ [.exit r] := by
  simp [events]

@[simp] theorem eventsAll_nil : eventsAll [] = [] := by
  simp [eventsAll]

@[simp] theorem eventsAll_cons (t : Tree) (ts : List Tree) :
    eventsAll (t :: ts) = t.events ++ eventsAll ts := by
  simp [eventsAll]

@[simp] theorem eventsAll_append (ts ts' : List Tree) :
    eventsAll (ts ++ ts') = eventsAll ts ++ eventsAll ts' := by
  induction ts with
  | nil => simp
  | cons t ts ih => simp [ih]

@[simp] theorem leaves_leaf (t : Token) : (Tree.leaf t).leaves = [t] := by
  simp [leaves]

@[simp] theorem leaves_node (r : Rule) (cs : List Tree) :
    (Tree.node r cs).leaves = leavesAll cs := by
  simp [leaves]

@[simp] theorem leavesAll_nil : leavesAll [] = [] := by
  simp [leavesAll]

@[simp] theorem leavesAll_cons (t : Tree) (ts : List Tree) :
    leavesAll (t :: ts) = t.leaves ++ leavesAll ts := by
  simp [leavesAll]

@[simp] theorem leavesAll_append (ts ts' : List Tree) :
    leavesAll (ts ++ ts') = leavesAll ts ++ leavesAll ts' := by
  induction ts with
  | nil => simp
  | cons t ts ih => simp [ih]

mutual

/-- The tokens of a tree's walk are its leaves. -/
theorem terminals_events : (t : Tree) → Event.terminals t.events = t.leaves
  | .leaf t => by simp
  | .node r cs => by simp [terminals_eventsAll cs]

theorem terminals_eventsAll : (ts : List Tree) → Event.terminals (eventsAll ts) = leavesAll ts
  | [] => by simp
  | t :: ts => by simp [terminals_events t, terminals_eventsAll ts]

end

end Tree

/-! ## The builder inverts the walk -/

namespace Builder

mutual

/-- Feeding the walk of a node to a builder adds the node where the builder puts finished
subtrees. -/
theorem feed_events_node (b : Builder) (r : Rule) (cs : List Tree) :
    b.feed (Tree.node r cs).events = b.attach (.node r cs) := by
  have hb : (b.step (.enter r)).frames = ⟨r, []⟩ :: b.frames := rfl
  rw [Tree.events_node, feed_append, feed_cons b (.enter r), feed_eventsAll _ _ _ hb cs]
  simp [step, List.reverse_reverse]

/-- Feeding the walks of a list of trees into the innermost frame adds them to its children. -/
theorem feed_eventsAll (b : Builder) (f : Frame) (fs : List Frame) (hb : b.frames = f :: fs) :
    (cs : List Tree) →
      b.feed (Tree.eventsAll cs) = { b with frames := { f with recent := cs.reverse ++ f.recent } :: fs }
  | [] => by
    cases b
    cases hb
    simp
  | .leaf t :: cs => by
    rw [Tree.eventsAll_cons, feed_append, Tree.events_leaf, feed_cons, feed_nil]
    have hs : (b.step (.terminal t)).frames = { f with recent := .leaf t :: f.recent } :: fs := by
      simp [step, hb, attach]
    rw [feed_eventsAll _ _ _ hs cs]
    cases b
    cases hb
    simp [step, attach]
  | .node r cs' :: cs => by
    rw [Tree.eventsAll_cons, feed_append, feed_events_node]
    have hs : (b.attach (.node r cs')).frames =
        { f with recent := .node r cs' :: f.recent } :: fs := by
      simp [hb, attach]
    rw [feed_eventsAll _ _ _ hs cs]
    cases b
    cases hb
    simp [attach]

end

/-- Fed the walk of a node from scratch, a builder finishes with that node. -/
theorem finish_feed_events (r : Rule) (cs : List Tree) :
    (({} : Builder).feed (Tree.node r cs).events).finish = some (.node r cs) := by
  rw [feed_events_node]
  rfl

end Builder

/-- Two nodes with the same walk are the same tree. -/
theorem Tree.eq_of_events_eq {r r' : Rule} {cs cs' : List Tree}
    (h : (Tree.node r cs).events = (Tree.node r' cs').events) : Tree.node r cs = .node r' cs' := by
  have := Builder.finish_feed_events r cs
  rw [h, Builder.finish_feed_events] at this
  exact (Option.some.inj this).symm

/-! ## The grammar -/

/-- The right-hand sides of the rules: of the statement grammar when `lenient = false`, and of its
lenient reading, where a statement, a comparison, the operand of a condition and a factor may also
be empty, when `lenient = true`. A list rule has one right-hand side for each sequence of its
separators. -/
inductive Rhs : Bool → Rule → List Sym → Prop
  | statementPart {ℓ} :
      Rhs ℓ .statementPart [.tok .kwBegin, .rule .statementList, .tok .kwEnd]
  | statementList {ℓ} (seps : List TokenKind) (h : ∀ s ∈ seps, s = .semicolon) :
      Rhs ℓ .statementList ((Sym.rule .statement).separated seps)
  | statement {ℓ x} (h : x ∈ [Rule.assignment, .ifStatement, .whileStatement,
      .procedureStatement, .untilStatement, .forStatement]) :
      Rhs ℓ .statement [.rule x]
  | emptyStatement : Rhs true .statement []
  | assignExpression {ℓ} :
      Rhs ℓ .assignment [.tok .identifier, .tok .becomes, .rule .expression]
  | assignString {ℓ} :
      Rhs ℓ .assignment [.tok .identifier, .tok .becomes, .tok .string]
  | ifThen {ℓ} :
      Rhs ℓ .ifStatement [.tok .kwIf, .rule .condition, .tok .kwThen, .rule .statementList,
        .tok .kwEnd, .tok .kwIf]
  | ifThenElse {ℓ} :
      Rhs ℓ .ifStatement [.tok .kwIf, .rule .condition, .tok .kwThen, .rule .statementList,
        .tok .kwElse, .rule .statementList, .tok .kwEnd, .tok .kwIf]
  | whileStatement {ℓ} :
      Rhs ℓ .whileStatement [.tok .kwWhile, .rule .condition, .tok .kwLoop,
        .rule .statementList, .tok .kwEnd, .tok .kwLoop]
  | procedureStatement {ℓ} :
      Rhs ℓ .procedureStatement [.tok .kwCall, .tok .identifier, .tok .openParen,
        .rule .argumentList, .tok .closeParen]
  | untilStatement {ℓ} :
      Rhs ℓ .untilStatement [.tok .kwDo, .rule .statementList, .tok .kwUntil, .rule .condition]
  | forStatement {ℓ} :
      Rhs ℓ .forStatement [.tok .kwFor, .tok .openParen, .rule .assignment, .tok .semicolon,
        .rule .condition, .tok .semicolon, .rule .assignment, .tok .closeParen, .tok .kwDo,
        .rule .statementList, .tok .kwEnd, .tok .kwLoop]
  | argumentList {ℓ} (seps : List TokenKind) (h : ∀ s ∈ seps, s = .comma) :
      Rhs ℓ .argumentList ((Sym.tok .identifier).separated seps)
  | condition {ℓ k} (h : k ∈ [TokenKind.identifier, .number, .string]) :
      Rhs ℓ .condition [.tok .identifier, .rule .conditionalOperator, .tok k]
  | conditionWithoutOperand :
      Rhs true .condition [.tok .identifier, .rule .conditionalOperator]
  | comparison {ℓ k} (h : k ∈ [TokenKind.greater, .greaterEq, .equal, .notEqual, .less, .lessEq]) :
      Rhs ℓ .conditionalOperator [.tok k]
  | emptyComparison : Rhs true .conditionalOperator []
  | expression {ℓ} (seps : List TokenKind) (h : ∀ s ∈ seps, s = .plus ∨ s = .minus) :
      Rhs ℓ .expression ((Sym.rule .term).separated seps)
  | term {ℓ} (seps : List TokenKind) (h : ∀ s ∈ seps, s = .times ∨ s = .divide ∨ s = .percent) :
      Rhs ℓ .term ((Sym.rule .factor).separated seps)
  | factorToken {ℓ k} (h : k = .identifier ∨ k = .number) : Rhs ℓ .factor [.tok k]
  | parenthesised {ℓ} :
      Rhs ℓ .factor [.tok .openParen, .rule .expression, .tok .closeParen]
  | emptyFactor : Rhs true .factor []

/-- `Derives lenient T`: every node of `T` is a rule applied to one of its right-hand sides, read
off the roots of the node's children. A leaf derives its own token. -/
inductive Derives (ℓ : Bool) : Tree → Prop
  | leaf (t : Token) : Derives ℓ (.leaf t)
  | node {r : Rule} {cs : List Tree} :
      Rhs ℓ r (cs.map Tree.sym) → (∀ c ∈ cs, Derives ℓ c) → Derives ℓ (.node r cs)

/-- `w` is a sentence of rule `r`: the leaves of a derivation of `r`. -/
def Sentence (ℓ : Bool) (r : Rule) (w : List Token) : Prop :=
  ∃ T, Derives ℓ T ∧ T.sym = .rule r ∧ T.leaves = w

/-- `u` can be completed to the leaves of a derivation of `x`. -/
def Completable (ℓ : Bool) (x : Sym) (u : List Token) : Prop :=
  ∃ T, Derives ℓ T ∧ T.sym = x ∧ u <+: T.leaves

/-- `u` begins a program: it is a prefix of a sentence of `StatementPart` followed by an end of
file. -/
def ViablePrefix (ℓ : Bool) (u : List Token) : Prop :=
  ∃ w e, Sentence ℓ .statementPart w ∧ e.kind = .endOfFile ∧ u <+: w ++ [e]

/-! ## Completing prefixes -/

/-- The leaf that stands for a kind in trees made up for a proof. -/
def Token.ofKind (k : TokenKind) : Token := ⟨k, "", Position.null⟩

@[simp] theorem Token.ofKind_kind (k : TokenKind) : (Token.ofKind k).kind = k := rfl

/-- Every symbol derives some tree, in either grammar. -/
theorem Derives.exists_of_sym (ℓ : Bool) : ∀ x : Sym, ∃ T, Derives ℓ T ∧ T.sym = x
  | .tok k => ⟨.leaf (Token.ofKind k), .leaf _, rfl⟩
  | .rule r => by
    let tok : TokenKind → Tree := fun k => .leaf (Token.ofKind k)
    have htok : ∀ k, Derives ℓ (tok k) := fun k => .leaf _
    let factorT := Tree.node .factor [tok .identifier]
    have factor : Derives ℓ factorT := .node (.factorToken (.inl rfl)) (by simp [htok])
    let termT := Tree.node .term [factorT]
    have term : Derives ℓ termT := .node (.term [] (by simp)) (by simp [factor])
    let comparisonT := Tree.node .conditionalOperator [tok .greater]
    have comparison : Derives ℓ comparisonT := .node (.comparison (by simp)) (by simp [htok])
    let conditionT := Tree.node .condition [tok .identifier, comparisonT, tok .identifier]
    have condition : Derives ℓ conditionT :=
      .node (.condition (by simp)) (by simp [htok, comparison])
    let assignmentT := Tree.node .assignment [tok .identifier, tok .becomes, tok .string]
    have assignment : Derives ℓ assignmentT := .node .assignString (by simp [htok])
    let statementT := Tree.node .statement [assignmentT]
    have statement : Derives ℓ statementT := .node (.statement (by simp)) (by simp [assignment])
    let listT := Tree.node .statementList [statementT]
    have list : Derives ℓ listT := .node (.statementList [] (by simp)) (by simp [statement])
    let argumentsT := Tree.node .argumentList [tok .identifier]
    have arguments : Derives ℓ argumentsT :=
      .node (.argumentList [] (by simp)) (by simp [htok])
    cases r
    · exact ⟨.node .statementPart [tok .kwBegin, listT, tok .kwEnd],
        .node .statementPart (by simp [htok, list]), rfl⟩
    · exact ⟨_, list, rfl⟩
    · exact ⟨_, statement, rfl⟩
    · exact ⟨_, assignment, rfl⟩
    · exact ⟨.node .ifStatement [tok .kwIf, conditionT, tok .kwThen, listT, tok .kwEnd, tok .kwIf],
        .node .ifThen (by simp [htok, condition, list]), rfl⟩
    · exact ⟨.node .whileStatement
          [tok .kwWhile, conditionT, tok .kwLoop, listT, tok .kwEnd, tok .kwLoop],
        .node .whileStatement (by simp [htok, condition, list]), rfl⟩
    · exact ⟨.node .procedureStatement
          [tok .kwCall, tok .identifier, tok .openParen, argumentsT, tok .closeParen],
        .node .procedureStatement (by simp [htok, arguments]), rfl⟩
    · exact ⟨.node .untilStatement [tok .kwDo, listT, tok .kwUntil, conditionT],
        .node .untilStatement (by simp [htok, condition, list]), rfl⟩
    · exact ⟨.node .forStatement [tok .kwFor, tok .openParen, assignmentT, tok .semicolon,
          conditionT, tok .semicolon, assignmentT, tok .closeParen, tok .kwDo, listT, tok .kwEnd,
          tok .kwLoop],
        .node .forStatement (by simp [htok, assignment, condition, list]), rfl⟩
    · exact ⟨_, arguments, rfl⟩
    · exact ⟨_, condition, rfl⟩
    · exact ⟨_, comparison, rfl⟩
    · exact ⟨.node .expression [termT], .node (.expression [] (by simp)) (by simp [term]),
        rfl⟩
    · exact ⟨_, term, rfl⟩
    · exact ⟨_, factor, rfl⟩

/-- Every list of symbols derives some list of trees. -/
theorem Derives.exists_of_syms (ℓ : Bool) :
    ∀ xs : List Sym, ∃ ts : List Tree, ts.map Tree.sym = xs ∧ ∀ t ∈ ts, Derives ℓ t
  | [] => ⟨[], rfl, by simp⟩
  | x :: xs => by
    obtain ⟨T, hT, hx⟩ := Derives.exists_of_sym ℓ x
    obtain ⟨ts, hts, hder⟩ := Derives.exists_of_syms ℓ xs
    exact ⟨T :: ts, by simp [hx, hts], List.forall_mem_cons.2 ⟨hT, hder⟩⟩

/-- A token can be completed to itself. -/
theorem Completable.tok {t : Token} {k : TokenKind} (h : t.kind = k) (ℓ : Bool) :
    Completable ℓ (.tok k) [t] :=
  ⟨.leaf t, .leaf t, by simp [h], List.prefix_refl _⟩

/-- **Completing a rule at any position of a right-hand side.** If the symbols before `x` in a
right-hand side of `r` are derived and `u` can be completed to a derivation of `x`, the leaves
before `x` followed by `u` can be completed to a derivation of `r`: the symbols after `x` derive
something. -/
theorem Completable.of_rhs {ℓ : Bool} {r : Rule} (ts : List Tree) {x : Sym} {β : List Sym}
    {u : List Token} (hr : Rhs ℓ r (ts.map Tree.sym ++ x :: β)) (hts : ∀ t ∈ ts, Derives ℓ t)
    (hx : Completable ℓ x u) : Completable ℓ (.rule r) (Tree.leavesAll ts ++ u) := by
  obtain ⟨X, hX, hXsym, v, hv⟩ := hx
  obtain ⟨bs, hbs, hbder⟩ := Derives.exists_of_syms ℓ β
  refine ⟨.node r (ts ++ X :: bs), .node ?_ ?_, rfl, ?_⟩
  · simpa [hXsym, hbs] using hr
  · intro c hc
    simp only [List.mem_append, List.mem_cons] at hc
    rcases hc with hc | rfl | hc
    · exact hts c hc
    · exact hX
    · exact hbder c hc
  · refine ⟨v ++ Tree.leavesAll bs, ?_⟩
    simp [← hv]

end SyntaxCheck
