import SyntaxCheck.Proofs.Transport
import SyntaxCheck.Proofs.Programs

/-!
# What the listeners see is one bracket

A recognition is computed once and handed to every listener as its list of events: the trace keeps
the list, the builder folds it into a tree, and the diagnostic of a halt does not depend on either.
So the listeners see the same calls, and this module is about that one list.

The events of a single rule are a prefix of the walk of one node of that rule: its entry, then
whole walks of subtrees, then its exit. A rule that stops has its entry and no exit, so its bracket
stays open. A program adds the end of file after the statement part, outside the bracket, and
stops with the bracket closed exactly when it stops after the statement part: at the end-of-file
check, or at the pull after the end of file.

Each exit closes the innermost rule open at that point (`Event.exitsMatch`), as the builder checks
when it closes a frame; the rules a walk leaves open (`Event.unclosed`) are the frames the builder
has open, and the builder has a tree exactly when the bracket is closed: the tree whose walk it is.

The run lemmas come from the transport of `SyntaxCheck.Proofs.Transport`: a run reports whole walks
or a prefix of them (`Run.Bracketed`), and never stops expecting an end of file
(`Run.ExpectsNoEnd`); each is kept by the five steps.
-/

namespace SyntaxCheck

open Run

/-! ## The rules a walk leaves open -/

namespace Event

/-- The rules entered and not yet left after the events `es`, read from the rules `st` open before
them, innermost first: an entry opens its rule, an exit closes the innermost open rule, whichever
rule it names, and a terminal changes nothing. -/
def unclosed : List Rule → List Event → List Rule
  | st, [] => st
  | st, .enter r :: es => unclosed (r :: st) es
  | st, .exit _ :: es => unclosed st.tail es
  | st, .terminal _ :: es => unclosed st es

/-- Along the events `es`, read from the rules `st` open before them, every exit names the
innermost rule open at that point. -/
def exitsMatch : List Rule → List Event → Prop
  | _, [] => True
  | st, .enter r :: es => exitsMatch (r :: st) es
  | st, .exit x :: es => st.head? = some x ∧ exitsMatch st.tail es
  | st, .terminal _ :: es => exitsMatch st es

section Scans

variable (st : List Rule) (es es' : List Event)

@[simp] theorem unclosed_nil : unclosed st [] = st := rfl

@[simp] theorem unclosed_enter (r : Rule) : unclosed st (.enter r :: es) = unclosed (r :: st) es :=
  rfl

@[simp] theorem unclosed_exit (r : Rule) : unclosed st (.exit r :: es) = unclosed st.tail es := rfl

@[simp] theorem unclosed_terminal (t : Token) : unclosed st (.terminal t :: es) = unclosed st es :=
  rfl

theorem unclosed_append : unclosed st (es ++ es') = unclosed (unclosed st es) es' := by
  induction es generalizing st with
  | nil => rfl
  | cons e es ih => cases e <;> simp [ih]

@[simp] theorem unclosed_terminals (us : List Token) : unclosed st (us.map terminal) = st := by
  induction us with
  | nil => rfl
  | cons u us ih => exact ih

@[simp] theorem exitsMatch_nil : exitsMatch st [] := trivial

@[simp] theorem exitsMatch_enter (r : Rule) :
    exitsMatch st (.enter r :: es) ↔ exitsMatch (r :: st) es := Iff.rfl

@[simp] theorem exitsMatch_exit (x : Rule) :
    exitsMatch st (.exit x :: es) ↔ st.head? = some x ∧ exitsMatch st.tail es := Iff.rfl

@[simp] theorem exitsMatch_terminal (t : Token) :
    exitsMatch st (.terminal t :: es) ↔ exitsMatch st es := Iff.rfl

theorem exitsMatch_append :
    exitsMatch st (es ++ es') ↔ exitsMatch st es ∧ exitsMatch (unclosed st es) es' := by
  induction es generalizing st with
  | nil => simp
  | cons e es ih => cases e <;> simp [ih, and_assoc]

/-- An exit that follows `pre` in a list whose exits match names the innermost rule that `pre`
leaves open. -/
theorem exitsMatch.head {pre post : List Event} {x : Rule}
    (h : exitsMatch st (pre ++ .exit x :: post)) : (unclosed st pre).head? = some x :=
  ((exitsMatch_exit _ _ _).1 ((exitsMatch_append _ _ _).1 h).2).1

end Scans

end Event

/-- A prefix of `a ++ b` is a prefix of `a`, or `a` followed by a prefix of `b`. -/
theorem prefix_append_cases {α : Type} {p a b : List α} (h : p <+: a ++ b) :
    p <+: a ∨ ∃ q, p = a ++ q ∧ q <+: b := by
  rcases List.prefix_or_prefix_of_prefix h (List.prefix_append a b) with h' | ⟨q, rfl⟩
  · exact .inl h'
  · exact .inr ⟨q, rfl, (List.prefix_append_right_inj a).1 h⟩

/-! ## Walks of trees -/

namespace Tree

open Event

mutual

/-- A walk closes every rule it opens. -/
theorem unclosed_events : (T : Tree) → ∀ st, unclosed st T.events = st
  | .leaf t, st => by simp
  | .node r cs, st => by simp [unclosed_append, unclosed_eventsAll cs]

theorem unclosed_eventsAll : (ts : List Tree) → ∀ st, unclosed st (eventsAll ts) = st
  | [], st => by simp
  | t :: ts, st => by simp [unclosed_append, unclosed_events t, unclosed_eventsAll ts]

end

mutual

/-- In a walk every exit closes the innermost open rule, which is the rule it names. -/
theorem exitsMatch_events : (T : Tree) → ∀ st, exitsMatch st T.events
  | .leaf t, st => by simp
  | .node r cs, st => by
    simp [exitsMatch_append, exitsMatch_eventsAll cs, unclosed_eventsAll]

theorem exitsMatch_eventsAll : (ts : List Tree) → ∀ st, exitsMatch st (eventsAll ts)
  | [], st => by simp
  | t :: ts, st => by
    simp [exitsMatch_append, exitsMatch_events t, exitsMatch_eventsAll ts, unclosed_events]

end

/-- The exits of a prefix of a walk match, since those of the walk do. -/
theorem exitsMatch_prefix_walks {p : List Event} {ts : List Tree} (h : p <+: eventsAll ts)
    (st : List Rule) : exitsMatch st p := by
  obtain ⟨q, hq⟩ := h
  have hwalk := exitsMatch_eventsAll ts st
  rw [← hq] at hwalk
  exact ((exitsMatch_append st p q).1 hwalk).1

mutual

/-- A prefix of a walk never closes a rule that was open before it. -/
theorem unclosed_of_prefix_events :
    (T : Tree) → ∀ st p, p <+: T.events → ∃ new, unclosed st p = new ++ st
  | .leaf t, st, p, hp => by
    rw [events_leaf, List.prefix_cons_iff] at hp
    rcases hp with rfl | ⟨q, rfl, hq⟩
    · exact ⟨[], rfl⟩
    · rw [List.prefix_nil.1 hq]
      exact ⟨[], rfl⟩
  | .node r cs, st, p, hp => by
    rw [events_node, List.prefix_concat_iff] at hp
    rcases hp with rfl | hp
    · exact ⟨[], by rw [← events_node, unclosed_events]; rfl⟩
    rw [List.prefix_cons_iff] at hp
    rcases hp with rfl | ⟨q, rfl, hq⟩
    · exact ⟨[], rfl⟩
    -- inside the node: the node's rule stays open below whatever the prefix opened
    obtain ⟨new, h⟩ := unclosed_of_prefix_eventsAll cs (r :: st) q hq
    exact ⟨new ++ [r], by simp [h]⟩

theorem unclosed_of_prefix_eventsAll :
    (ts : List Tree) → ∀ st p, p <+: eventsAll ts → ∃ new, unclosed st p = new ++ st
  | [], st, p, hp => by
    rw [eventsAll_nil, List.prefix_nil] at hp
    subst hp
    exact ⟨[], rfl⟩
  | t :: ts, st, p, hp => by
    rw [eventsAll_cons] at hp
    rcases prefix_append_cases hp with hp | ⟨q, rfl, hq⟩
    · exact unclosed_of_prefix_events t st p hp
    · rw [unclosed_append, unclosed_events]
      exact unclosed_of_prefix_eventsAll ts st q hq

end

/-- The entry of a rule followed by a prefix of walks leaves that rule open. -/
theorem unclosed_entry_ne_nil {r : Rule} {q : List Event} {ts : List Tree}
    (hq : q <+: eventsAll ts) : unclosed [] (.enter r :: q) ≠ [] := by
  obtain ⟨new, h⟩ := unclosed_of_prefix_eventsAll ts [r] q hq
  simp [h]

/-- The entry of a rule followed by a prefix of walks begins the walk of a node of the rule. -/
theorem entry_prefix_events {r : Rule} {q : List Event} {cs : List Tree}
    (hq : q <+: eventsAll cs) : .enter r :: q <+: (node r cs).events := by
  rw [events_node, List.cons_append]
  exact List.cons_prefix_cons.2 ⟨rfl, hq.trans (List.prefix_append _ _)⟩

/-- A tree is determined by its walk. -/
theorem events_inj {T T' : Tree} (h : T.events = T'.events) : T = T' := by
  cases T with
  | leaf t =>
    cases T' with
    | leaf t' => simpa using h
    | node r' cs' => simp at h
  | node r cs =>
    cases T' with
    | leaf t' => simp at h
    | node r' cs' => exact eq_of_events_eq h

/-- **No node's walk properly begins another's**: a walk is closed only at its end. -/
theorem eq_of_prefix_events {r r' : Rule} {cs cs' : List Tree}
    (h : (node r cs).events <+: (node r' cs').events) : node r cs = node r' cs' := by
  have hp := h
  rw [events_node r' cs', List.prefix_concat_iff] at hp
  rcases hp with heq | hp
  · rw [← events_node] at heq
    exact eq_of_events_eq heq
  -- a proper prefix would leave the rule `r'` open, while the walk of `node r cs` closes all
  rw [List.prefix_cons_iff] at hp
  rcases hp with hnil | ⟨q, hq, hpre⟩
  · simp at hnil
  · have hclosed := unclosed_events (node r cs) []
    rw [hq] at hclosed
    exact absurd hclosed (unclosed_entry_ne_nil hpre)

/-- Two nodes whose walks both begin the same events are the same node. -/
theorem eq_of_walks_begin {T T' : Tree} {es : List Event} {r r' : Rule}
    (hT : T.sym = .rule r) (hT' : T'.sym = .rule r') (h : T.events <+: es)
    (h' : T'.events <+: es) : T = T' := by
  cases T with
  | leaf t => cases hT
  | node x cs =>
    cases T' with
    | leaf t => cases hT'
    | node x' cs' =>
      rcases List.prefix_or_prefix_of_prefix h h' with hp | hp
      · exact eq_of_prefix_events hp
      · exact (eq_of_prefix_events hp).symm

end Tree

/-! ## What the builder keeps -/

namespace Builder

open Event

/-- Adding a finished subtree changes no frame's rule. -/
theorem rules_attach (b : Builder) (t : Tree) :
    (b.attach t).frames.map Frame.rule = b.frames.map Frame.rule := by
  unfold attach
  split <;> simp_all

/-- **The builder's frames are the rules the events leave open.** Whatever the events, an entry
opens a frame, an exit closes the innermost one, if any, and a terminal only adds a leaf. -/
theorem rules_feed (b : Builder) (es : List Event) :
    (b.feed es).frames.map Frame.rule = unclosed (b.frames.map Frame.rule) es := by
  induction es generalizing b with
  | nil => rfl
  | cons e es ih =>
    rw [feed_cons, ih]
    obtain ⟨frames, root⟩ := b
    cases e with
    | enter r => rfl
    | exit r =>
      cases frames with
      | nil => rfl
      | cons f fs => simp [step, rules_attach]
    | terminal t =>
      cases frames with
      | nil => rfl
      | cons f fs => simp [step, rules_attach]

/-- The rules a builder fed from scratch has open, outermost first, are those the events leave
open. -/
theorem openRules_feed (es : List Event) :
    (Builder.feed {} es).openRules = (unclosed [] es).reverse := by
  rw [openRules, rules_feed]
  rfl

/-- The innermost frame of a builder fed from scratch is the innermost rule the events leave
open. -/
theorem innermost_feed (es : List Event) :
    (Builder.feed {} es).innermost? = (unclosed [] es).head? := by
  rw [innermost?, ← List.head?_map, rules_feed]
  rfl

/-- A builder with a rule open has no tree yet. -/
theorem finish_feed_of_unclosed {es : List Event} (h : unclosed [] es ≠ []) :
    (Builder.feed {} es).finish = none := by
  have hrules := rules_feed {} es
  unfold finish
  split
  · rename_i hnil
    -- no frame is open, so the events leave no rule open
    exact absurd (by simpa [hnil] using hrules.symm) h
  · rfl

/-- Terminals after the outermost rule are dropped: the builder keeps the node it finished. -/
theorem finish_feed_walk_terminals (r : Rule) (cs : List Tree) (us : List Token) :
    (Builder.feed {} ((Tree.node r cs).events ++ us.map Event.terminal)).finish =
      some (.node r cs) := by
  rw [feed_append, feed_events_node]
  have hdrop : ∀ us : List Token, (Builder.attach {} (.node r cs)).feed (us.map Event.terminal) =
      Builder.attach {} (.node r cs) := by
    intro us
    induction us with
    | nil => rfl
    | cons u us ih => exact ih
  rw [hdrop]
  rfl

end Builder

/-! ## Runs report whole walks -/

namespace Run

variable {c : Cursor}

/-- A run reports whole walks: when it ends, the walks of some trees one after the other; when it
stops, a prefix of such walks. -/
def Bracketed (r : Run c) : Prop :=
  r.Sat (fun es _ => ∃ ts, es = Tree.eventsAll ts) (fun es _ => ∃ ts, es <+: Tree.eventsAll ts)

/-- A run that stops at a mismatch did not expect an end of file there. -/
def ExpectsNoEnd (r : Run c) : Prop :=
  r.Sat (fun _ _ => True) (fun _ h => TokenKind.endOfFile ∉ h.expected)

namespace Bracketed

theorem done : (Run.done c).Bracketed := sat_done ⟨[], rfl⟩

theorem within {x : Rule} {b : Run c} (h : b.Bracketed) : (Run.within x b).Bracketed := by
  apply sat_within
  refine Sat.mono h (fun es _ ⟨ts, hts⟩ => ⟨[.node x ts], ?_⟩)
    (fun es _ ⟨ts, hts⟩ => ⟨[.node x ts], ?_⟩)
  · simp [hts]
  · simpa using List.prefix_append_of_prefix hts

theorem acceptThen {k : TokenKind} {hk : k ≠ .endOfFile}
    {next : (d : Cursor) → d.weight < c.weight → Run d}
    (h : ∀ t s hd, (next ⟨t, s⟩ hd).Bracketed) : (Run.acceptThen k hk c next).Bracketed := by
  apply sat_acceptThen
  · exact fun _ => ⟨[], List.nil_prefix⟩
  · exact fun _ _ _ => ⟨[.leaf c.lookahead], by simp⟩
  · intro t s hd _ _
    -- the accepted token is a leaf before the walks of the rest
    refine Sat.mono (h t s hd)
      (fun es _ ⟨ts, hts⟩ => ⟨.leaf c.lookahead :: ts, by simp [hts]⟩)
      (fun es _ ⟨ts, hts⟩ => ⟨.leaf c.lookahead :: ts, by simpa using hts⟩)

theorem bind {r : Run c} {k : (d : Cursor) → d.weight ≤ c.weight → Run d} (h : r.Bracketed)
    (hk : ∀ d hd, (k d hd).Bracketed) : (r.bind k).Bracketed := by
  apply sat_bind
  refine Sat.mono h (fun es₁ d ⟨ts₁, hts₁⟩ hd => ?_) (fun _ _ hes => hes)
  refine Sat.mono (hk d hd)
    (fun es₂ _ ⟨ts₂, hts₂⟩ => ⟨ts₁ ++ ts₂, by simp [hts₁, hts₂]⟩)
    (fun es₂ _ ⟨ts₂, hts₂⟩ => ⟨ts₁ ++ ts₂, by simpa [hts₁] using hts₂⟩)

theorem choose {o : Options} {ks : List TokenKind} {hks : TokenKind.endOfFile ∉ ks}
    {pick : (k : TokenKind) → k ≠ .endOfFile → Run c} {otherwise : Run c}
    (hpick : ∀ k hk, (pick k hk).Bracketed) (hotherwise : otherwise.Bracketed) :
    (Run.choose o ks hks c pick otherwise).Bracketed :=
  sat_choose (fun hk _ => hpick _ hk) (fun _ _ => ⟨[], List.nil_prefix⟩) fun _ _ => hotherwise

end Bracketed

namespace ExpectsNoEnd

theorem done : (Run.done c).ExpectsNoEnd := sat_done trivial

theorem within {x : Rule} {b : Run c} (h : b.ExpectsNoEnd) : (Run.within x b).ExpectsNoEnd :=
  sat_within (Sat.mono h (fun _ _ _ => trivial) fun _ _ he => he)

theorem acceptThen {k : TokenKind} {hk : k ≠ .endOfFile}
    {next : (d : Cursor) → d.weight < c.weight → Run d}
    (h : ∀ t s hd, (next ⟨t, s⟩ hd).ExpectsNoEnd) :
    (Run.acceptThen k hk c next).ExpectsNoEnd := by
  apply sat_acceptThen
  · -- a mismatch expects the one kind accepted here, which is no end of file
    intro _
    simpa [Halt.expected, Expected.kinds] using hk.symm
  · exact fun _ _ _ => by simp [Halt.expected]
  · exact fun t s hd _ _ => Sat.mono (h t s hd) (fun _ _ _ => trivial) fun _ _ he => he

theorem bind {r : Run c} {k : (d : Cursor) → d.weight ≤ c.weight → Run d} (h : r.ExpectsNoEnd)
    (hk : ∀ d hd, (k d hd).ExpectsNoEnd) : (r.bind k).ExpectsNoEnd :=
  sat_bind (Sat.mono h (fun _ d _ hd => Sat.mono (hk d hd) (fun _ _ _ => trivial) fun _ _ he => he)
    fun _ _ he => he)

theorem choose {o : Options} {ks : List TokenKind} {hks : TokenKind.endOfFile ∉ ks}
    {pick : (k : TokenKind) → k ≠ .endOfFile → Run c} {otherwise : Run c}
    (hpick : ∀ k hk, (pick k hk).ExpectsNoEnd) (hotherwise : otherwise.ExpectsNoEnd) :
    (Run.choose o ks hks c pick otherwise).ExpectsNoEnd :=
  sat_choose (fun hk _ => hpick _ hk)
    (fun _ _ => by simpa [Halt.expected, Expected.kinds] using hks) fun _ _ => hotherwise

end ExpectsNoEnd

end Run

/-- Every step keeps a run's report made of whole walks. -/
theorem bracketed_kept (o : Options) : Run.Kept o o fun r _ => r.Bracketed :=
  ⟨fun _ => Run.Bracketed.done, fun _ _ _ hb => hb.within,
    fun _ _ _ _ h => Run.Bracketed.acceptThen h, fun h hk => h.bind hk,
    fun _ _ _ _ _ _ hpick hotherwise => Run.Bracketed.choose hpick hotherwise⟩

/-- Every step keeps a run from expecting an end of file. -/
theorem expectsNoEnd_kept (o : Options) : Run.Kept o o fun r _ => r.ExpectsNoEnd :=
  ⟨fun _ => Run.ExpectsNoEnd.done, fun _ _ _ hb => hb.within,
    fun _ _ _ _ h => Run.ExpectsNoEnd.acceptThen h, fun h hk => h.bind hk,
    fun _ _ _ _ _ _ hpick hotherwise => Run.ExpectsNoEnd.choose hpick hotherwise⟩

/-- **A rule's run is one bracket.** It reports the walk of a node of its rule when it ends; when it
stops, the entry of its rule, then a prefix of the walks of some trees. -/
theorem recognize_bracket (o : Options) (r : Rule) (c : Cursor) :
    (recognize o r c).Sat (fun es _ => ∃ cs, es = (Tree.node r cs).events)
      (fun es _ => ∃ cs q, es = .enter r :: q ∧ q <+: Tree.eventsAll cs) := by
  obtain ⟨body, -, heq, -, hbody⟩ := ((bracketed_kept o).bodies rfl).1 r c
  rw [heq]
  apply sat_within
  exact Sat.mono hbody (fun es _ ⟨ts, hts⟩ => ⟨ts, by simp [hts]⟩)
    fun es _ ⟨ts, hts⟩ => ⟨ts, es, rfl, hts⟩

/-- **No rule ever expects an end of file.** Only the program's check after its statement part
does. -/
theorem recognize_expectsNoEnd (o : Options) (r : Rule) (c : Cursor) :
    (recognize o r c).ExpectsNoEnd :=
  ((expectsNoEnd_kept o).recognize rfl).1 r c

/-! ## Single rules and programs -/

/-- The halts of a program after its statement part ended: at the check for the end of file, or at
the pull after the end of file was accepted. -/
def Halt.AfterEnd : Halt → Prop
  | .mismatch _ x => x = .kind .endOfFile
  | .unreadable _ last => last.kind = .endOfFile

/-- A halt that expects no end of file and comes after tokens accepted from a cursor, none of them
an end of file, is no halt after an end. -/
theorem Halt.not_afterEnd {h : Halt} {c : Cursor} {u : List Token}
    (hx : TokenKind.endOfFile ∉ h.expected) (hc : h.Consumed c u) : ¬ h.AfterEnd := by
  cases h with
  | mismatch t x =>
    rintro rfl
    exact hx (by simp [Halt.expected, Expected.kinds])
  | unreadable e last =>
    obtain ⟨-, -, -, -, -, hlast, -⟩ := hc
    exact hlast

/-- Where the events are a prefix of walks, every exit names the rule of the builder's innermost
frame, as the builder checks when it closes the frame. -/
theorem Builder.innermost_at_exit {es : List Event} {ts : List Tree} (h : es <+: Tree.eventsAll ts)
    {pre post : List Event} {x : Rule} (hes : es = pre ++ .exit x :: post) :
    (Builder.feed {} pre).innermost? = some x := by
  rw [Builder.innermost_feed]
  subst hes
  exact Event.exitsMatch.head [] (Tree.exitsMatch_prefix_walks h [])

namespace Recognition

open Event

variable {o : Options} {s : TokenSource} {rec : Recognition}

/-- **How a single rule ends.** It succeeds with the walk of a node of its rule, or stops inside
the bracket of its rule. -/
theorem single_bracket {r : Rule} (h : single o r s = .ok rec) :
    (rec.succeeded = true ∧ ∃ cs, rec.events = (Tree.node r cs).events) ∨
      (rec.succeeded = false ∧
        ∃ cs q, rec.events = .enter r :: q ∧ q <+: Tree.eventsAll cs) := by
  obtain ⟨t₀, s₀, -, rfl⟩ := single_of_ok h
  have hb := recognize_bracket o r ⟨t₀, s₀⟩
  cases hrun : (recognize o r ⟨t₀, s₀⟩).recognition with
  | mk es out =>
    cases out with
    | ok d => exact .inl ⟨rfl, hb.of_recognition_ok hrun⟩
    | error e => exact .inr ⟨rfl, hb.of_recognition_error hrun⟩

/-- **How a program ends.** Either its statement part stopped inside its bracket, at a halt that
is not after an end; or the statement part reported the walk of a node, and the program then
accepted at most one end of file, and succeeded or halted after the end. -/
theorem program_bracket (h : program o s = .ok rec) :
    (∃ cs q e, rec = ⟨.enter .statementPart :: q, .error e⟩ ∧ q <+: Tree.eventsAll cs ∧
        ¬ e.AfterEnd) ∨
      ∃ cs, ∃ t : Token, ∃ us : List Token, t.kind = .endOfFile ∧ us <+: [t] ∧
        rec.events = (Tree.node .statementPart cs).events ++ us.map terminal ∧
        (rec.succeeded = true ∨ ∃ e, rec.halt? = some e ∧ e.AfterEnd) := by
  obtain ⟨t₀, s₀, -, hcase⟩ := program_cases h
  have hb := recognize_bracket o .statementPart ⟨t₀, s₀⟩
  rcases hcase with ⟨es, e, hrun, rfl⟩ | ⟨es, d, e, hrun, heof, -, rfl⟩ |
    ⟨es, d, t, s', hrun, heof, -, rfl⟩ | ⟨es, d, hrun, -, rfl⟩
  · -- the statement part stopped: it expected no end of file, and accepted none
    obtain ⟨cs, q, rfl, hq⟩ := hb.of_recognition_error hrun
    have hx := (recognize_expectsNoEnd o .statementPart _).of_recognition_error hrun
    have hc := ((recognize_consumes o).1 .statementPart _).of_recognition_error hrun
    exact .inl ⟨cs, q, e, rfl, hq, Halt.not_afterEnd hx hc⟩
  · obtain ⟨cs, rfl⟩ := hb.of_recognition_ok hrun
    exact .inr ⟨cs, d.lookahead, [d.lookahead], heof, List.prefix_refl _, rfl,
      .inr ⟨_, rfl, heof⟩⟩
  · obtain ⟨cs, rfl⟩ := hb.of_recognition_ok hrun
    exact .inr ⟨cs, d.lookahead, [d.lookahead], heof, List.prefix_refl _, rfl, .inl rfl⟩
  · obtain ⟨cs, rfl⟩ := hb.of_recognition_ok hrun
    exact .inr ⟨cs, .ofKind .endOfFile, [], rfl, List.nil_prefix, by simp,
      .inr ⟨_, rfl, rfl⟩⟩

section Single

variable {r : Rule} (h : single o r s = .ok rec)
include h

theorem single_events_begin_walk : ∃ cs, rec.events <+: (Tree.node r cs).events := by
  rcases single_bracket h with ⟨-, cs, hes⟩ | ⟨-, cs, q, hes, hq⟩
  · exact ⟨cs, hes ▸ List.prefix_refl _⟩
  · exact ⟨cs, hes ▸ Tree.entry_prefix_events hq⟩

/-- A single rule leaves its bracket closed exactly when it succeeds. -/
theorem single_closed_iff : unclosed [] rec.events = [] ↔ rec.succeeded = true := by
  rcases single_bracket h with ⟨hs, cs, hes⟩ | ⟨hs, cs, q, hes, hq⟩
  · rw [hes, Tree.unclosed_events, hs]
    simp
  · rw [hes, hs]
    simpa using Tree.unclosed_entry_ne_nil hq

/-- The builder of a single rule has a tree exactly when the rule succeeded, the tree it walked. -/
theorem single_finish_iff (T : Tree) :
    rec.builder.finish = some T ↔ rec.succeeded = true ∧ rec.events = T.events := by
  rcases single_bracket h with ⟨hs, cs, hes⟩ | ⟨hs, cs, q, hes, hq⟩
  · rw [builder, hes, Builder.finish_feed_events, hs, Option.some.injEq]
    exact ⟨fun hT => ⟨rfl, hT ▸ rfl⟩, fun ⟨_, hT⟩ => Tree.events_inj hT⟩
  · have hopen : unclosed [] rec.events ≠ [] := hes ▸ Tree.unclosed_entry_ne_nil hq
    rw [builder, Builder.finish_feed_of_unclosed hopen, hs]
    simp

end Single

section Program

variable (h : program o s = .ok rec)
include h

theorem program_events_begin_walk : ∃ cs, ∃ t : Token, t.kind = .endOfFile ∧
    rec.events <+: (Tree.node .statementPart cs).events ++ [.terminal t] := by
  rcases program_bracket h with ⟨cs, q, e, rfl, hq, -⟩ | ⟨cs, t, us, ht, hus, hes, -⟩
  · exact ⟨cs, .ofKind .endOfFile, rfl,
      (Tree.entry_prefix_events hq).trans (List.prefix_append _ _)⟩
  · refine ⟨cs, t, ht, ?_⟩
    rw [hes]
    exact (List.prefix_append_right_inj _).2 (hus.map terminal)

/-- A program leaves its bracket closed exactly when it succeeds or halts after the end of its
statement part. -/
theorem program_closed_iff : unclosed [] rec.events = [] ↔
    rec.succeeded = true ∨ ∃ e, rec.halt? = some e ∧ e.AfterEnd := by
  rcases program_bracket h with ⟨cs, q, e, rfl, hq, he⟩ | ⟨cs, t, us, -, -, hes, hend⟩
  · simpa [halt?, succeeded, he] using Tree.unclosed_entry_ne_nil (r := .statementPart) hq
  · rw [hes, unclosed_append, Tree.unclosed_events, unclosed_terminals]
    exact iff_of_true rfl hend

/-- The builder of a program has a tree exactly when the bracket is closed: the node of the
statement part whose walk begins the events. -/
theorem program_finish_iff (T : Tree) : rec.builder.finish = some T ↔
    unclosed [] rec.events = [] ∧ T.sym = .rule .statementPart ∧ T.events <+: rec.events := by
  rcases program_bracket h with ⟨cs, q, e, rfl, hq, -⟩ | ⟨cs, t, us, -, -, hes, -⟩
  · have hopen := Tree.unclosed_entry_ne_nil (r := .statementPart) hq
    rw [builder, Builder.finish_feed_of_unclosed hopen]
    exact iff_of_false (by simp) fun ⟨hclosed, _⟩ => hopen hclosed
  · rw [builder, hes, Builder.finish_feed_walk_terminals, Option.some.injEq, unclosed_append,
      Tree.unclosed_events, unclosed_terminals]
    have hwalk := List.prefix_append (Tree.node .statementPart cs).events (us.map terminal)
    constructor
    · rintro rfl
      exact ⟨rfl, rfl, hwalk⟩
    · rintro ⟨-, hsym, hT⟩
      exact Tree.eq_of_walks_begin rfl hsym hwalk hT

end Program

end Recognition

/-- **What the listeners are called with is one bracket.** Every listener of a recognition gets
its one list of events, and the halt's diagnostic depends on none of them. For a program over any
source, with any options, that list is a prefix of the walk of a node of the statement part
followed by an end of file; every exit names the builder's innermost frame, as the builder checks;
the bracket is closed exactly when the program succeeds or halts after its statement part ended;
and the builder's open frames are the rules left open, and it has a tree exactly when none is: the
node whose walk begins the events. A single rule's list is a prefix of the walk of a node of that
rule, closed exactly when the rule succeeds, when the builder's tree is the one walked. -/
theorem listener_events_well_bracketed (o : Options) (s : TokenSource) :
    (∀ rec, Recognition.program o s = .ok rec →
      (∃ cs, ∃ t : Token, t.kind = .endOfFile ∧
        rec.events <+: (Tree.node .statementPart cs).events ++ [.terminal t]) ∧
      (∀ pre x post, rec.events = pre ++ .exit x :: post →
        (Builder.feed {} pre).innermost? = some x) ∧
      (Event.unclosed [] rec.events = [] ↔
        rec.succeeded = true ∨ ∃ e, rec.halt? = some e ∧ e.AfterEnd) ∧
      rec.builder.openRules = (Event.unclosed [] rec.events).reverse ∧
      ∀ T, rec.builder.finish = some T ↔ Event.unclosed [] rec.events = [] ∧
        T.sym = .rule .statementPart ∧ T.events <+: rec.events) ∧
    ∀ r rec, Recognition.single o r s = .ok rec →
      (∃ cs, rec.events <+: (Tree.node r cs).events) ∧
      (∀ pre x post, rec.events = pre ++ .exit x :: post →
        (Builder.feed {} pre).innermost? = some x) ∧
      (Event.unclosed [] rec.events = [] ↔ rec.succeeded = true) ∧
      rec.builder.openRules = (Event.unclosed [] rec.events).reverse ∧
      ∀ T, rec.builder.finish = some T ↔ rec.succeeded = true ∧ rec.events = T.events := by
  constructor
  · intro rec h
    obtain ⟨cs, t, ht, hpre⟩ := Recognition.program_events_begin_walk h
    -- with the end of file, the events are a prefix of the walks of the node and of a leaf
    have hwalks : rec.events <+: Tree.eventsAll [.node .statementPart cs, .leaf t] := by
      simpa using hpre
    exact ⟨⟨cs, t, ht, hpre⟩, fun _ _ _ => Builder.innermost_at_exit hwalks,
      Recognition.program_closed_iff h, Builder.openRules_feed _,
      Recognition.program_finish_iff h⟩
  · intro r rec h
    obtain ⟨cs, hpre⟩ := Recognition.single_events_begin_walk h
    have hwalks : rec.events <+: Tree.eventsAll [.node r cs] := by simpa using hpre
    exact ⟨⟨cs, hpre⟩, fun _ _ _ => Builder.innermost_at_exit hwalks,
      Recognition.single_closed_iff h, Builder.openRules_feed _, Recognition.single_finish_iff h⟩

end SyntaxCheck
