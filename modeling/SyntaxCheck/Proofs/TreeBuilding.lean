import SyntaxCheck.Proofs.Brackets
import SyntaxCheck.Report.Signal

/-!
# What the tree builder keeps

A builder keeps a stack of open frames, each a rule entered with the children gathered since, and
the last tree it finished with no frame left. Whatever signals it receives, it keeps only their
events (`Builder.receiveAll_eq_feed`). As long as every exit either finds no rule open or names the
innermost one (`Event.exitsFit`), the events a builder was fed are events at the top level, which
leave no rule open and whose last bracket is the finished tree, followed by the events that its
frames stand for (`Builder.Represents`). One event keeps this (`Builder.represents_step`), so every
list of events does (`Builder.represents_feed`).

So the builder's open rules are the rules entered and not left, outermost first; it has a tree
exactly when no rule is open and some rule was entered; and that tree is the last bracket closed at
the top level, the node whose walk the bracket is (`Builder.finish_feed_iff`).

A tree is shown with the lines that the trace writes for its walk, each entry by its rule's name
without `begin `, and no line for an exit. Both renderings write one line per event, at the depth
the trace keeps (`Event.placed`): the trace its own line (`Trace.line`), the tree its line for an
entry or a terminal (`Tree.line?`).
-/

namespace SyntaxCheck

open Event

/-! ## Signals and events -/

namespace Signal

@[simp] theorem events_nil : events [] = [] := rfl

@[simp] theorem events_event (e : Event) (ss : List Signal) :
    events (.event e :: ss) = e :: events ss := rfl

@[simp] theorem events_error (t : Token) (m : String) (ss : List Signal) :
    events (.error t m :: ss) = events ss := rfl

end Signal

/-- A builder keeps only the events among the signals: an error changes nothing. -/
theorem Builder.receiveAll_eq_feed (ss : List Signal) :
    ∀ b : Builder, b.receiveAll ss = b.feed (Signal.events ss) := by
  induction ss with
  | nil => exact fun _ => rfl
  | cons s ss ih =>
    intro b
    cases s with
    | event e => exact ih (b.step e)
    | error t m => exact ih b

/-- A trace records the events among the signals, in order. -/
theorem Trace.events_receiveAll (ss : List Signal) :
    ∀ tr : Trace, (tr.receiveAll ss).events = tr.events ++ Signal.events ss := by
  induction ss with
  | nil => simp [Trace.receiveAll]
  | cons s ss ih =>
    intro tr
    cases s with
    | event e =>
      rw [Trace.receiveAll, List.foldl_cons, ← Trace.receiveAll, ih]
      simp [Trace.receive, Trace.record]
    | error t m =>
      rw [Trace.receiveAll, List.foldl_cons, ← Trace.receiveAll, ih]
      rfl

/-! ## Exits that fit, and the last bracket -/

namespace Event

/-- Along the events `es`, read from the rules `st` open before them, innermost first, every exit
either finds no rule open or names the innermost open rule. -/
def exitsFit : List Rule → List Event → Bool
  | _, [] => true
  | st, .enter r :: es => exitsFit (r :: st) es
  | st, .exit x :: es => st.head?.all (· == x) && exitsFit st.tail es
  | st, .terminal _ :: es => exitsFit st es

theorem exitsFit_append (st : List Rule) (es es' : List Event) :
    exitsFit st (es ++ es') = (exitsFit st es && exitsFit (unclosed st es) es') := by
  induction es generalizing st with
  | nil => simp [exitsFit]
  | cons e es ih => cases e <;> simp [exitsFit, ih, Bool.and_assoc]

/-- Exits that each name the innermost open rule fit. -/
theorem exitsFit_of_exitsMatch {st : List Rule} {es : List Event} (h : exitsMatch st es) :
    exitsFit st es = true := by
  induction es generalizing st with
  | nil => rfl
  | cons e es ih =>
    cases e with
    | enter r => exact ih h
    | exit x =>
      obtain ⟨hhead, h⟩ := h
      simp [exitsFit, hhead, ih h]
    | terminal t => exact ih h

end Event

namespace Builder

/-- A check that passes takes the step. -/
theorem eq_step_of_checkedStep {b b' : Builder} {e : Event} (h : b.checkedStep e = .ok b') :
    b' = b.step e := by
  unfold checkedStep at h
  split at h
  · split at h
    · cases h
      rfl
    · cases h
  · cases h
    rfl

/-- The check of one event passes exactly when the exit, if it is one, fits the open rules. -/
theorem checkedStep_eq_ok_iff (b : Builder) (e : Event) :
    b.checkedStep e = .ok (b.step e) ↔ exitsFit (b.frames.map Frame.rule) [e] = true := by
  obtain ⟨frames, root⟩ := b
  cases e with
  | exit x =>
    cases frames with
    | nil => simp [checkedStep, innermost?, exitsFit]
    | cons f fs =>
      by_cases hx : f.rule = x <;> simp [checkedStep, innermost?, exitsFit, hx]
  | enter r => simp [checkedStep, exitsFit]
  | terminal t => simp [checkedStep, exitsFit]

/-- **The debug assertion holds exactly on events whose exits fit.** A build with debug
assertions takes a list of events as every build does, failing no check, exactly when every exit
either finds no rule open or names the innermost open rule. -/
theorem checkedFeed_eq_ok_iff (b : Builder) (es : List Event) :
    b.checkedFeed es = .ok (b.feed es) ↔ exitsFit (b.frames.map Frame.rule) es = true := by
  induction es generalizing b with
  | nil => simp [checkedFeed, exitsFit]
  | cons e es ih =>
    -- the first event is checked against the open rules, the rest against those it leaves open
    have hrest : unclosed (b.frames.map Frame.rule) [e] = (b.step e).frames.map Frame.rule :=
      (rules_feed b [e]).symm
    rw [show e :: es = [e] ++ es from rfl, exitsFit_append, hrest]
    cases hc : b.checkedStep e with
    | error err =>
      have hfit : exitsFit (b.frames.map Frame.rule) [e] = false := by
        rw [← Bool.not_eq_true, ← checkedStep_eq_ok_iff, hc]
        simp
      rw [hfit, Bool.false_and, List.singleton_append, checkedFeed, hc]
      simp [Except.bind]
    | ok b' =>
      obtain rfl := eq_step_of_checkedStep hc
      have hfit : exitsFit (b.frames.map Frame.rule) [e] = true := (checkedStep_eq_ok_iff b e).1 hc
      rw [hfit, Bool.true_and, ← ih, List.singleton_append, checkedFeed, hc, feed_cons]
      exact Iff.rfl

/-- The events of a prefix of walks pass every check of a build with debug assertions: each exit
names the innermost open rule. -/
theorem checkedFeed_of_prefix_walks {es : List Event} {ts : List Tree}
    (h : es <+: Tree.eventsAll ts) : Builder.checkedFeed {} es = .ok (Builder.feed {} es) :=
  (checkedFeed_eq_ok_iff {} es).2 (exitsFit_of_exitsMatch (Tree.exitsMatch_prefix_walks h []))

end Builder

/-- **A build with debug assertions never stops at them.** The events of a program's recognition,
and those of a single rule's, over any source and with any options, pass every check. -/
theorem Recognition.checkedFeed_events {o : Options} {s : TokenSource} {rec : Recognition} :
    (Recognition.program o s = .ok rec ∨ ∃ r, Recognition.single o r s = .ok rec) →
      Builder.checkedFeed {} rec.events = .ok rec.builder := by
  rintro (h | ⟨r, h⟩)
  · -- with the end of file, the events are a prefix of the walks of the node and of a leaf
    obtain ⟨cs, t, -, hpre⟩ := Recognition.program_events_begin_walk h
    have hwalks : rec.events <+: Tree.eventsAll [.node .statementPart cs, .leaf t] := by
      simpa using hpre
    exact Builder.checkedFeed_of_prefix_walks hwalks
  · obtain ⟨cs, hpre⟩ := Recognition.single_events_begin_walk h
    have hwalks : rec.events <+: Tree.eventsAll [.node r cs] := by simpa using hpre
    exact Builder.checkedFeed_of_prefix_walks hwalks

namespace Event

/-- The tree `T` is the last rule bracket that the events `es` close at the top level: `T` is a
node, and `es` is events that leave no rule open, the walk of `T`, and events that enter no
rule. -/
def LastBracket (es : List Event) (T : Tree) : Prop :=
  (∃ r cs, T = .node r cs) ∧
    ∃ pre post, es = pre ++ T.events ++ post ∧ unclosed [] pre = [] ∧ ∀ r, .enter r ∉ post

/-- Events that enter no rule leave none open. -/
theorem unclosed_of_no_entry {es : List Event} (h : ∀ r, .enter r ∉ es) :
    unclosed [] es = [] := by
  induction es with
  | nil => rfl
  | cons e es ih =>
    have hes : ∀ r, .enter r ∉ es := fun r hr => h r (List.mem_cons_of_mem e hr)
    cases e with
    | enter r => exact absurd List.mem_cons_self (h r)
    | exit x => exact ih hes
    | terminal t => exact ih hes

theorem LastBracket.unclosed_eq_nil {es : List Event} {T : Tree} (h : LastBracket es T) :
    unclosed [] es = [] := by
  obtain ⟨-, pre, post, rfl, hpre, hpost⟩ := h
  rw [unclosed_append, unclosed_append, hpre, Tree.unclosed_events]
  exact unclosed_of_no_entry hpost

/-- Events with a last bracket enter a rule. -/
theorem LastBracket.exists_entry {es : List Event} {T : Tree} (h : LastBracket es T) :
    ∃ r, .enter r ∈ es := by
  obtain ⟨⟨r, cs, rfl⟩, pre, post, rfl, -, -⟩ := h
  exact ⟨r, by simp⟩

end Event

/-! ## The builder's representation -/

namespace Builder

/-- The events that the open frames `fs`, innermost first, stand for, outermost first: each
frame's entry, then the walks of its children so far. -/
def pending : List Frame → List Event
  | [] => []
  | f :: fs => pending fs ++ .enter f.rule :: Tree.eventsAll f.recent.reverse

@[simp] theorem pending_nil : pending [] = [] := rfl

theorem pending_cons (f : Frame) (fs : List Frame) :
    pending (f :: fs) = pending fs ++ .enter f.rule :: Tree.eventsAll f.recent.reverse := rfl

/-- The pending events leave the frames' rules open. -/
theorem unclosed_pending (st : List Rule) :
    ∀ fs : List Frame, unclosed st (pending fs) = fs.map Frame.rule ++ st
  | [] => rfl
  | f :: fs => by
    rw [pending_cons, unclosed_append, unclosed_pending st fs, unclosed_enter,
      Tree.unclosed_eventsAll]
    rfl

/-- **What a builder holds after the events `es`.** They are events at the top level, which leave
no rule open, followed by the events its open frames stand for; and the builder's tree is the last
bracket of the top-level events, or there is none when they enter no rule. -/
def Represents (b : Builder) (es : List Event) : Prop :=
  ∃ top, es = top ++ pending b.frames ∧ unclosed [] top = [] ∧
    (b.root = none → ∀ r, .enter r ∉ top) ∧ ∀ T, b.root = some T → LastBracket top T

theorem represents_empty : Represents {} [] :=
  ⟨[], rfl, rfl, fun _ _ h => absurd h List.not_mem_nil, fun _ h => by cases h⟩

/-- Events at the top level that keep no rule open extend the top level: the last bracket stays
the last one. -/
theorem represents_top {b : Builder} {top : List Event} {e : Event} (hb : b.frames = [])
    (htop : unclosed [] top = []) (hnone : b.root = none → ∀ r, .enter r ∉ top)
    (hsome : ∀ T, b.root = some T → LastBracket top T) (he : ∀ r, e ≠ .enter r) :
    b.Represents (top ++ [e]) := by
  refine ⟨top ++ [e], by simp [hb], ?_, fun hr r hmem => ?_, fun T hT => ?_⟩
  · rw [unclosed_append, htop]
    cases e with
    | enter r => exact absurd rfl (he r)
    | exit x => rfl
    | terminal t => rfl
  · rcases List.mem_append.1 hmem with hmem | hmem
    · exact hnone hr r hmem
    · exact he r (List.mem_singleton.1 hmem).symm
  · obtain ⟨hnode, pre, post, rfl, hpre, hpost⟩ := hsome T hT
    refine ⟨hnode, pre, post ++ [e], by simp, hpre, fun r hmem => ?_⟩
    rcases List.mem_append.1 hmem with hmem | hmem
    · exact hpost r hmem
    · exact he r (List.mem_singleton.1 hmem).symm

/-- **One event keeps the representation**, when its exit, if it is one, fits. -/
theorem represents_step {b : Builder} {es : List Event} {e : Event} (h : b.Represents es)
    (hfit : exitsFit [] (es ++ [e]) = true) : (b.step e).Represents (es ++ [e]) := by
  obtain ⟨top, rfl, htop, hnone, hsome⟩ := h
  obtain ⟨frames, root⟩ := b
  cases e with
  | enter r =>
    -- a new frame, whose entry is the last pending event
    exact ⟨top, by simp [step, pending_cons], htop, hnone, hsome⟩
  | terminal t =>
    cases frames with
    | nil => simpa [step] using represents_top rfl htop hnone hsome (by simp)
    | cons f fs =>
      -- a leaf of the innermost frame, whose walk is the terminal
      refine ⟨top, ?_, htop, hnone, hsome⟩
      simp [step, attach, pending_cons]
  | exit x =>
    cases frames with
    | nil => simpa [step] using represents_top rfl htop hnone hsome (by simp)
    | cons f fs =>
      -- the exit names the innermost frame, which the pending events leave open
      have hx : f.rule = x := by
        rw [List.append_assoc, exitsFit_append, htop, exitsFit_append, unclosed_pending] at hfit
        simp [exitsFit] at hfit
        exact hfit.2.2
      subst hx
      have hwalk : pending (f :: fs) ++ [.exit f.rule] =
          pending fs ++ (Tree.node f.rule f.recent.reverse).events := by
        simp [pending_cons]
      cases fs with
      | nil =>
        -- the node closes at the top level and becomes the tree
        refine ⟨top ++ (Tree.node f.rule f.recent.reverse).events, ?_, ?_,
          fun h => (by simp [step, attach] at h), fun T hT => ?_⟩
        · simp only [step, attach]
          rw [List.append_assoc, hwalk]
          simp
        · rw [unclosed_append, htop, Tree.unclosed_events]
        · simp only [step, attach, Option.some.injEq] at hT
          subst hT
          exact ⟨⟨_, _, rfl⟩, top, [], by simp, htop, fun _ h => absurd h List.not_mem_nil⟩
      | cons g gs =>
        -- the node becomes the last child of the frame around it
        refine ⟨top, ?_, htop, hnone, hsome⟩
        simp only [step, attach]
        rw [List.append_assoc, hwalk]
        simp [pending_cons]

/-- Events whose exits fit keep the representation, one after the other. -/
theorem represents_feed_of {b : Builder} {pre : List Event} (h : b.Represents pre) :
    ∀ es, exitsFit [] (pre ++ es) = true → (b.feed es).Represents (pre ++ es) := by
  intro es
  induction es generalizing b pre with
  | nil => exact fun _ => by simpa using h
  | cons e es ih =>
    intro hfit
    have hsplit : pre ++ e :: es = pre ++ [e] ++ es := by simp
    rw [hsplit, exitsFit_append, Bool.and_eq_true] at hfit
    rw [feed_cons, hsplit]
    exact ih (represents_step h hfit.1) (by rw [exitsFit_append, hfit.1, hfit.2]; rfl)

/-- **Every list of events whose exits fit is represented** by the builder fed with it. -/
theorem represents_feed (es : List Event) (h : exitsFit [] es = true) :
    (Builder.feed {} es).Represents es :=
  represents_feed_of represents_empty es h

/-- With no frame open, every event represented is at the top level. -/
theorem Represents.top {b : Builder} {es : List Event} (h : b.Represents es)
    (hb : b.frames = []) :
    (b.root = none → ∀ r, .enter r ∉ es) ∧ ∀ T, b.root = some T → LastBracket es T := by
  obtain ⟨top, hes, -, hnone, hsome⟩ := h
  rw [hb, pending_nil, List.append_nil] at hes
  subst hes
  exact ⟨hnone, hsome⟩

/-- Events that enter no rule change nothing in a builder with no frame open. -/
theorem feed_of_no_entry {b : Builder} (hb : b.frames = []) {es : List Event}
    (h : ∀ r, .enter r ∉ es) : b.feed es = b := by
  induction es with
  | nil => rfl
  | cons e es ih =>
    have hes : ∀ r, .enter r ∉ es := fun r hr => h r (List.mem_cons_of_mem e hr)
    cases e with
    | enter r => exact absurd List.mem_cons_self (h r)
    | exit x => rw [feed_cons, show b.step (.exit x) = b by simp [step, hb], ih hes]
    | terminal t => rw [feed_cons, show b.step (.terminal t) = b by simp [step, hb], ih hes]

/-- A builder fed from scratch has no frame open exactly when the events leave no rule open. -/
theorem frames_feed_eq_nil_iff (es : List Event) :
    (Builder.feed {} es).frames = [] ↔ unclosed [] es = [] := by
  rw [← List.map_eq_nil_iff (f := Frame.rule), rules_feed]
  rfl

/-- **The builder's tree is the last bracket.** Fed events whose exits fit, a builder has the tree
`T` exactly when `T` is the last rule bracket the events close at the top level. -/
theorem finish_feed_iff {es : List Event} (h : exitsFit [] es = true) (T : Tree) :
    (Builder.feed {} es).finish = some T ↔ LastBracket es T := by
  constructor
  · intro hT
    unfold finish at hT
    split at hT
    · -- no frame is open, so every event is at the top level
      rename_i hframes
      exact ((represents_feed es h).top hframes).2 T hT
    · cases hT
  · rintro ⟨⟨r, cs, rfl⟩, pre, post, rfl, hpre, hpost⟩
    have hframes : (Builder.feed {} pre).frames = [] := (frames_feed_eq_nil_iff pre).2 hpre
    -- the walk of the node, fed with no frame open, makes the node the tree
    have hnode : ∀ b : Builder, b.frames = [] →
        b.feed (Tree.node r cs).events = ⟨[], some (.node r cs)⟩ := by
      rintro ⟨frames, root⟩ hb
      obtain rfl : frames = [] := hb
      rw [feed_events_node]
      rfl
    rw [feed_append, feed_append, hnode _ hframes, feed_of_no_entry rfl hpost]
    rfl

/-- A builder fed events whose exits fit has a tree exactly when they leave no rule open and enter
some rule. -/
theorem finish_feed_isSome_iff {es : List Event} (h : exitsFit [] es = true) :
    (Builder.feed {} es).finish.isSome ↔ unclosed [] es = [] ∧ ∃ r, .enter r ∈ es := by
  constructor
  · intro hsome
    obtain ⟨T, hT⟩ := Option.isSome_iff_exists.1 hsome
    have hlast := (finish_feed_iff h T).1 hT
    exact ⟨hlast.unclosed_eq_nil, hlast.exists_entry⟩
  · rintro ⟨hclosed, r, hr⟩
    have hframes := (frames_feed_eq_nil_iff es).2 hclosed
    -- with no frame open, an entry among the events means a tree was finished
    cases hroot : (Builder.feed {} es).root with
    | none => exact absurd hr (((represents_feed es h).top hframes).1 hroot r)
    | some T => simp [finish, hframes, hroot]

end Builder

/-! ## Showing a tree with the trace's lines -/

namespace Event

/-- Each event with the depth at which a trace writes its line, from depth `d` on: an entry or a
terminal at the depth before it, an exit at the depth after it. -/
def placed : Nat → List Event → List (Nat × Event)
  | _, [] => []
  | d, .enter r :: es => (d, .enter r) :: placed (d + 1) es
  | d, .exit r :: es => (d - 1, .exit r) :: placed (d - 1) es
  | d, .terminal t :: es => (d, .terminal t) :: placed d es

theorem length_placed : ∀ (d : Nat) (es : List Event), (placed d es).length = es.length
  | _, [] => rfl
  | d, .enter r :: es => by simp [placed, length_placed (d + 1) es]
  | d, .exit r :: es => by simp [placed, length_placed (d - 1) es]
  | d, .terminal t :: es => by simp [placed, length_placed d es]

mutual

/-- A walk comes back to the depth it started at, so what follows it is placed from there. -/
theorem placed_events_append : ∀ (T : Tree) (d : Nat) (es : List Event),
    placed d (T.events ++ es) = placed d T.events ++ placed d es
  | .leaf t, d, es => by simp [placed]
  | .node r cs, d, es => by
    simp only [Tree.events_node, List.cons_append, List.append_assoc, placed]
    rw [placed_eventsAll_append cs (d + 1), placed_eventsAll_append cs (d + 1)]
    simp [placed]

theorem placed_eventsAll_append : ∀ (ts : List Tree) (d : Nat) (es : List Event),
    placed d (Tree.eventsAll ts ++ es) = placed d (Tree.eventsAll ts) ++ placed d es
  | [], d, es => by simp [placed]
  | t :: ts, d, es => by
    simp only [Tree.eventsAll_cons, List.append_assoc]
    rw [placed_events_append t d, placed_events_append t d, placed_eventsAll_append ts d,
      List.append_assoc]

end

end Event

/-- The line a trace writes for an event at a depth. -/
def Trace.line : Nat × Event → String
  | (d, .enter r) => Trace.indent d ++ "begin " ++ r.name ++ "\n"
  | (d, .exit r) => Trace.indent d ++ "end " ++ r.name ++ "\n"
  | (d, .terminal t) => Trace.indent d ++ t.display ++ "\n"

/-- The line a tree shows for an event of its walk at a depth: for an entry, the trace's line
without `begin `; for a terminal, the trace's line; and none for an exit. -/
def Tree.line? : Nat × Event → Option String
  | (d, .enter r) => some (Trace.indent d ++ r.name ++ "\n")
  | (_, .exit _) => none
  | (d, .terminal t) => some (Trace.line (d, .terminal t))

/-- A trace writes one line per event, at the depth it keeps. -/
theorem Trace.renderInto_eq : ∀ (d : Nat) (out : String) (es : List Event),
    Trace.renderInto d out es = out ++ String.join ((Event.placed d es).map Trace.line)
  | _, out, [] => by simp [Trace.renderInto, Event.placed]
  | d, out, .enter r :: es => by
    simp [Trace.renderInto, Event.placed, Trace.renderInto_eq (d + 1), Trace.line,
      String.join_cons, String.append_assoc]
  | d, out, .exit r :: es => by
    simp [Trace.renderInto, Event.placed, Trace.renderInto_eq (d - 1), Trace.line,
      String.join_cons, String.append_assoc]
  | d, out, .terminal t :: es => by
    simp [Trace.renderInto, Event.placed, Trace.renderInto_eq d, Trace.line,
      String.join_cons, String.append_assoc]

theorem Trace.render_eq (tr : Trace) :
    tr.render = String.join ((Event.placed 0 tr.events).map Trace.line) := by
  rw [Trace.render, Trace.renderInto_eq, String.empty_append]

mutual

/-- A tree shows one line per entry and terminal of its walk, at the depth a trace keeps. -/
theorem Tree.renderInto_eq : ∀ (d : Nat) (out : String) (T : Tree),
    T.renderInto d out = out ++ String.join ((Event.placed d T.events).filterMap Tree.line?)
  | d, out, .leaf t => by
    simp [Tree.renderInto, Event.placed, Tree.line?, Trace.line, String.join_cons,
      String.append_assoc, Tree.indent, Trace.indent]
  | d, out, .node r cs => by
    rw [Tree.renderInto, Tree.renderAllInto_eq (d + 1), Tree.events_node, List.cons_append,
      Event.placed, Event.placed_eventsAll_append]
    simp [Event.placed, Tree.line?, List.filterMap_cons, String.join_cons, String.append_assoc,
      Tree.indent, Trace.indent]

theorem Tree.renderAllInto_eq : ∀ (d : Nat) (out : String) (ts : List Tree),
    Tree.renderAllInto d out ts =
      out ++ String.join ((Event.placed d (Tree.eventsAll ts)).filterMap Tree.line?)
  | d, out, [] => by simp [Tree.renderAllInto, Event.placed]
  | d, out, t :: ts => by
    rw [Tree.renderAllInto, Tree.renderAllInto_eq d, Tree.renderInto_eq d, Tree.eventsAll_cons,
      Event.placed_events_append, List.filterMap_append, String.join_append, String.append_assoc]

end

theorem Tree.render_eq (T : Tree) :
    T.render = String.join ((Event.placed 0 T.events).filterMap Tree.line?) := by
  rw [Tree.render, Tree.renderInto_eq, String.empty_append]

/-- **The builder keeps the last bracket of what it was told.** For any signals: the builder keeps
only their events, an error leaves it as it is and is answered with the syntax error at its token,
and an exit or a terminal with no rule open changes nothing; its open rules are the rules entered
and not left, outermost first. When every exit either finds no rule open or names the innermost
one, the builder has a tree exactly when no rule is open and some rule was entered, and its tree is
the last rule bracket closed at the top level, the node whose walk that bracket is. When the events
are one bracket followed by tokens outside it, the tree is that bracket's node, and it is shown
with the lines a trace of the same signals writes for the bracket, each entry without `begin `
and no line for an exit: both write one line per event, at the same depth. -/
theorem builder_keeps_last_bracket (ss : List Signal) :
    ({} : Builder).receiveAll ss = Builder.feed {} (Signal.events ss) ∧
    (∀ (b : Builder) t m, b.receive (.error t m) = b ∧
      (Signal.error t m).reply = some (.unexpected t m)) ∧
    (∀ b : Builder, b.frames = [] → ∀ x t,
      b.step (.exit x) = b ∧ b.step (.terminal t) = b) ∧
    (({} : Builder).receiveAll ss).openRules = (unclosed [] (Signal.events ss)).reverse ∧
    (exitsFit [] (Signal.events ss) = true →
      ((({} : Builder).receiveAll ss).finish.isSome ↔
        unclosed [] (Signal.events ss) = [] ∧ ∃ r, .enter r ∈ Signal.events ss) ∧
      ∀ T, (({} : Builder).receiveAll ss).finish = some T ↔
        LastBracket (Signal.events ss) T) ∧
    ∀ r cs (us : List Token), Signal.events ss = (Tree.node r cs).events ++ us.map .terminal →
      (({} : Builder).receiveAll ss).finish = some (.node r cs) ∧
      (Tree.node r cs).render = String.join (((placed 0 (Signal.events ss)).take
        (Tree.node r cs).events.length).filterMap Tree.line?) ∧
      (({} : Trace).receiveAll ss).render =
        String.join ((placed 0 (Signal.events ss)).map Trace.line) := by
  have hfeed := Builder.receiveAll_eq_feed ss {}
  refine ⟨hfeed, fun b t m => ⟨rfl, rfl⟩, fun b hb x t => by simp [Builder.step, hb],
    hfeed ▸ Builder.openRules_feed _, fun hfit => ?_, fun r cs us hes => ?_⟩
  · rw [hfeed]
    exact ⟨Builder.finish_feed_isSome_iff hfit, Builder.finish_feed_iff hfit⟩
  · refine ⟨by rw [hfeed, hes]; exact Builder.finish_feed_walk_terminals r cs us, ?_, ?_⟩
    · -- the bracket's events are placed first, and alike in the whole list
      rw [Tree.render_eq, hes, placed_events_append, List.take_left' (length_placed 0 _)]
    · rw [Trace.render_eq, Trace.events_receiveAll]
      rfl

end SyntaxCheck
