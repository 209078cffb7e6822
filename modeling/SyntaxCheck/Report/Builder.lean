import SyntaxCheck.Report.Tree

/-!
# Building derivation trees from events

A builder turns events into a tree. It keeps the rules entered and not yet left, innermost
first, each with the children gathered so far. Entering a rule opens a frame; leaving one closes
the innermost frame into a node, which becomes a child of the frame around it, or the finished
tree when no frame is left (replacing any earlier one). An accepted token becomes a leaf of the
innermost frame; with no frame open it is dropped, as the end of file after the outermost rule
is. A syntax error leaves the builder as it is.

The builder only answers with a tree when no frame is open, so a recognition that stopped early
gives no tree, unless it stopped after its outermost rule was left.

A build with debug assertions also checks, when it closes a frame, that the rule left is the rule
of that frame, and stops the program when it is not (`Builder.checkedStep`); other builds close the
innermost frame whatever rule is named.
-/

namespace SyntaxCheck

/-- A rule entered and not yet left, with its children so far, the last one first. -/
structure Frame where
  rule : Rule
  recent : List Tree
  deriving Repr

/-- The open frames, innermost first, and the last tree finished. -/
structure Builder where
  frames : List Frame := []
  root : Option Tree := none
  deriving Repr

namespace Builder

/-- Add a finished subtree where it belongs: under the innermost frame, or as the root. -/
def attach (b : Builder) (t : Tree) : Builder :=
  match b.frames with
  | [] => { b with root := some t }
  | f :: fs => { b with frames := { f with recent := t :: f.recent } :: fs }

/-- Take one event. -/
def step (b : Builder) : Event → Builder
  | .enter r => { b with frames := ⟨r, []⟩ :: b.frames }
  | .exit _ =>
    match b.frames with
    | [] => b
    | f :: fs => attach { b with frames := fs } (.node f.rule f.recent.reverse)
  | .terminal t =>
    match b.frames with
    | [] => b
    | _ :: _ => attach b (.leaf t)

/-- Take a list of events, in order. -/
def feed (b : Builder) (es : List Event) : Builder := es.foldl step b

@[simp] theorem feed_nil (b : Builder) : b.feed [] = b := rfl

@[simp] theorem feed_cons (b : Builder) (e : Event) (es : List Event) :
    b.feed (e :: es) = (b.step e).feed es := rfl

theorem feed_append (b : Builder) (es es' : List Event) :
    b.feed (es ++ es') = (b.feed es).feed es' := by
  simp [feed, List.foldl_append]

/-- The rules open, outermost first. -/
def openRules (b : Builder) : List Rule := (b.frames.map Frame.rule).reverse

/-- The innermost open rule, if any. -/
def innermost? (b : Builder) : Option Rule := (b.frames.head?).map Frame.rule

/-- Take one event as a build with debug assertions does: leaving a rule while another is the
innermost one open fails the check, which names the rule open and the rule left. -/
def checkedStep (b : Builder) (e : Event) : Except (Rule × Rule) Builder :=
  match e, b.innermost? with
  | .exit r, some inner => if inner = r then .ok (b.step e) else .error (inner, r)
  | _, _ => .ok (b.step e)

/-- Take a list of events as a build with debug assertions does, up to the first failed check. -/
def checkedFeed (b : Builder) : List Event → Except (Rule × Rule) Builder
  | [] => .ok b
  | e :: es => (b.checkedStep e).bind fun b' => b'.checkedFeed es

/-- The finished tree, once no rule is open. -/
def finish (b : Builder) : Option Tree :=
  match b.frames with
  | [] => b.root
  | _ :: _ => none

end Builder

end SyntaxCheck
