import SyntaxCheck.Grammar.Event

/-!
# Derivation trees

A derivation tree has a node for each rule recognised, whose children are the rules and tokens
it was made of, in order, and a leaf for each accepted token. It is rendered one line per node
in preorder, each indented two spaces deeper than its parent: a node by its rule name, a leaf by
its token display.

The depth counts the nodes and the leaf on the longest path from the root, the root included.
-/

namespace SyntaxCheck

/-- A derivation tree. -/
inductive Tree where
  | node (r : Rule) (children : List Tree)
  | leaf (t : Token)
  deriving Repr

namespace Tree

mutual

/-- The number of nodes on the longest path from the root to a leaf, the root included. -/
def depth : Tree → Nat
  | .leaf _ => 1
  | .node _ cs => 1 + depthAll cs

/-- The greatest depth among a list of trees, 0 for none. -/
def depthAll : List Tree → Nat
  | [] => 0
  | t :: ts => max t.depth (depthAll ts)

end

mutual

/-- The leaves of a tree, left to right. -/
def leaves : Tree → List Token
  | .leaf t => [t]
  | .node _ cs => leavesAll cs

/-- The leaves of a list of trees, left to right. -/
def leavesAll : List Tree → List Token
  | [] => []
  | t :: ts => t.leaves ++ leavesAll ts

end

mutual

/-- The number of nodes of rule `r`, the root included. -/
def count (r : Rule) : Tree → Nat
  | .leaf _ => 0
  | .node r' cs => (if r' = r then 1 else 0) + countAll r cs

/-- The number of nodes of rule `r` in a list of trees. -/
def countAll (r : Rule) : List Tree → Nat
  | [] => 0
  | t :: ts => t.count r + countAll r ts

end

/-- `n` levels of indentation. -/
def indent (n : Nat) : String := String.ofList (List.replicate (2 * n) ' ')

mutual

/-- Append the lines of a tree whose root sits at depth `d` to `out`. -/
def renderInto (d : Nat) (out : String) : Tree → String
  | .leaf t => out ++ indent d ++ t.display ++ "\n"
  | .node r cs => renderAllInto (d + 1) (out ++ indent d ++ r.name ++ "\n") cs

/-- Append the lines of a list of trees whose roots sit at depth `d` to `out`. -/
def renderAllInto (d : Nat) (out : String) : List Tree → String
  | [] => out
  | t :: ts => renderAllInto d (t.renderInto d out) ts

end

/-- One line per node, in preorder. -/
def render (t : Tree) : String := t.renderInto 0 ""

end Tree

end SyntaxCheck
