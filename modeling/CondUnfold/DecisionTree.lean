import CondUnfold.Expr

/-! Decision trees of conditional and short-circuit evaluation. -/

namespace CondUnfold

/-- A side of a guard. -/
inductive Side where
  /-- The guard holds. -/
  | yes
  /-- The guard fails. -/
  | no
deriving DecidableEq, Repr

/-- What is evaluated depending on which guards hold. The place of a guard or an action may be
empty. -/
inductive DecisionTree where
  /-- An action. -/
  | leaf (action : Option Expr)
  /-- A guard with something to do only if it holds. -/
  | onYes (guard : Option Expr) (yes : DecisionTree)
  /-- A guard with something to do only if it fails. -/
  | onNo (guard : Option Expr) (no : DecisionTree)
  /-- A guard with something to do in either case. -/
  | fork (guard : Option Expr) (yes no : DecisionTree)
deriving Repr

namespace DecisionTree

/-- The tree with the given condition and branches. -/
def make (condition : Option Expr) : Option DecisionTree → Option DecisionTree → DecisionTree
  | none, none => .leaf condition
  | some y, none => .onYes condition y
  | none, some n => .onNo condition n
  | some y, some n => .fork condition y n

/-- The action of a leaf, or the guard of any other tree. -/
def condition : DecisionTree → Option Expr
  | .leaf c | .onYes c _ | .onNo c _ | .fork c _ _ => c

/-- The branch for a guard that holds. -/
def yes? : DecisionTree → Option DecisionTree
  | .onYes _ y | .fork _ y _ => some y
  | .leaf _ | .onNo .. => none

/-- The branch for a guard that fails. -/
def no? : DecisionTree → Option DecisionTree
  | .onNo _ n | .fork _ _ n => some n
  | .leaf _ | .onYes .. => none

/-- Is the tree a single action? -/
def isLeaf : DecisionTree → Bool
  | .leaf _ => true
  | _ => false

/-- The number of guards on the longest way to a leaf. -/
def depth : DecisionTree → Nat
  | .leaf _ => 0
  | .onYes _ t | .onNo _ t => t.depth + 1
  | .fork _ y n => max y.depth n.depth + 1

/-- All nodes, each before its branches. -/
def nodes : DecisionTree → List DecisionTree
  | .leaf a => [.leaf a]
  | .onYes c y => .onYes c y :: y.nodes
  | .onNo c n => .onNo c n :: n.nodes
  | .fork c y n => .fork c y n :: (y.nodes ++ n.nodes)

/-- The leaves, the one behind a guard that holds first. -/
def leaves : DecisionTree → List DecisionTree
  | .leaf a => [.leaf a]
  | .onYes _ t | .onNo _ t => t.leaves
  | .fork _ y n => y.leaves ++ n.leaves

/-- The subtree behind the given sides. -/
def follow? : DecisionTree → List Side → Option DecisionTree
  | t, [] => some t
  | t, .yes :: path => t.yes?.bind (·.follow? path)
  | t, .no :: path => t.no?.bind (·.follow? path)

/-- The decision tree of an expression that is evaluated for its effect. Conditionals branch on
their test. With `descend`, the short-circuit operators branch on their left operand, where
`a ?? b` has the guard `a == null`; otherwise they are actions like any other expression. -/
def ofExpr (descend : Bool) : Expr → DecisionTree
  | .cond test yes no => .fork (some test) (ofExpr descend yes) (ofExpr descend no)
  | .logical l op r =>
    if descend then
      if op == "&&" then .onYes (some l) (ofExpr descend r)
      else if op == "||" then .onNo (some l) (ofExpr descend r)
      else if op == "??" then .onYes (some l.looseNullCheck) (ofExpr descend r)
      else .leaf (some (.logical l op r))
    else .leaf (some (.logical l op r))
  | e => .leaf (some e)

end DecisionTree
end CondUnfold
