import CondUnfold.Edit
import CondUnfold.Syntax.ToExpr

/-! The statements of a source that may be unfolded: a conditional or a short-circuit expression
that stands as a statement, and a conditional that is returned. -/

namespace CondUnfold

/-- The form of a statement that may be unfolded. -/
inductive Trigger.Kind where
  | conditional
  | logical
  | ret
deriving DecidableEq, Repr

/-- The name of a form. -/
def Trigger.Kind.name : Trigger.Kind → String
  | .conditional => "conditional"
  | .logical => "logical"
  | .ret => "return"

/-- A statement that may be unfolded. -/
structure Trigger where
  kind : Trigger.Kind
  expr : Expr
  site : Site
deriving Repr

namespace Node

/-- Is the node a binary expression with a short-circuit operator? -/
def isLogical (n : Node) : Bool :=
  n.kind == "binary_expression" && (n.child? "operator").any (Expr.isLogicalOperator ·.kind)

/-- The form of the statement at a node, with the node of its expression. -/
def trigger? (n : Node) : Option (Trigger.Kind × Node) :=
  match n.operands with
  | [] => none
  | first :: _ =>
    let e := first.unwrap
    if n.kind == "expression_statement" then
      if e.kind == "ternary_expression" then some (.conditional, e)
      else if e.isLogical then some (.logical, e)
      else none
    else if n.kind == "return_statement" then
      if e.kind == "ternary_expression" then some (.ret, e) else none
    else none

/-- Kinds of nodes whose statements form a list. -/
def holdsList (kind : String) : Bool :=
  kind == "program" || kind == "statement_block" || kind == "switch_case" ||
    kind == "switch_default" || kind == "class_static_block"

/-- The site of a statement. -/
def Visit.site (v : Visit) (source : Bytes) : Site where
  start := v.node.start
  stop := v.node.stop
  indent := .ofString (lineIndent source v.node.start)
  needsBlock := v.parent.any fun kind => !holdsList kind
  line := (pointOf source v.node.start).1 + 1

/-- The statement at a visited node, if it may be unfolded. -/
def Visit.trigger? (v : Visit) (source : Bytes) : Except Error (Option Trigger) :=
  match v.node.trigger? with
  | none => return none
  | some (kind, e) => return some ⟨kind, ← e.toExpr source, v.site source⟩

/-- All statements of a tree that may be unfolded, in the order of the source. -/
def triggers (root : Node) (source : Bytes) : Except Error (List Trigger) := do
  return (← root.visits.mapM (·.trigger? source)).filterMap id

end Node
end CondUnfold
