/-! JavaScript expressions, as far as unfolding looks into them. Everything else is carried along
as `raw` source text with the precedence it has in the place it came from. -/

namespace CondUnfold

/-- Binding strength; a larger number binds tighter. -/
abbrev Precedence := Int

namespace Precedence

def sequence : Precedence := 1
def assignment : Precedence := 2
def conditional : Precedence := 3
def disjunction : Precedence := 4
def relational : Precedence := 10
def exponent : Precedence := 14
def unary : Precedence := 15
def postfixed : Precedence := 16
def call : Precedence := 17
def primary : Precedence := 18

/-- The precedence of a binary or logical operator. -/
def ofOperator? : String → Option Precedence
  | "??" | "||" => some 4
  | "&&" => some 5
  | "|" => some 6
  | "^" => some 7
  | "&" => some 8
  | "==" | "!=" | "===" | "!==" => some 9
  | "<" | ">" | "<=" | ">=" | "instanceof" | "in" => some 10
  | "<<" | ">>" | ">>>" => some 11
  | "+" | "-" => some 12
  | "*" | "/" | "%" => some 13
  | "**" => some 14
  | _ => none

/-- The precedence of an operator, relational for an operator that is not known. -/
def ofOperator (op : String) : Precedence := (ofOperator? op).getD relational

end Precedence

/-- An expression. -/
inductive Expr where
  /-- A number, string, regular expression, `true`, `false` or `null`, as written. -/
  | literal (text : String)
  /-- An identifier, `this`, `super` or `undefined`. -/
  | name (text : String)
  /-- Source text that is kept as it is; `kind` names the construct. -/
  | raw (text : String) (precedence : Precedence) (kind : String)
  | unary (op : String) (arg : Expr)
  | binary (left : Expr) (op : String) (right : Expr)
  /-- The short-circuit operators `&&`, `||` and `??`. -/
  | logical (left : Expr) (op : String) (right : Expr)
  | cond (test yes no : Expr)
  | call (callee : Expr) (args : List Expr) (optional : Bool)
  | member (target : Expr) (property : String) (optional : Bool)
  | index (target index : Expr) (optional : Bool)
  | sequence (items : List Expr)
deriving Repr, Inhabited

namespace Expr

/-- Is `op` one of the short-circuit operators? -/
def isLogicalOperator (op : String) : Bool := op == "&&" || op == "||" || op == "??"

/-- Is `op` an equality that a switch could test? -/
def isEqualityOperator (op : String) : Bool := op == "==" || op == "==="

/-- The binding strength of an expression as it is written. -/
def precedence : Expr → Precedence
  | .literal _ | .name _ => .primary
  | .raw _ p _ => p
  | .unary .. => .unary
  | .binary _ op _ | .logical _ op _ => .ofOperator op
  | .cond .. => .conditional
  | .call .. | .member .. | .index .. => .call
  | .sequence _ => .sequence

/-- The immediate parts, from left to right. -/
def children : Expr → List Expr
  | .literal _ | .name _ | .raw .. => []
  | .unary _ e => [e]
  | .binary l _ r | .logical l _ r => [l, r]
  | .cond t y n => [t, y, n]
  | .call f args _ => f :: args
  | .member e _ _ => [e]
  | .index e i _ => [e, i]
  | .sequence es => es

mutual

/-- The number of nodes. -/
def size : Expr → Nat
  | .literal _ | .name _ | .raw .. => 1
  | .unary _ e => e.size + 1
  | .binary l _ r | .logical l _ r => l.size + r.size + 1
  | .cond t y n => t.size + y.size + n.size + 1
  | .call f args _ => f.size + sizes args + 1
  | .member e _ _ => e.size + 1
  | .index e i _ => e.size + i.size + 1
  | .sequence es => sizes es + 1

/-- The number of nodes of a list of expressions. -/
def sizes : List Expr → Nat
  | [] => 0
  | e :: es => e.size + sizes es

end

theorem sizes_append (es fs : List Expr) : sizes (es ++ fs) = sizes es + sizes fs := by
  induction es with
  | nil => simp [sizes]
  | cons e es ih => simp [sizes, ih, Nat.add_assoc]

theorem size_eq_sizes_children (e : Expr) : e.size = sizes e.children + 1 := by
  cases e <;> simp [size, sizes, children, Nat.add_assoc]

/-- The nodes of pending expressions, each before its parts: the first pending one is visited and
its parts are put in front of the rest. -/
def walkPending : List Expr → List Expr
  | [] => []
  | e :: pending => e :: walkPending (e.children ++ pending)
termination_by pending => sizes pending
decreasing_by simp [sizes_append, sizes, size_eq_sizes_children e]

/-- An expression and all its parts at any depth, each node before its parts. -/
def walk (e : Expr) : List Expr := walkPending [e]

/-- The negation `!e`. -/
def negate (e : Expr) : Expr := .unary "!" e

/-- The test `e == null`, which holds exactly when `e ?? x` takes `x`. -/
def looseNullCheck (e : Expr) : Expr := .binary e "==" (.literal "null")

/-- Is the expression a conditional `a ? b : c`? -/
def isConditional : Expr → Bool
  | .cond .. => true
  | _ => false

/-- Is the expression a conditional with a further conditional somewhere in an arm? -/
def isNestedConditional : Expr → Bool
  | .cond _ yes no => yes.walk.any isConditional || no.walk.any isConditional
  | _ => false

/-- The name of the form of an expression. -/
def noun : Expr → String
  | .literal _ => "LiteralExpr"
  | .name _ => "NameExpr"
  | .raw .. => "RawExpr"
  | .unary .. => "UnaryExpr"
  | .binary .. => "BinaryExpr"
  | .logical .. => "LogicalExpr"
  | .cond .. => "ConditionalExpr"
  | .call .. => "CallExpr"
  | .member .. => "MemberExpr"
  | .index .. => "IndexExpr"
  | .sequence _ => "SequenceExpr"

end Expr
end CondUnfold
