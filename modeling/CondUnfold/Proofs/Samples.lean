import CondUnfold.Expr
import CondUnfold.Syntax.Node

/-! Small expressions, texts and syntax nodes from which the examples of other modules are built. -/

namespace CondUnfold.Sample

/-! ## Expressions -/

def kind : Expr := .name "kind"

/-- `kind === value` -/
def isKind (value : String) : Expr := .binary kind "===" (.literal value)

/-- `f()` -/
def act (f : String) : Expr := .call (.name f) [] false

/-! ## Texts -/

/-- `{ text }` -/
def braced (text : String) : String := "\x7b " ++ text ++ " \x7d"

/-! ## Nodes -/

/-- A construct of its own. -/
def node (kind : String) (start stop : Nat) (children : List Node := []) : Node :=
  { kind, start, stop, children }

/-- A mere token. -/
def token (kind : String) (start stop : Nat) : Node := { kind, start, stop, named := false }

/-- A name of one letter. -/
def word (start : Nat) : Node := node "identifier" start (start + 1)

/-- The node in a role. -/
def part (role : String) (n : Node) : Node := { n with role := some role }

/-- The node of a call, with the parentheses and commas among its arguments. -/
def call (callee : Node) (stop : Nat) (arguments : List Node) : Node :=
  node "call_expression" callee.start stop
    [part "function" callee, part "arguments" (node "arguments" callee.stop stop arguments)]

end CondUnfold.Sample
