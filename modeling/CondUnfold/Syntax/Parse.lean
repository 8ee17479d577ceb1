import CondUnfold.Grammar.Statement
import CondUnfold.Syntax.ToExpr

/-! Syntax trees of source text. -/

namespace CondUnfold

namespace Grammar

/-- One construct, given the reader of smaller ones. -/
def step (self : Self) : Goal → Parse Node
  | .statement => statement self
  | .expression least semi => expression self least semi
  | .constructor => constructorOperand self

/-- The grammar; `depth` bounds how deep constructs may nest. -/
def read : (depth : Nat) → Self
  | 0 => fun _ => Parse.fail
  | depth + 1 => step (read depth)

/-- The statements of a text, or where it fails to be a program. Each level of nesting but the
innermost takes a character, and a statement may be an expression. -/
def readProgram (text : String) : Except Nat (List Node) :=
  let cs := text.toList
  match program (read (2 * cs.length + 4)) (.ofList cs) with
  | .error i => .error i
  | .ok (statements, _) => if Node.anyStrayDefault statements then .error 0 else .ok statements

end Grammar

/-- The tree of a text that is no program: it holds one defect. -/
def defectiveTree (position size : Nat) : Node where
  kind := "program"
  start := 0
  stop := size
  children := [{ kind := "ERROR", start := position, stop := size }]

/-- The syntax tree of a source. A source that is no program has a tree with a defect. -/
def parseSource (source : Bytes) : Node :=
  match Utf8.decode? source with
  | none => defectiveTree 0 source.length
  | some text =>
    match Grammar.readProgram text with
    | .error i => defectiveTree i source.length
    | .ok statements =>
      { kind := "program", start := 0, stop := source.length, children := statements }

/-- The expression that a text is. -/
def parseExpression (text : String) : Except Error Expr := do
  let source := Utf8.encode ("(" ++ text ++ ");")
  let root := parseSource source
  root.check source
  match root.operands with
  | [n] =>
    match n.kind, n.operands with
    | "expression_statement", e :: _ => e.toExpr source
    | _, _ => throw (.malformed .notOneExpression 1 1)
  | _ => throw (.malformed .notOneExpression 1 1)

end CondUnfold
