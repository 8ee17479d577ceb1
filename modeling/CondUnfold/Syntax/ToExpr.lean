import CondUnfold.Expr
import CondUnfold.Syntax.Node

/-! The expression of a syntax node. Constructs that expressions do not model are kept as raw
text; parentheses and comments between modelled nodes are dropped. -/

namespace CondUnfold.Node

/-- The precedence of raw text, by the kind of its construct. -/
def rawPrecedence : String → Precedence
  | "array" | "object" | "template_string" | "function_expression" | "function"
  | "generator_function" | "class" | "meta_property" | "private_property_identifier"
  | "jsx_element" | "jsx_self_closing_element" => .primary
  | "new_expression" | "await_expression" | "update_expression" => .unary
  | "call_expression" => .call
  | _ => .assignment

/-- Kinds that are names. -/
def isNameKind (kind : String) : Bool :=
  kind == "identifier" || kind == "this" || kind == "super" || kind == "undefined"

/-- Kinds that are literals. -/
def isLiteralKind (kind : String) : Bool :=
  kind == "number" || kind == "string" || kind == "true" || kind == "false" || kind == "null" ||
    kind == "regex"

/-- What a node gives: its own expression, and the expressions of its operands. -/
structure Reading where
  expr : Except Error Expr
  items : Except Error (List Expr)

/-- A child with what it gives. -/
structure Part where
  node : Node
  reading : Reading

/-- The first part with the given role. -/
def part (parts : List Part) (role : String) : Except Error Part :=
  match parts.find? (·.node.role == some role) with
  | some p => .ok p
  | none => .error .missingChild

/-- The expression of the first part with the given role. -/
def partExpr (parts : List Part) (role : String) : Except Error Expr := do
  (← part parts role).reading.expr

/-- The parts that are operands. -/
def operandParts (parts : List Part) : List Part :=
  parts.filter fun p => p.node.named && p.node.kind != "comment"

/-- The items of a sequence, with those of a sequence inside it in its place. -/
def flatItems : List Part → Except Error (List Expr)
  | [] => return []
  | p :: ps => do
    let e ← p.reading.expr
    let rest ← flatItems ps
    match p.node.kind == "sequence_expression", e with
    | true, .sequence es => return es ++ rest
    | _, _ => return e :: rest

/-- Does an optional chain `?.` stand among the children? -/
def hasOptionalChain (n : Node) : Bool := n.children.any (·.kind == "optional_chain")

/-- The node as raw text. -/
def raw (source : Bytes) (n : Node) : Except Error Expr := do
  return .raw (← n.text source) (rawPrecedence n.kind) n.kind

/-- The expression of a node from its parts. -/
def assemble (source : Bytes) (n : Node) (parts : List Part) : Except Error Expr :=
  match n.kind with
  | "parenthesized_expression" =>
    match operandParts parts with
    | [p] => p.reading.expr
    | ps => return .sequence (← ps.mapM (·.reading.expr))
  | "ternary_expression" => do
    let test ← partExpr parts "condition"
    let yes ← partExpr parts "consequence"
    let no ← partExpr parts "alternative"
    return .cond test yes no
  | "binary_expression" => do
    let op := (← part parts "operator").node.kind
    let left ← partExpr parts "left"
    let right ← partExpr parts "right"
    return if Expr.isLogicalOperator op then .logical left op right else .binary left op right
  | "unary_expression" => do
    let op := (← part parts "operator").node.kind
    return .unary op (← partExpr parts "argument")
  | "call_expression" =>
    match part parts "arguments" with
    | .error _ => raw source n
    | .ok args =>
      if args.node.kind == "arguments" then do
        let callee ← partExpr parts "function"
        return .call callee (← args.reading.items) n.hasOptionalChain
      else raw source n
  | "member_expression" => do
    let target ← partExpr parts "object"
    let property ← (← part parts "property").node.text source
    return .member target property n.hasOptionalChain
  | "subscript_expression" => do
    let target ← partExpr parts "object"
    let index ← partExpr parts "index"
    return .index target index n.hasOptionalChain
  | "sequence_expression" => return .sequence (← flatItems (operandParts parts))
  | kind =>
    if isNameKind kind then return .name (← n.text source)
    else if isLiteralKind kind then return .literal (← n.text source)
    else raw source n

mutual

/-- What a node gives. -/
def read (source : Bytes) : Node → Reading
  | ⟨kind, start, stop, role, named, missing, mark, children⟩ =>
    let parts := readAll source children
    { expr := assemble source ⟨kind, start, stop, role, named, missing, mark, children⟩ parts
      items := (operandParts parts).mapM (·.reading.expr) }

/-- What the children of a node give. -/
def readAll (source : Bytes) : List Node → List Part
  | [] => []
  | n :: ns => ⟨n, read source n⟩ :: readAll source ns

end

/-- The expression of a node. -/
def toExpr (source : Bytes) (n : Node) : Except Error Expr := (read source n).expr

end CondUnfold.Node
