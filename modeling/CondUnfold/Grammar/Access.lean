import CondUnfold.Grammar.Operand

/-! Accesses to members and elements, calls, and what stands behind `new`. -/

namespace CondUnfold.Grammar

open Parse

/-- The property of a member access behind the dot. -/
def property : Parse Node := do
  toToken
  let cs := (← get).rest
  if cs.head? == some '#' then leaf "private_property_identifier" (Lexeme.privateName cs)
  else leaf "property_identifier" (Lexeme.identifier cs)

/-- The rest of a member access behind the dot. -/
def memberRest (left : Node) (chain : List Node) : Parse Node := do
  let p ← property
  node "member_expression" left.start
    (left.withRole "object" :: chain ++ [p.withRole "property"])

/-- The rest of an access by index, from its bracket on. -/
def subscript (self : Self) (left : Node) (chain : List Node) : Parse Node := do
  symbol "["
  let i ← expressions self .never
  symbol "]"
  node "subscript_expression" left.start
    (left.withRole "object" :: chain ++ [i.withRole "index"])

/-- The rest of a call, from its parenthesis on. -/
def callRest (self : Self) (left : Node) (chain : List Node) : Parse Node := do
  let args ← arguments self
  node "call_expression" left.start
    (left.withRole "function" :: chain ++ [args.withRole "arguments"])

/-- The rest of a tagged template, from its quote on. -/
def taggedTemplate (self : Self) (left : Node) : Parse Node := do
  let t ← template self
  node "call_expression" left.start [left.withRole "function", t.withRole "arguments"]

/-- Kinds that a template or an optional call may not follow. -/
def isLooseKind (kind : String) : Bool :=
  kind == "update_expression" || kind == "unary_expression" || kind == "await_expression" ||
    kind == "arrow_function" || kind == "new_expression" || kind == "binary_expression" ||
    kind == "ternary_expression" || kind == "yield_expression" || kind == "import" ||
    kind == "assignment_expression" || kind == "augmented_assignment_expression"

/-- The rest of an access behind `?.`. -/
def optionalRest (self : Self) (left : Node) : Parse Node := do
  toToken
  let link := [(← leaf "optional_chain" 2).withRole "optional_chain"]
  match ← nextSymbol .never with
  | "(" => if isLooseKind left.kind then fail else callRest self left link
  | "[" => subscript self left link
  | _ => memberRest left link

/-- Does the text begin with `?.`, and not with a question mark before a number? -/
def beginsOptionalChain : List Char → Bool
  | '?' :: '.' :: rest => !(rest.head?.any Char.isDigit)
  | _ => false

/-- What an access makes of the operand behind `new`; calls are left to `new`. -/
def constructorContinuation (self : Self) (left : Node) : Parse (Option Node) := do
  match ← gap .never with
  | .stop _ => return none
  | .token c _ =>
    if beginsOptionalChain c.rest then return some (← optionalRest self left)
    match Lexeme.symbol c.rest with
    | "." =>
      symbol "."
      return some (← memberRest left [])
    | "[" => return some (← subscript self left [])
    | "`" => return some (← taggedTemplate self left)
    | _ => return none

/-- Apply accesses as long as there are any. -/
def constructorContinued (self : Self) : (fuel : Nat) → Node → Parse Node
  | 0, _ => fail
  | fuel + 1, left => do
    match ← constructorContinuation self left with
    | some e => constructorContinued self fuel e
    | none => return left

/-- An optional call behind `new` and its arguments: the whole is what stands behind `new`. -/
def optionalCreation (self : Self) (semi : Semi) (left : Node) : Parse Node := do
  toToken
  let link := [(← leaf "optional_chain" 2).withRole "optional_chain"]
  let callee ← callRest self left link
  let callee ← constructorContinued self ((← get).bound + 1) callee
  let args ← creationArguments self semi
  node "new_expression" left.start (callee.withRole "constructor" :: args)

/-- Does an optional call follow? -/
def optionalCallAhead : Parse Bool := ahead do
  symbol "?."
  return (← nextSymbol .never) == "("

/-- Kinds that may not stand behind `new` without parentheses. -/
def isNoConstructor (kind : String) : Bool := isLooseKind kind && kind != "new_expression"

/-- What may stand behind `new`. -/
def constructorOperand (self : Self) : Parse Node := do
  let left ← operand self callBinding .never
  if isNoConstructor left.kind then fail
  if left.kind == "new_expression" then return left
  constructorContinued self ((← get).bound + 1) left

end CondUnfold.Grammar
