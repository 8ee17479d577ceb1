import CondUnfold.Grammar.Access

/-! Expressions: operands with the operators behind them. -/

namespace CondUnfold.Grammar

open Parse

/-- Is the node something that may be assigned to as it stands? -/
def isTarget (n : Node) : Bool :=
  Node.isTargetKind n.kind || n.kind == "parenthesized_expression"

/-- The rest of an assignment with `=`. -/
def assignment (self : Self) (semi : Semi) (left : Node) : Parse Node := do
  symbol "="
  let right ← self (.expression 0 semi)
  node "assignment_expression" left.start [left.withRole "left", right.withRole "right"]

/-- The rest of an assignment with another operator. -/
def compoundAssignment (self : Self) (semi : Semi) (left : Node) (op : String) : Parse Node := do
  toToken
  let o ← operator op
  let right ← self (.expression 0 semi)
  node "augmented_assignment_expression" left.start
    [left.withRole "left", o, right.withRole "right"]

/-- The rest of a conditional. -/
def conditional (self : Self) (semi : Semi) (left : Node) : Parse Node := do
  toToken
  advance 1
  let yes ← self (.expression 0 .never)
  symbol ":"
  let no ← self (.expression conditionalBinding semi)
  node "ternary_expression" left.start
    [left.withRole "condition", yes.withRole "consequence", no.withRole "alternative"]

/-- The rest of a binary expression with an operator of the given binding. All operators but `**`
group to the left. -/
def binary (self : Self) (semi : Semi) (left : Node) (op : String) (binding : Nat) :
    Parse Node := do
  toToken
  let o ← operator op
  let right ← self (.expression (if op == "**" then binding else binding + 1) semi)
  node "binary_expression" left.start [left.withRole "left", o, right.withRole "right"]

/-- What the operator behind an operand makes of it, if there is an operator that may follow. -/
def continuation (self : Self) (least : Nat) (semi : Semi) (left : Node) :
    Parse (Option Node) := do
  match ← gap semi with
  | .stop _ => return none
  | .token c plain =>
    let n := Lexeme.identifier c.rest
    let op := if n == 0 then Lexeme.symbol c.rest else String.ofList (c.rest.take n)
    if beginsOptionalChain c.rest then
      if left.kind == "new_expression" then
        if ← optionalCallAhead then return some (← optionalCreation self semi left)
      return some (← optionalRest self left)
    if op == "?" || op == "?." then
      if plain && least ≤ conditionalBinding then return some (← conditional self semi left)
      return none
    match op with
    | "." =>
      symbol "."
      return some (← memberRest left [])
    | "[" => return some (← subscript self left [])
    | "(" => return some (← callRest self left [])
    | "`" =>
      if isLooseKind left.kind && left.kind != "new_expression" then fail
      return some (← taggedTemplate self left)
    | "=>" =>
      if left.kind != "identifier" then return none
      return some (← arrow self semi left.start (left.withRole "parameter"))
    | "=" =>
      if isTarget left then return some (← assignment self semi left)
      match left.toPattern with
      | some p => return some (← assignment self semi p)
      | none => return none
    | "++" | "--" =>
      if updateBinding < least then return none
      toToken
      let o ← operator op
      return some (← node "update_expression" left.start [left.withRole "argument", o])
    | _ =>
      match bindingOf? op with
      | some binding =>
        if binding < least then return none
        return some (← binary self semi left op binding)
      | none =>
        if isCompoundAssignment op && isTarget left then
          return some (← compoundAssignment self semi left op)
        return none

/-- Apply operators to an operand as long as there are any. -/
def continued (self : Self) (least : Nat) (semi : Semi) : (fuel : Nat) → Node → Parse Node
  | 0, _ => fail
  | fuel + 1, left => do
    match ← continuation self least semi left with
    | some e => continued self least semi fuel e
    | none => return left

/-- An expression in which operators bind at least as tight as `least`. -/
def expression (self : Self) (least : Nat) (semi : Semi) : Parse Node := do
  let left ← operand self least semi
  continued self least semi ((← get).bound + 1) left

end CondUnfold.Grammar
