import CondUnfold.Syntax.Pattern
import CondUnfold.Grammar.Sequence

/-! Blocks, functions and arrow functions. -/

namespace CondUnfold.Grammar

open Parse

/-- The statements in braces. -/
def statements (self : Self) : Parse (List Node) := do
  symbol "\x7b"
  let body ← many do
    if ← accept "\x7d" then return none
    return some (← self .statement)
  return body

/-- A block. -/
def block (self : Self) : Parse Node := do
  toToken
  let start ← pos
  node "statement_block" start (← statements self)

/-- A block that ends an expression. Where the statement may end behind it, comments before that
end belong to the block. -/
def closingBlock (self : Self) : Parse Node := do
  toToken
  let start ← pos
  let body ← statements self
  match ← gap .afterExpr with
  | .stop c => set c
  | .token .. => pure ()
  node "statement_block" start body

/-- Does the text in braces ahead begin with a name and a colon? -/
def labelAhead : Parse Bool := ahead do
  symbol "\x7b"
  toToken
  let n := Lexeme.identifier (← get).rest
  if n == 0 then return false
  advance n
  return (← nextSymbol .never) == ":"

/-- Does the text in braces ahead begin as only an object may: with `...`, or with a string or a
number before a colon? -/
def objectAhead : Parse Bool := ahead do
  symbol "\x7b"
  toToken
  let cs := (← get).rest
  if Lexeme.symbol cs == "..." then return true
  let n := max (Lexeme.string cs) (Lexeme.number cs)
  if n == 0 then return false
  advance n
  return (← nextSymbol .never) == ":"

/-- The body of an arrow function. What could be an object or a block with a label is an object. -/
def arrowBody (self : Self) (semi : Semi) : Parse Node := do
  if (← nextSymbol .never) != "\x7b" then self (.expression 0 semi)
  else if ← labelAhead then either (self (.expression 0 semi)) (closingBlock self)
  else if ← objectAhead then self (.expression 0 semi)
  else closingBlock self

/-- The rest of an arrow function from its arrow on. -/
def arrow (self : Self) (semi : Semi) (start : Nat) (params : Node) : Parse Node := do
  symbol "=>"
  let body ← arrowBody self semi
  node "arrow_function" start [params, body.withRole "body"]

/-- The parameter list from items that were read between parentheses. -/
def parameterList (start stop : Nat) (items : List (Option Node)) : Parse Node :=
  match Node.parameters items with
  | some children => return { kind := "formal_parameters", start, stop, role := some "parameters",
                              children }
  | none => fail

/-- The parameters of a function. -/
def formalParameters (self : Self) : Parse Node := do
  toToken
  let start ← pos
  symbol "("
  let items ← slots (element self ")") ")"
  parameterList start (← pos) items

/-- A function from the word `function` on; a declaration has to have a name. -/
def function (self : Self) (start : Nat) (declaration : Bool) : Parse Node := do
  keyword "function"
  let generator ← accept "*"
  let w ← nextWord
  let name ←
    if declaration || (!w.isEmpty && !Lexeme.isReserved w) then do
      pure [(← identifier).withRole "name"]
    else pure []
  let params ← formalParameters self
  let body ← if declaration then block self else closingBlock self
  let kind :=
    match declaration, generator with
    | true, true => "generator_function_declaration"
    | true, false => "function_declaration"
    | false, true => "generator_function"
    | false, false => "function_expression"
  node kind start (name ++ [params, body.withRole "body"])

end CondUnfold.Grammar
