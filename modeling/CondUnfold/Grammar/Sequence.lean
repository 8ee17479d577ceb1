import CondUnfold.Grammar.Goal

/-! Expressions in a row: sequences, arguments, and what stands in parentheses. -/

namespace CondUnfold.Grammar

open Parse

/-- Expressions with commas between them; more than one make a sequence. -/
def expressions (self : Self) (semi : Semi) : Parse Node := do
  let first ← self (.expression 0 semi)
  let rest ← many do
    if (← nextSymbol semi) == "," then
      symbol ","
      return some (← self (.expression 0 semi))
    return none
  if rest.isEmpty then return first
  node "sequence_expression" first.start (first :: rest)

/-- Places with commas between them up to the closing symbol; a place may be empty. -/
def slots (item : Parse (Option Node)) (close : String) : Parse (List (Option Node)) := do
  let first ← item
  let rest ← many do
    if ← accept "," then return some (← item)
    return none
  symbol close
  return first :: rest

/-- Read `...` and an expression. -/
def spread (self : Self) : Parse Node := do
  toToken
  let start ← pos
  symbol "..."
  let e ← self (.expression 0 .never)
  node "spread_element" start [e]

/-- An element of an array or a list of arguments, if the place is not empty. -/
def element (self : Self) (close : String) : Parse (Option Node) := do
  let s ← nextSymbol .never
  if s == "," || s == close then return none
  if s == "..." then return some (← spread self)
  return some (← self (.expression 0 .never))

/-- The arguments of a call. -/
def arguments (self : Self) : Parse Node := do
  toToken
  let start ← pos
  symbol "("
  let items ← slots (element self ")") ")"
  node "arguments" start (items.filterMap id)

/-- An expression in parentheses. -/
def parenthesized (self : Self) : Parse Node := do
  toToken
  let start ← pos
  symbol "("
  let e ← expressions self .never
  symbol ")"
  node "parenthesized_expression" start [e]

end CondUnfold.Grammar
