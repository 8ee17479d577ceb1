import CondUnfold.Grammar.Object

/-! Declarations of variables, functions and classes. -/

namespace CondUnfold.Grammar

open Parse

/-- Something to bind: a name or a pattern. -/
def bindingTarget (self : Self) : Parse Node := do
  let read ←
    match ← nextSymbol .never with
    | "[" => array self
    | "\x7b" => object self
    | _ => identifier
  match read.toPattern with
  | some p => return p
  | none => fail

/-- A declared variable with or without a value. The second part tells how the statement may end
behind it. -/
def declarator (self : Self) : Parse (Node × Semi) := do
  let target ← bindingTarget self
  let name := target.withRole "name"
  if (← nextSymbol .afterWord) == "=" then
    symbol "="
    let value ← self (.expression 0 .afterExpr)
    return (← node "variable_declarator" target.start [name, value.withRole "value"], .afterExpr)
  return (← node "variable_declarator" target.start [name], .afterWord)

/-- Further variables behind commas; `semi` tells how the statement may end before them. -/
def moreDeclarators (self : Self) (semi : Semi) : (fuel : Nat) → Parse (List (Node × Semi))
  | 0 => fail
  | fuel + 1 => do
    if (← nextSymbol semi) != "," then return []
    symbol ","
    let d ← declarator self
    let ds ← moreDeclarators self d.2 fuel
    return d :: ds

/-- A declaration of variables from its first word on. -/
def variableDeclaration (self : Self) (w : String) : Parse Node := do
  toToken
  let start ← pos
  keyword w
  let first ← declarator self
  let rest ← moreDeclarators self first.2 ((← get).bound + 1)
  let all := first :: rest
  semicolon ((all.getLast?.map (·.2)).getD .afterWord)
  node (if w == "var" then "variable_declaration" else "lexical_declaration") start
    (all.map (·.1))

/-- Does the word `let` come next, and does it begin a declaration? -/
def letAhead : Parse Bool := ahead do
  toToken
  if (← wordHere) != "let" then return false
  advance 3
  match ← gap .afterExpr with
  | .stop _ => return false
  | .token c _ =>
    set c
    let w ← wordHere
    let s ← symbolHere
    return s == "[" || s == "\x7b" || (!w.isEmpty && !Lexeme.isReserved w)

/-- Does a name stand behind the words, of which the last may have a star behind it? -/
def namedAhead (words : List String) : Parse Bool := ahead do
  words.forM keyword
  let _ ← accept "*"
  let w ← nextWord
  return !w.isEmpty && !Lexeme.isReserved w

/-- Is the word ahead `async`, with `function` behind it on the same line? -/
def asyncFunctionAhead : Parse Bool := ahead do
  toToken
  if (← wordHere) != "async" then return false
  advance 5
  match ← gap .afterWord with
  | .stop _ => return false
  | .token c _ => return String.ofList (c.rest.take (Lexeme.identifier c.rest)) == "function"

/-- A declaration of a function. -/
def functionDeclaration (self : Self) (async : Bool) : Parse Node := do
  toToken
  let start ← pos
  if async then keyword "async"
  function self start true

/-- A declaration of a class, with its decorators. -/
def classDeclaration (self : Self) : Parse Node := do
  toToken
  let start ← pos
  let head ← decorators self
  classLike self start head true

/-- A declaration. -/
def declaration (self : Self) : Parse Node := do
  if ← asyncFunctionAhead then functionDeclaration self true
  else
    match ← nextWord with
    | "function" => functionDeclaration self false
    | "class" => classDeclaration self
    | "var" => variableDeclaration self "var"
    | "let" => variableDeclaration self "let"
    | "const" => variableDeclaration self "const"
    | _ => if (← nextSymbol .never) == "@" then classDeclaration self else fail

/-- Does a declaration with a name follow? -/
def declarationAhead : Parse Bool := do
  if ← asyncFunctionAhead then namedAhead ["async", "function"]
  else
    match ← nextWord with
    | "function" => namedAhead ["function"]
    | "class" => namedAhead ["class"]
    | "var" | "const" => return true
    | "let" => letAhead
    | _ => return false

end CondUnfold.Grammar
