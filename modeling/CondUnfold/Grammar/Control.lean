import CondUnfold.Grammar.Declaration
import CondUnfold.Grammar.Expression

/-! Conditions, loops, jumps and handlers. -/

namespace CondUnfold.Grammar

open Parse

/-- A condition in parentheses. -/
def condition (self : Self) : Parse Node := do
  return (← parenthesized self).withRole "condition"

/-- The body of a compound statement. -/
def body (self : Self) : Parse Node := do
  return (← self .statement).withRole "body"

/-- `if` with or without `else`. -/
def ifStatement (self : Self) : Parse Node := do
  toToken
  let start ← pos
  keyword "if"
  let test ← condition self
  let yes ← self .statement
  let no ←
    if (← nextWord) == "else" then do
      toToken
      let at' ← pos
      keyword "else"
      let n ← self .statement
      pure [(← node "else_clause" at' [n]).withRole "alternative"]
    else pure []
  node "if_statement" start ([test, yes.withRole "consequence"] ++ no)

/-- One of the heads of a loop with a counter, up to its semicolon. -/
def loopHead (self : Self) (role : String) : Parse Node := do
  toToken
  let start ← pos
  if ← accept ";" then return (← node "empty_statement" start).withRole role
  let e ← expressions self .never
  symbol ";"
  return e.withRole role

/-- A loop with a counter. -/
def countingLoop (self : Self) : Parse Node := do
  toToken
  let start ← pos
  keyword "for"
  symbol "("
  let w ← nextWord
  let initial ←
    if w == "var" || w == "const" || w == "let" then do
      pure ((← variableDeclaration self w).withRole "initializer")
    else loopHead self "initializer"
  let test ← loopHead self "condition"
  let next ←
    if (← nextSymbol .never) == ")" then pure []
    else do pure [(← expressions self .never).withRole "increment"]
  symbol ")"
  let b ← body self
  node "for_statement" start ([initial, test] ++ next ++ [b])

/-- What a loop over the elements of a collection assigns to. -/
def loopTarget (self : Self) : Parse Node := do
  let w ← nextWord
  if w == "var" || w == "const" || (w == "let" && (← letAhead)) then
    keyword w
    let target ← bindingTarget self
    if w == "var" then
      if ← accept "=" then
        let _ ← self (.expression 0 .never)
        pure ()
    return target
  else
    let e ← self (.expression callBinding .never)
    if isTarget e then return e
    match e.toPattern with
    | some p => return p
    | none => fail

/-- A loop over the elements of a collection. -/
def collectionLoop (self : Self) : Parse Node := do
  toToken
  let start ← pos
  keyword "for"
  if (← nextWord) == "await" then keyword "await"
  symbol "("
  let left ← loopTarget self
  let w ← nextWord
  if w != "in" && w != "of" then fail
  keyword w
  let right ← expressions self .never
  symbol ")"
  let b ← body self
  node "for_in_statement" start [left.withRole "left", right.withRole "right", b]

/-- `while`. -/
def whileLoop (self : Self) : Parse Node := do
  toToken
  let start ← pos
  keyword "while"
  let test ← condition self
  let b ← body self
  node "while_statement" start [test, b]

/-- `do` with its `while`; the semicolon behind it is optional. -/
def doLoop (self : Self) : Parse Node := do
  toToken
  let start ← pos
  keyword "do"
  let b ← body self
  keyword "while"
  let test ← condition self
  match ← gap .afterWord with
  | .stop c => set c
  | .token .. =>
    let _ ← accept ";"
    pure ()
  node "do_statement" start [b, test]

/-- `with`. -/
def withStatement (self : Self) : Parse Node := do
  toToken
  let start ← pos
  keyword "with"
  let e ← parenthesized self
  let b ← body self
  node "with_statement" start [e.withRole "object", b]

/-- A case of a `switch`. -/
def switchCase (self : Self) : Parse Node := do
  toToken
  let start ← pos
  let value ←
    if (← nextWord) == "case" then do
      keyword "case"
      pure [(← expressions self .never).withRole "value"]
    else do
      keyword "default"
      pure []
  symbol ":"
  let inside ← many do
    let w ← nextWord
    if w == "case" || w == "default" || (← nextSymbol .never) == "\x7d" then return none
    return some (← body self)
  node (if value.isEmpty then "switch_default" else "switch_case") start (value ++ inside)

/-- `switch`. -/
def switchStatement (self : Self) : Parse Node := do
  toToken
  let start ← pos
  keyword "switch"
  let e ← parenthesized self
  toToken
  let at' ← pos
  symbol "\x7b"
  let cases ← many do
    if ← accept "\x7d" then return none
    return some (← switchCase self)
  let b ← node "switch_body" at' cases
  node "switch_statement" start [e.withRole "value", b.withRole "body"]

/-- `try` with or without its clauses. -/
def tryStatement (self : Self) : Parse Node := do
  toToken
  let start ← pos
  keyword "try"
  let b ← block self
  let handler ←
    if (← nextWord) == "catch" then do
      toToken
      let at' ← pos
      keyword "catch"
      let parameter ←
        if ← accept "(" then do
          let p ← bindingTarget self
          symbol ")"
          pure [p.withRole "parameter"]
        else pure []
      let inner ← block self
      pure [(← node "catch_clause" at' (parameter ++ [inner.withRole "body"])).withRole "handler"]
    else pure []
  let finalizer ←
    if (← nextWord) == "finally" then do
      toToken
      let at' ← pos
      keyword "finally"
      let inner ← block self
      pure [(← node "finally_clause" at' [inner.withRole "body"]).withRole "finalizer"]
    else pure []
  node "try_statement" start ([b.withRole "body"] ++ handler ++ finalizer)

/-- `break` or `continue`, with or without a label. -/
def jump (w : String) : Parse Node := do
  toToken
  let start ← pos
  keyword w
  let label ←
    match ← gap .afterWord with
    | .stop _ => pure []
    | .token c _ =>
      if Lexeme.identifier c.rest == 0 then pure []
      else do pure [{ (← identifier) with kind := "statement_identifier" }.withRole "label"]
  semicolon .afterWord
  node (w ++ "_statement") start label

/-- `return` with or without a value. -/
def returnStatement (self : Self) : Parse Node := do
  toToken
  let start ← pos
  keyword "return"
  let value ←
    match ← gap .afterWord with
    | .stop _ => pure []
    | .token c _ =>
      if Lexeme.symbol c.rest == ";" then pure [] else do pure [← expressions self .afterExpr]
  semicolon (if value.isEmpty then .afterWord else .afterExpr)
  node "return_statement" start value

/-- `throw`. -/
def throwStatement (self : Self) : Parse Node := do
  toToken
  let start ← pos
  keyword "throw"
  let e ← expressions self .afterExpr
  semicolon .afterExpr
  node "throw_statement" start [e]

/-- `debugger`. -/
def debuggerStatement : Parse Node := do
  toToken
  let start ← pos
  keyword "debugger"
  semicolon .afterWord
  node "debugger_statement" start

/-- Does a colon stand behind the word at the cursor? -/
def colonAhead : Parse Bool := ahead do
  toToken
  let n := Lexeme.identifier (← get).rest
  if n == 0 then return false
  advance n
  return (← nextSymbol .never) == ":"

/-- A statement with a label. -/
def labeled (self : Self) : Parse Node := do
  let label ← identifier
  symbol ":"
  let b ← body self
  node "labeled_statement" label.start
    [{ label with kind := "statement_identifier" }.withRole "label", b]

end CondUnfold.Grammar
