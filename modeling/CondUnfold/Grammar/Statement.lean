import CondUnfold.Grammar.Control
import CondUnfold.Grammar.Module

/-! Statements and programs. -/

namespace CondUnfold.Grammar

open Parse

/-- Symbols and words that continue an expression and can begin no statement. -/
def onlyContinues (op : String) : Bool :=
  (bindingOf? op).isSome && !(["+", "-", "/"].contains op) || isCompoundAssignment op ||
    [".", "?.", "?", "=", ",", "=>"].contains op

/-- Does something follow that only continues an expression? -/
def continuesAhead : Parse Bool := do
  let w ← nextWord
  let s ← nextSymbol .never
  return onlyContinues (if w.isEmpty then s else w)

/-- An expression as a statement. -/
def expressionStatement (self : Self) : Parse Node := do
  toToken
  let start ← pos
  let e ← expressions self .afterExpr
  semicolon .afterExpr
  node "expression_statement" start [e]

/-- A construct that ends with a brace, unless it turns out to be the beginning of an
expression. -/
def unlessContinued (self : Self) (construct : Parse Node) : Parse Node := do
  let c ← get
  let n ← construct
  if ← continuesAhead then
    set c
    expressionStatement self
  else return n

/-- A statement that begins with a brace: a block, or an expression that begins with an object.
What could be both is an object if it begins with a name and a colon. -/
def braceStatement (self : Self) : Parse Node := do
  if ← labelAhead then either (expressionStatement self) (block self)
  else if ← objectAhead then expressionStatement self
  else unlessContinued self (block self)

/-- A statement that begins with a word. -/
def wordStatement (self : Self) (w : String) : Parse Node := do
  match w with
  | "if" => ifStatement self
  | "for" => either (collectionLoop self) (countingLoop self)
  | "while" => whileLoop self
  | "do" => doLoop self
  | "with" => withStatement self
  | "switch" => switchStatement self
  | "try" => tryStatement self
  | "break" => jump "break"
  | "continue" => jump "continue"
  | "return" => returnStatement self
  | "throw" => throwStatement self
  | "debugger" => debuggerStatement
  | "export" => exportStatement self
  | "import" =>
    let behind ← ahead do
      keyword "import"
      nextSymbol .never
    if behind == "(" || behind == "." then expressionStatement self else importStatement self
  | _ =>
    if !Lexeme.isReserved w && (← colonAhead) then labeled self
    else if ← declarationAhead then
      if w == "var" || w == "const" || w == "let" then declaration self
      else unlessContinued self (declaration self)
    else expressionStatement self

/-- A statement. -/
def statement (self : Self) : Parse Node := do
  toToken
  let start ← pos
  let w ← wordHere
  if !w.isEmpty then wordStatement self w
  else
    match ← symbolHere with
    | "\x7b" => braceStatement self
    | ";" =>
      advance 1
      node "empty_statement" start
    | "@" =>
      let behind ← ahead do
        let _ ← decorators self
        nextWord
      if behind == "export" then
        let head ← decorators self
        let n ← exportStatement self
        return { n with start, children := head ++ n.children }
      else unlessContinued self (classDeclaration self)
    | _ => expressionStatement self

/-- A whole program. -/
def program (self : Self) : Parse (List Node) := do
  let c ← get
  if ['#', '!'].isPrefixOf c.rest then advance (Lexeme.span (· != '\n') c.rest)
  many do
    toToken
    if (← get).rest.isEmpty then return none
    return some (← self .statement)

end CondUnfold.Grammar
