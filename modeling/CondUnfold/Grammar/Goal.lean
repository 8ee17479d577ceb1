import CondUnfold.Syntax.Cursor

/-! What the grammar reads, and how tight its operators bind. Each reader of the grammar takes the
reader of smaller constructs as an argument, so that the grammar is plain definitions and recursion
is tied in one place. -/

namespace CondUnfold.Grammar

open Parse

/-- What the grammar is asked to read. -/
inductive Goal where
  | statement
  /-- An expression in which operators bind at least as tight as `least`. -/
  | expression (least : Nat) (semi : Semi)
  /-- What may stand behind `new`. -/
  | constructor
deriving DecidableEq, Repr

/-- The reader of smaller constructs. -/
abbrev Self := Goal → Parse Node

/-- How tight an operator binds. The coalescing operator binds as loosely as a conditional. -/
def bindingOf? : String → Option Nat
  | "??" => some 1
  | "||" => some 2
  | "&&" => some 3
  | "|" => some 4
  | "^" => some 5
  | "&" => some 6
  | "==" | "!=" | "===" | "!==" => some 7
  | "<" | ">" | "<=" | ">=" | "instanceof" | "in" => some 8
  | "<<" | ">>" | ">>>" => some 9
  | "+" | "-" => some 10
  | "*" | "/" | "%" => some 11
  | "**" => some 12
  | _ => none

/-- The binding of a conditional. -/
def conditionalBinding : Nat := 1
/-- The binding of `in`. -/
def relationBinding : Nat := 8
/-- The binding of `++` and `--`, and the least one inside the operand of a unary operator. -/
def updateBinding : Nat := 14
/-- The binding of calls and member accesses. -/
def callBinding : Nat := 15

/-- Operators that assign the result of another operator. -/
def isCompoundAssignment (op : String) : Bool :=
  [">>>=", "**=", "<<=", ">>=", "&&=", "||=", "??=", "+=", "-=", "*=", "/=", "%=", "&=", "|=",
    "^="].contains op

/-- Words with a meaning of their own at the beginning of an expression. -/
def isOperandWord (w : String) : Bool :=
  !Lexeme.isReserved w ||
    ["function", "class", "new", "this", "super", "null", "true", "false", "typeof", "void",
      "delete", "import"].contains w

/-- May an expression begin with the text? -/
def beginsExpression (cs : List Char) : Bool :=
  let n := Lexeme.identifier cs
  if n ≠ 0 then isOperandWord (String.ofList (cs.take n))
  else Lexeme.number cs ≠ 0 || cs.head?.any ("([\x7b\"'`+-!~/#@".toList.contains ·)

/-- Read an identifier that is not reserved. -/
def identifier : Parse Node := do
  toToken
  let w ← wordHere
  if w.isEmpty || Lexeme.isReserved w then fail
  leaf "identifier" (Lexeme.identifier (← get).rest)

end CondUnfold.Grammar
