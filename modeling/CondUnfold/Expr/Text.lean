import CondUnfold.Error
import CondUnfold.Expr
import CondUnfold.Text.CharClass

/-! The text of an expression, on one line and with no more parentheses than operator precedence
asks for. It serves as the canonical form by which expressions are compared: `a` and `(a)` are one
expression and have one text. -/

namespace CondUnfold.Expr

/-- Put a text of precedence `p` where at least precedence `least` is needed. -/
def group (p least : Precedence) (text : String) : String :=
  if p < least then "(" ++ text ++ ")" else text

/-- Unary operators that are words, and so need a space behind them. -/
def isWordOperator (op : String) : Bool :=
  op == "typeof" || op == "void" || op == "delete" || op == "await"

/-- A unary operator before its operand. A sign keeps its distance from the same sign, since `--`
and `++` are other operators. -/
def unaryText (op inner : String) : String :=
  if isWordOperator op then op ++ " " ++ inner
  else if (op == "+" && inner.toList.head? == some '+') ||
      (op == "-" && inner.toList.head? == some '-') then op ++ " " ++ inner
  else op ++ inner

/-- Does an operand of a logical operator `op` need parentheses whatever its precedence? `??` may
not stand next to `&&` or `||`. -/
def clashes (op : String) : Expr → Bool
  | .logical _ op' _ => (op' == "??") != (op == "??")
  | _ => false

/-- An operand of the logical operator `op`. -/
def logicalOperand (op : String) (e : Expr) (least : Precedence) (text : String) : String :=
  if e.clashes op then "(" ++ text ++ ")" else group e.precedence least text

/-- Would a dot behind the expression be read as a decimal point? -/
def endsInInteger : Expr → Bool
  | .literal v => Text.isDigitRun v
  | _ => false

/-- The target of a member access. -/
def memberTarget (e : Expr) (text : String) : String :=
  if e.endsInInteger then "(" ++ group e.precedence .call text ++ ")"
  else group e.precedence .call text

mutual

/-- The text of an expression. -/
def text : Expr → String
  | .literal v => v
  | .name n => n
  | .raw t _ _ => t
  | .unary op e => unaryText op (group e.precedence .unary e.text)
  | .binary l op r =>
    if op == "**" then
      group l.precedence .postfixed l.text ++ " " ++ op ++ " " ++
        group r.precedence .exponent r.text
    else
      group l.precedence (.ofOperator op) l.text ++ " " ++ op ++ " " ++
        group r.precedence (.ofOperator op + 1) r.text
  | .logical l op r =>
    logicalOperand op l (.ofOperator op) l.text ++ " " ++ op ++ " " ++
      logicalOperand op r (.ofOperator op + 1) r.text
  | .cond t y n =>
    group t.precedence .disjunction t.text ++ " ? " ++ group y.precedence .assignment y.text ++
      " : " ++ group n.precedence .assignment n.text
  | .call f args opt =>
    group f.precedence .call f.text ++ (if opt then "?." else "") ++ "(" ++ listText args ++ ")"
  | .member e p opt => memberTarget e e.text ++ (if opt then "?." else ".") ++ p
  | .index e i opt =>
    group e.precedence .call e.text ++ (if opt then "?." else "") ++ "[" ++ i.text ++ "]"
  | .sequence es => listText es

/-- The texts of items that commas divide. -/
def listText : List Expr → String
  | [] => ""
  | e :: es => group e.precedence .assignment e.text ++ restText es

/-- The texts of the items behind the first one, each behind its comma. -/
def restText : List Expr → String
  | [] => ""
  | e :: es => ", " ++ group e.precedence .assignment e.text ++ restText es

end

mutual

/-- Have all logical operators in the expression a precedence? -/
def isPrintable : Expr → Bool
  | .literal _ | .name _ | .raw .. => true
  | .unary _ e => e.isPrintable
  | .binary l _ r => l.isPrintable && r.isPrintable
  | .logical l op r =>
    (Precedence.ofOperator? op).isSome && l.isPrintable && r.isPrintable
  | .cond t y n => t.isPrintable && y.isPrintable && n.isPrintable
  | .call f args _ => f.isPrintable && arePrintable args
  | .member e _ _ => e.isPrintable
  | .index e i _ => e.isPrintable && i.isPrintable
  | .sequence es => arePrintable es

/-- Have all logical operators in the expressions a precedence? -/
def arePrintable : List Expr → Bool
  | [] => true
  | e :: es => e.isPrintable && arePrintable es

end

/-- The text of an expression, provided that each of its logical operators has a precedence. -/
def render (e : Expr) : Except Error String :=
  if e.isPrintable then .ok e.text else .error .unknownOperator

/-- Are the two expressions the same, that is, are they written alike? -/
def same (e f : Expr) : Except Error Bool := do
  let t ← e.render
  let u ← f.render
  return t == u

/-- The first of the candidates whose text is `t`. -/
def findText (t : String) : List Expr → Except Error (Option Expr)
  | [] => .ok none
  | e :: es => do
    let u ← e.render
    if u == t then return some e else findText t es

/-- The first of the candidates that is the same as `e`. -/
def findSame (e : Expr) (candidates : List Expr) : Except Error (Option Expr) := do
  findText (← e.render) candidates

end CondUnfold.Expr
