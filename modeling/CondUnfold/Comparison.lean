import CondUnfold.DecisionTree
import CondUnfold.Expr.Text

/-! Guards that compare one expression, the base, with values. -/

namespace CondUnfold

/-- May evaluating the node itself, apart from its parts, have an effect? -/
def Expr.isEffectful : Expr → Bool
  | .call .. | .raw .. => true
  | .unary op _ => op == "delete" || op == "await"
  | _ => false

/-- Is the expression a literal? -/
def Expr.isLiteral : Expr → Bool
  | .literal _ => true
  | _ => false

/-- May the expression be the subject of a switch? A subject is evaluated once where the guards
evaluate it once each, so nothing in it may have an effect; and a literal is a value rather than a
base. -/
def Expr.isBase (e : Expr) : Bool := !e.isLiteral && !e.walk.any Expr.isEffectful

/-- The first candidate that is the same as one of the others. -/
def firstShared (others : List Expr) : List Expr → Except Error (Option Expr)
  | [] => .ok none
  | e :: es => do
    match ← e.findSame others with
    | some _ => return some e
    | none => firstShared others es

/-- The expressions that a guard compares with values. Either side of an equality may be the base;
a disjunction has the base that both of its sides share. -/
def comparisonBases : Expr → Except Error (List Expr)
  | .binary l op r =>
    .ok (if Expr.isEqualityOperator op then [l, r].filter Expr.isBase else [])
  | .logical l op r =>
    if op == "||" then do
      let left ← comparisonBases l
      let right ← comparisonBases r
      if left.isEmpty || right.isEmpty then return []
      return (← firstShared right left).toList
    else .ok []
  | _ => .ok []

/-- The comparison bases of a guard that may be absent. -/
def guardBases : Option Expr → Except Error (List Expr)
  | none => .ok []
  | some e => comparisonBases e

/-- A comparison of a base with a value. -/
structure Comparison where
  op : String
  value : Expr
deriving Repr

/-- The comparisons with `base` in a guard, from left to right. -/
def comparisonsWith (base : Expr) : Expr → Except Error (List Comparison)
  | .binary l op r =>
    if Expr.isEqualityOperator op then do
      if ← l.same base then return [⟨op, r⟩]
      if ← r.same base then return [⟨op, l⟩]
      return []
    else .ok []
  | .logical l op r =>
    if op == "||" then do
      let left ← comparisonsWith base l
      let right ← comparisonsWith base r
      return left ++ right
    else .ok []
  | _ => .ok []

/-- The comparisons with `base` in a guard that may be absent. -/
def guardComparisons (base : Expr) : Option Expr → Except Error (List Comparison)
  | none => .ok []
  | some e => comparisonsWith base e

/-- Has the guard `base` among its comparison bases? -/
def testsBase (base : Expr) (guard : Option Expr) : Except Error Bool := do
  let bases ← guardBases guard
  return (← base.findSame bases).isSome

/-- The number of guards, added to `count`, on the longest way to a leaf on which every guard
tests `base`; `-1` if there is no such way. -/
def chainDepth (base : Expr) : DecisionTree → Int → Except Error Int
  | .leaf _, count => .ok count
  | .onYes guard t, count | .onNo guard t, count => do
    if ← testsBase base guard then chainDepth base t (count + 1) else return -1
  | .fork guard y n, count => do
    if ← testsBase base guard then
      let deepYes ← chainDepth base y (count + 1)
      let deepNo ← chainDepth base n (count + 1)
      return max deepYes deepNo
    else return -1

end CondUnfold
