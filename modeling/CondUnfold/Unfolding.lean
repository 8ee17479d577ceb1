import CondUnfold.Switch

/-! Decision trees as statements: a chain of `if` and `else if` for an expression that stands as a
statement, and a run of guarded returns for an expression that is returned. -/

namespace CondUnfold.DecisionTree

/-- The statement for a switch that was found. -/
def switchStmt (s : Expr × List (Arm Stmt)) : Stmt := .switch s.1 s.2

/-- A switch for the tree, if there is a maker and it finds one. -/
def switch? (maker : Option SwitchMaker) (place : Place) (tree : DecisionTree) :
    Except Error (Option Stmt × Option SwitchMaker) :=
  match maker with
  | none => .ok (none, none)
  | some m => do
    let (found, m') ← m.trySwitch place tree
    return (found.map switchStmt, some m')

/-- Attach the statements for a guard that fails: a single `if` goes right behind the `else`. -/
def attachElse (guard : Option Expr) (yes no : List Stmt) : Stmt :=
  match no with
  | [.ifThen t b] => .ifElse guard (.block yes) (.ifThen t b)
  | [.ifElse t b o] => .ifElse guard (.block yes) (.ifElse t b o)
  | _ => .ifElse guard (.block yes) (.block no)

/-- The tree as a chain of `if` statements. The maker of switches is asked first for each subtree,
the branch for a guard that fails before the other. A guard that is absent stays absent when it is
negated, and is met when the statement is written. -/
def ifChain : DecisionTree → Place → Option SwitchMaker →
    Except Error (List Stmt × Option SwitchMaker)
  | .leaf action, place, maker => do
    let (found, maker) ← switch? maker place (.leaf action)
    if let some s := found then return ([s], maker)
    match action with
    | none => return ([], maker)
    | some e => return ([.action (some e)], maker)
  | .onYes guard y, place, maker => do
    let (found, maker) ← switch? maker place (.onYes guard y)
    if let some s := found then return ([s], maker)
    let (yes, maker) ← y.ifChain (place.step .yes) maker
    return ([.ifThen guard (.block yes)], maker)
  | .onNo guard n, place, maker => do
    let (found, maker) ← switch? maker place (.onNo guard n)
    if let some s := found then return ([s], maker)
    let (no, maker) ← n.ifChain (place.step .no) maker
    return ([.ifThen (guard.map Expr.negate) (.block no)], maker)
  | .fork guard y n, place, maker => do
    let (found, maker) ← switch? maker place (.fork guard y n)
    if let some s := found then return ([s], maker)
    let (no, maker) ← n.ifChain (place.step .no) maker
    let (yes, maker) ← y.ifChain (place.step .yes) maker
    return ([attachElse guard yes no], maker)

/-- The tree as a run of guarded returns. -/
def earlyReturn : DecisionTree → List Stmt
  | .leaf none => []
  | .leaf (some e) => [.ret (some e)]
  | .onYes guard y => [.ifThen guard (.block y.earlyReturn)]
  | .onNo guard n => [.ifThen (guard.map Expr.negate) (.block n.earlyReturn)]
  | .fork guard y n => .ifThen guard (.block y.earlyReturn) :: n.earlyReturn

end CondUnfold.DecisionTree
