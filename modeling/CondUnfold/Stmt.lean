import CondUnfold.Expr

/-! The statements that unfolding produces. -/

namespace CondUnfold

/-- An arm of a `switch`: `case label:` or, without a label, `default:`, with the statements
behind it. -/
structure Arm (σ : Type) where
  label : Option Expr
  body : List σ
deriving Repr

/-- Is the arm the `default` arm? -/
def Arm.isDefault (a : Arm σ) : Bool := a.label.isNone

/-- A statement. The place of a test or an action may be empty, but then the statement cannot be
written. -/
inductive Stmt where
  /-- An expression that is evaluated for its effect. -/
  | action (e : Option Expr)
  /-- `return`, with or without a value. -/
  | ret (value : Option Expr)
  | brk
  | block (body : List Stmt)
  /-- An `if` without `else`. -/
  | ifThen (test : Option Expr) (body : Stmt)
  /-- An `if` with `else`; an `if` behind the `else` is written as `else if`. -/
  | ifElse (test : Option Expr) (body other : Stmt)
  | switch (subject : Expr) (arms : List (Arm Stmt))
  /-- An arm on its own. -/
  | arm (a : Arm Stmt)
deriving Repr

/-- The test of an `if` statement; nothing for any other statement. -/
def Stmt.test? : Stmt → Option (Option Expr)
  | .ifThen t _ | .ifElse t _ _ => some t
  | _ => none

/-- Is the statement an `if`? -/
def Stmt.isIf (s : Stmt) : Bool := s.test?.isSome

/-- Is the statement a `switch`? -/
def Stmt.isSwitch : Stmt → Bool
  | .switch .. => true
  | _ => false

end CondUnfold
