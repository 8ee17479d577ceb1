import CondUnfold.DecisionTree
import CondUnfold.Stmt

/-!
# What expressions, decision trees and statements do

Evaluation is taken as a parameter: an `Evaluator` says for each expression how it runs from a
state. Decision trees (`DecisionTree.run`) and statements (`Evaluator.exec`) get their meaning on
top of it. The laws that an evaluator may be asked for are stated apart from it, so that each
result names those that it rests on.
-/

namespace CondUnfold

variable {σ ε ν α β : Type}

/-! ## Runs -/

/-- A run from a state, which ends in a state with a result or with an exception. -/
def Run (σ ε α : Type) : Type := ExceptT ε (StateM σ) α

instance : Monad (Run σ ε) := inferInstanceAs (Monad (ExceptT ε (StateM σ)))

instance : LawfulMonad (Run σ ε) := inferInstanceAs (LawfulMonad (ExceptT ε (StateM σ)))

namespace Run

/-- What comes out of a run from the state `s`: the result or the exception, and the state. -/
def outcome (x : Run σ ε α) (s : σ) : Except ε α × σ := x s

/-- The run with the given outcomes. -/
def ofOutcome (f : σ → Except ε α × σ) : Run σ ε α := f

@[simp] theorem outcome_ofOutcome (f : σ → Except ε α × σ) (s : σ) :
    (ofOutcome f).outcome s = f s := rfl

@[ext] theorem ext {x y : Run σ ε α} (h : ∀ s, x.outcome s = y.outcome s) : x = y := funext h

@[simp] theorem outcome_pure (a : α) (s : σ) :
    (pure a : Run σ ε α).outcome s = (.ok a, s) := rfl

theorem outcome_bind (x : Run σ ε α) (f : α → Run σ ε β) (s : σ) :
    (x >>= f).outcome s =
      match x.outcome s with
      | (.ok a, s') => (f a).outcome s'
      | (.error e, s') => (.error e, s') := by
  change ExceptT.bind (m := StateM σ) x f s = _
  simp only [ExceptT.bind, ExceptT.mk, outcome]
  change (match x s with | (a, s') => ExceptT.bindCont f a s') = _
  rcases x s with ⟨_ | a, s'⟩ <;> rfl

theorem outcome_map (f : α → β) (x : Run σ ε α) (s : σ) :
    (f <$> x).outcome s = ((x.outcome s).1.map f, (x.outcome s).2) := by
  rw [map_eq_pure_bind, outcome_bind]
  rcases x.outcome s with ⟨_ | a, s'⟩ <;> rfl

theorem outcome_bind_ok {x : Run σ ε α} {f : α → Run σ ε β} {s s' : σ} {a : α}
    (h : x.outcome s = (.ok a, s')) : (x >>= f).outcome s = (f a).outcome s' := by
  rw [outcome_bind, h]

end Run

/-! ## Evaluators -/

/-- A way to evaluate expressions to values of type `ν`, with what control flow asks of values. -/
structure Evaluator (σ ε ν : Type) where
  eval : Expr → Run σ ε ν
  truthy : ν → Bool
  nullish : ν → Bool
  /-- Strict equality, by which a `switch` compares. -/
  strictEq : ν → ν → Bool

namespace Evaluator

variable (ev : Evaluator σ ε ν)

/-- Evaluate an expression as a test. -/
def holds (e : Expr) : Run σ ε Bool := ev.truthy <$> ev.eval e

theorem holds_bind (e : Expr) (f : Bool → Run σ ε α) :
    ev.holds e >>= f = ev.eval e >>= fun v => f (ev.truthy v) := by
  simp only [holds, bind_map_left]

/-- Evaluate the guard at a place that may be empty; where there is no guard, nothing holds. -/
def test : Option Expr → Run σ ε Bool
  | none => pure false
  | some e => ev.holds e

/-- Evaluate the action at a place that may be empty, and drop its value. -/
def perform : Option Expr → Run σ ε Unit
  | none => pure ()
  | some e => do let _ ← ev.eval e

/-- The law of `?:`. The test is evaluated once, and then one of the arms. -/
def Branches : Prop :=
  ∀ t y n, ev.eval (.cond t y n) = do if ← ev.holds t then ev.eval y else ev.eval n

/-- The laws of the operators that decide what is evaluated, and of the two tests that stand in
for them. Nothing is said about the value of `!e` and `e == null` except whether it is truthy. -/
structure ShortCircuits : Prop where
  cond : ev.Branches
  and : ∀ l r, ev.eval (.logical l "&&" r) = do
    let v ← ev.eval l
    if ev.truthy v then ev.eval r else pure v
  or : ∀ l r, ev.eval (.logical l "||" r) = do
    let v ← ev.eval l
    if ev.truthy v then pure v else ev.eval r
  coalesce : ∀ l r, ev.eval (.logical l "??" r) = do
    let v ← ev.eval l
    if ev.nullish v then ev.eval r else pure v
  not : ∀ e, ev.holds e.negate = (!·) <$> ev.holds e
  isNull : ∀ e, ev.holds e.looseNullCheck = ev.nullish <$> ev.eval e

end Evaluator

/-! ## Decision trees -/

/-- Evaluate the guards of a decision tree down to one of its actions, and perform that. A guard
without a branch for its answer ends the run. -/
def DecisionTree.run (ev : Evaluator σ ε ν) : DecisionTree → Run σ ε Unit
  | .leaf action => ev.perform action
  | .onYes guard y => do if ← ev.test guard then y.run ev else pure ()
  | .onNo guard n => do if ← ev.test guard then pure () else n.run ev
  | .fork guard y n => do if ← ev.test guard then y.run ev else n.run ev

/-! ## Statements -/

/-- How a statement ends. -/
inductive Completion (ν : Type) where
  /-- What stands behind it is next. -/
  | normal
  /-- The `switch` around it is left. -/
  | brk
  /-- The function around it is left, with or without a value. -/
  | ret (value : Option ν)
deriving Repr

namespace Completion

/-- Leaving a `switch` is its normal end. -/
def ofSwitch : Completion ν → Completion ν
  | .brk => .normal
  | c => c

/-- Do something, drop its result and end normally. -/
def normally (x : Run σ ε α) : Run σ ε (Completion ν) := do
  let _ ← x
  return .normal

theorem normally_branch (b : Run σ ε Bool) (x y : Run σ ε α) :
    (normally (do if ← b then x else y) : Run σ ε (Completion ν)) =
      (do if ← b then normally x else normally y) := by
  simp only [normally, bind_assoc]
  refine congrArg (b >>= ·) (funext fun c => ?_)
  cases c <;> rfl

/-- One statement after another: the second runs if the first ends normally. -/
def andThen (x y : Run σ ε (Completion ν)) : Run σ ε (Completion ν) := do
  match ← x with
  | .normal => y
  | c => return c

@[simp] theorem andThen_pure_normal (y : Run σ ε (Completion ν)) :
    andThen (pure .normal) y = y := rfl

/-- Several statements one after another. -/
def inOrder : List (Run σ ε (Completion ν)) → Run σ ε (Completion ν)
  | [] => pure .normal
  | x :: xs => andThen x (inOrder xs)

end Completion

/-- An arm of a `switch` with what its body does. -/
abbrev ArmRun (σ ε ν : Type) := Option Expr × Run σ ε (Completion ν)

namespace Evaluator

variable (ev : Evaluator σ ε ν)

/-- Evaluate the labels from the top until one is strictly equal to `v`; what then runs are the
bodies from that arm on. A `default` arm is passed over. -/
def matching (v : ν) : List (ArmRun σ ε ν) → Run σ ε (Option (List (Run σ ε (Completion ν))))
  | [] => pure none
  | (none, _) :: arms => matching v arms
  | (some label, body) :: arms => do
    let w ← ev.eval label
    if ev.strictEq v w then return some (body :: arms.map Prod.snd) else matching v arms

/-- The bodies from the `default` arm on. -/
def fromDefault : List (ArmRun σ ε ν) → List (Run σ ε (Completion ν))
  | [] => []
  | (none, body) :: arms => body :: arms.map Prod.snd
  | (some _, _) :: arms => fromDefault arms

/-- Run a `switch` whose subject has the value `v`: from the first arm whose label matches, or else
from the `default` arm, up to a `break`. -/
def runSwitch (v : ν) (arms : List (ArmRun σ ε ν)) : Run σ ε (Completion ν) := do
  let bodies ← ev.matching v arms
  Completion.ofSwitch <$> Completion.inOrder (bodies.getD (fromDefault arms))

mutual

/-- What a statement does. An arm outside of a `switch` is no statement, and does nothing. -/
def exec : Stmt → Run σ ε (Completion ν)
  | .action e => do
    ev.perform e
    return .normal
  | .ret none => return .ret none
  | .ret (some e) => do return .ret (some (← ev.eval e))
  | .brk => return .brk
  | .block body => execAll body
  | .ifThen t body => do if ← ev.test t then exec body else return .normal
  | .ifElse t body other => do if ← ev.test t then exec body else exec other
  | .switch subject arms => do ev.runSwitch (← ev.eval subject) (execArms arms)
  | .arm _ => return .normal

/-- What statements do one after another. -/
def execAll : List Stmt → Run σ ε (Completion ν)
  | [] => return .normal
  | s :: body => Completion.andThen (exec s) (execAll body)

/-- The labels of arms with what the bodies do. -/
def execArms : List (Arm Stmt) → List (ArmRun σ ε ν)
  | [] => []
  | ⟨label, body⟩ :: arms => (label, execAll body) :: execArms arms

end

@[simp] theorem execAll_singleton (s : Stmt) : ev.execAll [s] = ev.exec s := by
  have hnormal : (fun c : Completion ν => match c with
      | .normal => (pure .normal : Run σ ε (Completion ν))
      | c => pure c) = pure := by
    funext c
    cases c <;> rfl
  exact (congrArg (ev.exec s >>= ·) hnormal).trans (bind_pure _)

/-- A label is evaluated once. If it matches, the bodies run from its arm on; otherwise it is as if
the arm were not there. -/
theorem runSwitch_label (v : ν) (label : Expr) (body : Run σ ε (Completion ν))
    (arms : List (ArmRun σ ε ν)) :
    ev.runSwitch v ((some label, body) :: arms) =
      (do
        let w ← ev.eval label
        if ev.strictEq v w then
          Completion.ofSwitch <$> Completion.inOrder (body :: arms.map Prod.snd)
        else ev.runSwitch v arms) := by
  simp only [runSwitch, matching, bind_assoc]
  refine congrArg (ev.eval label >>= ·) (funext fun w => ?_)
  split
  next => rw [pure_bind]; rfl
  next => rfl

end Evaluator
end CondUnfold
