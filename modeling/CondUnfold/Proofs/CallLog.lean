import CondUnfold.Comparison
import CondUnfold.Proofs.Evaluator
import CondUnfold.Proofs.Walk

/-!
# An evaluator that logs calls

A small evaluator that obeys the laws asked for elsewhere. Its state is the list of the calls made
so far. What a name stands for and what a call gives are fixed in advance (`Script`), so only calls
and kept source text leave a trace in the state (`Script.eval_quiet`).
-/

namespace CondUnfold

/-- A value: what `==` and `===` and tests can tell apart. -/
inductive Value where
  | undefined
  | null
  | bool (b : Bool)
  /-- A number or a string, as written. -/
  | plain (text : String)
deriving DecidableEq, Repr

namespace Value

def ofLiteral (text : String) : Value :=
  if text == "null" then .null
  else if text == "true" then .bool true
  else if text == "false" then .bool false
  else .plain text

def truthy : Value → Bool
  | .undefined | .null => false
  | .bool b => b
  | .plain text => text != "0" && text != "''"

def nullish : Value → Bool
  | .undefined | .null => true
  | _ => false

/-- Loose equality, without conversion of numbers and strings. -/
def looseEq (v w : Value) : Bool := v == w || v.nullish && w.nullish

theorem looseEq_null (v : Value) : v.looseEq .null = v.nullish := by
  cases v <;> rfl

end Value

/-- What names and calls give; a call may throw. -/
structure Script where
  vars : String → Value
  calls : String → Except String Value

namespace Script

variable (script : Script)

/-- Make a call: it is logged, and then gives its value or throws. -/
def invoke (callee : String) : Run (List String) String Value :=
  .ofOutcome fun log => (script.calls callee, log ++ [callee])

/-- The value of a binary operation. -/
def binaryValue (op : String) (v w : Value) : Value :=
  if op == "===" then .bool (v == w)
  else if op == "==" then .bool (v.looseEq w)
  else .undefined

/-- The value of a unary operation. -/
def unaryValue (op : String) (v : Value) : Value :=
  if op == "!" then .bool (!v.truthy) else .undefined

/-- Is the right operand of a short-circuit operator evaluated after the value `v` of the left? -/
def goesOn (op : String) (v : Value) : Bool :=
  if op == "&&" then v.truthy else if op == "||" then !v.truthy else v.nullish

mutual

/-- Evaluate an expression. -/
def eval : Expr → Run (List String) String Value
  | .literal text => pure (.ofLiteral text)
  | .name text => pure (script.vars text)
  | .raw text _ _ => script.invoke text
  | .unary op e => return unaryValue op (← eval e)
  | .binary l op r => return binaryValue op (← eval l) (← eval r)
  | .logical l op r => do
    let v ← eval l
    if goesOn op v then eval r else pure v
  | .cond t y n => do if (← eval t).truthy then eval y else eval n
  | .call f args _ => do
    let _ ← evalLast .undefined args
    script.invoke f.text
  | .member e property opt => do
    let _ ← eval e
    return script.vars (Expr.member e property opt).text
  | .index e i opt => do
    let _ ← eval e
    let _ ← eval i
    return script.vars (Expr.index e i opt).text
  | .sequence es => evalLast .undefined es

/-- Evaluate expressions one after another, for the value of the last. -/
def evalLast (v : Value) : List Expr → Run (List String) String Value
  | [] => pure v
  | e :: es => do evalLast (← eval e) es

end

/-- The evaluator of a script. -/
def evaluator : Evaluator (List String) String Value where
  eval := script.eval
  truthy := Value.truthy
  nullish := Value.nullish
  strictEq := (· == ·)

theorem evaluator_shortCircuits : script.evaluator.ShortCircuits where
  cond t y n := by
    rw [Evaluator.holds_bind]
    rfl
  and l r := rfl
  or l r := by
    refine congrArg (script.eval l >>= ·) (funext fun v => ?_)
    change (if !v.truthy then script.eval r else pure v) =
      if v.truthy then pure v else script.eval r
    cases v.truthy <;> rfl
  coalesce l r := rfl
  not e := by
    change Value.truthy <$> (script.eval e >>= fun v => pure (.bool (!v.truthy))) =
      (!·) <$> Value.truthy <$> script.eval e
    simp only [map_eq_pure_bind, bind_assoc, pure_bind, Value.truthy]
  isNull e := by
    change Value.truthy <$> (script.eval e >>= fun v => pure (.bool (v.looseEq .null))) =
      Value.nullish <$> script.eval e
    simp only [map_eq_pure_bind, bind_assoc, pure_bind, Value.truthy, Value.looseEq_null]

mutual

/-- **Where no part has an effect, the value is the same whatever has been called.** -/
theorem eval_quiet : (e : Expr) → e.walk.any Expr.isEffectful = false →
    ∃ v, script.eval e = pure v
  | .literal text, _ => ⟨_, rfl⟩
  | .name text, _ => ⟨_, rfl⟩
  | .raw .., h => by
    obtain ⟨hnode, _⟩ := Expr.walk_any_eq_false h
    cases hnode
  | .unary op e, h => by
    obtain ⟨_, hparts⟩ := Expr.walk_any_eq_false h
    obtain ⟨v, hv⟩ := eval_quiet e (hparts e (by simp [Expr.children]))
    exact ⟨unaryValue op v, by simp only [eval, hv, pure_bind]⟩
  | .binary l op r, h => by
    obtain ⟨_, hparts⟩ := Expr.walk_any_eq_false h
    obtain ⟨v, hv⟩ := eval_quiet l (hparts l (by simp [Expr.children]))
    obtain ⟨w, hw⟩ := eval_quiet r (hparts r (by simp [Expr.children]))
    exact ⟨binaryValue op v w, by simp only [eval, hv, hw, pure_bind]⟩
  | .logical l op r, h => by
    obtain ⟨_, hparts⟩ := Expr.walk_any_eq_false h
    obtain ⟨v, hv⟩ := eval_quiet l (hparts l (by simp [Expr.children]))
    obtain ⟨w, hw⟩ := eval_quiet r (hparts r (by simp [Expr.children]))
    simp only [eval, hv, hw, pure_bind]
    split
    next => exact ⟨w, rfl⟩
    next => exact ⟨v, rfl⟩
  | .cond t y n, h => by
    obtain ⟨_, hparts⟩ := Expr.walk_any_eq_false h
    obtain ⟨u, hu⟩ := eval_quiet t (hparts t (by simp [Expr.children]))
    obtain ⟨v, hv⟩ := eval_quiet y (hparts y (by simp [Expr.children]))
    obtain ⟨w, hw⟩ := eval_quiet n (hparts n (by simp [Expr.children]))
    simp only [eval, hu, hv, hw, pure_bind]
    split
    next => exact ⟨v, rfl⟩
    next => exact ⟨w, rfl⟩
  | .call .., h => by
    obtain ⟨hnode, _⟩ := Expr.walk_any_eq_false h
    cases hnode
  | .member e property opt, h => by
    obtain ⟨_, hparts⟩ := Expr.walk_any_eq_false h
    obtain ⟨v, hv⟩ := eval_quiet e (hparts e (by simp [Expr.children]))
    exact ⟨script.vars _, by simp only [eval, hv, pure_bind]; rfl⟩
  | .index e i opt, h => by
    obtain ⟨_, hparts⟩ := Expr.walk_any_eq_false h
    obtain ⟨v, hv⟩ := eval_quiet e (hparts e (by simp [Expr.children]))
    obtain ⟨w, hw⟩ := eval_quiet i (hparts i (by simp [Expr.children]))
    exact ⟨script.vars _, by simp only [eval, hv, hw, pure_bind]; rfl⟩
  | .sequence es, h => by
    obtain ⟨_, hparts⟩ := Expr.walk_any_eq_false h
    obtain ⟨v, hv⟩ := evalLast_quiet .undefined es (by simpa [Expr.children] using hparts)
    exact ⟨v, by simp only [eval, hv]⟩

theorem evalLast_quiet (v : Value) : (es : List Expr) →
    (∀ e ∈ es, e.walk.any Expr.isEffectful = false) → ∃ w, script.evalLast v es = pure w
  | [], _ => ⟨v, rfl⟩
  | e :: es, h => by
    obtain ⟨he, hes⟩ := List.forall_mem_cons.mp h
    obtain ⟨u, hu⟩ := eval_quiet e he
    obtain ⟨w, hw⟩ := evalLast_quiet u es hes
    exact ⟨w, by simp only [evalLast, hu, pure_bind, hw]⟩

end

end Script
end CondUnfold
