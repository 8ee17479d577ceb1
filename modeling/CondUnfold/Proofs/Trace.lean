import CondUnfold.Proofs.Evaluator

/-!
# The evaluations behind a run

Conditionals and short-circuit operators only choose what is evaluated. What they choose from, the
expressions that they are built over, are evaluated one after another, each from the state that the
one before it has left; this is the trace of a run. An evaluator with the trace in its state obeys
the same laws (`traced_branches`, `traced_shortCircuits`), so that what holds of every evaluator
holds of the order of evaluations too.
-/

namespace CondUnfold.Evaluator

variable {σ ε ν : Type} (ev : Evaluator σ ε ν)

/-- The evaluations in a run, in their order: what is evaluated, and the state from which. -/
abbrev Trace (σ : Type) := List (Expr × σ)

/-- Does a short-circuit operator go on to its right side after the value `v` of its left one? -/
def goesOn (op : String) (v : ν) : Bool :=
  if op == "&&" then ev.truthy v else if op == "||" then !ev.truthy v else ev.nullish v

/-- Is the expression the literal `null`? -/
def isNull : Expr → Bool
  | .literal v => v == "null"
  | _ => false

/-- What follows in a trace once an expression has been evaluated; nothing after an exception. -/
def thenTrace (x : Except ε ν × σ) (next : ν → σ → Trace σ) : Trace σ :=
  match x with
  | (.ok v, s) => next v s
  | (.error _, _) => []

/-- The trace of an expression. Conditionals are looked into, and with `deep` also the short-circuit
operators, negations and comparisons with `null`. -/
def trace (deep : Bool) : Expr → σ → Trace σ
  | .cond t y n, s => trace deep t s ++ thenTrace ((ev.eval t).outcome s) fun v s' =>
    if ev.truthy v then trace deep y s' else trace deep n s'
  | .logical l op r, s =>
    if deep && Expr.isLogicalOperator op then
      trace deep l s ++ thenTrace ((ev.eval l).outcome s) fun v s' =>
        if ev.goesOn op v then trace deep r s' else []
    else [(.logical l op r, s)]
  | .unary op e, s => if deep && op == "!" then trace deep e s else [(.unary op e, s)]
  | .binary l op r, s =>
    if deep && op == "==" && isNull r then trace deep l s else [(.binary l op r, s)]
  | e, s => [(e, s)]

/-- The evaluator that keeps the trace beside the state. -/
def traced (deep : Bool) : Evaluator (σ × Trace σ) ε ν where
  eval e := .ofOutcome fun p =>
    (((ev.eval e).outcome p.1).1, ((ev.eval e).outcome p.1).2, p.2 ++ ev.trace deep e p.1)
  truthy := ev.truthy
  nullish := ev.nullish
  strictEq := ev.strictEq

/-- The trace of statements that are executed one after another. -/
def traceAll (deep : Bool) (body : List Stmt) (s : σ) : Trace σ :=
  (((ev.traced deep).execAll body).outcome (s, [])).2.2

variable {ev} {deep : Bool}

/-- To trace an expression that begins with the evaluation of `a`, trace `a` and then what follows
it. -/
theorem traced_bind {e a : Expr} {k : ν → Run σ ε ν} {k' : ν → Run (σ × Trace σ) ε ν}
    (next : ν → σ → Trace σ) (heval : ev.eval e = ev.eval a >>= k)
    (htrace : ∀ s, ev.trace deep e s =
      ev.trace deep a s ++ thenTrace ((ev.eval a).outcome s) next)
    (hnext : ∀ v s log, (k' v).outcome (s, log) =
      (((k v).outcome s).1, ((k v).outcome s).2, log ++ next v s)) :
    (ev.traced deep).eval e = (ev.traced deep).eval a >>= k' := by
  refine Run.ext fun ⟨s, log⟩ => ?_
  rw [Run.outcome_bind]
  simp only [traced, Run.outcome_ofOutcome, heval, htrace, Run.outcome_bind]
  rcases (ev.eval a).outcome s with ⟨x | v, s'⟩
  · simp [thenTrace]
  · simp [thenTrace, hnext, List.append_assoc]

theorem traced_branches (h : ev.Branches) (deep : Bool) : (ev.traced deep).Branches := by
  intro t y n
  rw [holds_bind]
  refine traced_bind (fun v s => if ev.truthy v then ev.trace deep y s else ev.trace deep n s)
    ((h t y n).trans (ev.holds_bind t _)) (fun s => rfl) fun v s log => ?_
  change Run.outcome (if ev.truthy v then _ else _) _ = _
  cases hv : ev.truthy v <;> simp [traced]

theorem traced_shortCircuits (h : ev.ShortCircuits) : (ev.traced true).ShortCircuits where
  cond := traced_branches h.cond true
  and l r := by
    refine traced_bind (fun v s => if ev.truthy v then ev.trace true r s else []) (h.and l r)
      (fun s => rfl) fun v s log => ?_
    change Run.outcome (if ev.truthy v then _ else _) _ = _
    cases hv : ev.truthy v <;> simp [traced]
  or l r := by
    refine traced_bind (fun v s => if !ev.truthy v then ev.trace true r s else []) (h.or l r)
      (fun s => rfl) fun v s log => ?_
    change Run.outcome (if ev.truthy v then _ else _) _ = _
    cases hv : ev.truthy v <;> simp [traced]
  coalesce l r := by
    refine traced_bind (fun v s => if ev.nullish v then ev.trace true r s else []) (h.coalesce l r)
      (fun s => rfl) fun v s log => ?_
    change Run.outcome (if ev.nullish v then _ else _) _ = _
    cases hv : ev.nullish v <;> simp [traced]
  not e := by
    refine Run.ext fun ⟨s, log⟩ => ?_
    have hs := congrArg (·.outcome s) (h.not e)
    simp only [holds, Run.outcome_map, Prod.mk.injEq] at hs
    simp only [holds, Run.outcome_map]
    exact Prod.ext hs.1 (Prod.ext hs.2 rfl)
  isNull e := by
    refine Run.ext fun ⟨s, log⟩ => ?_
    have hs := congrArg (·.outcome s) (h.isNull e)
    simp only [holds, Run.outcome_map, Prod.mk.injEq] at hs
    simp only [holds, Run.outcome_map]
    exact Prod.ext hs.1 (Prod.ext hs.2 rfl)

/-- Statements that do what an expression does, with or without its value, have its trace. -/
theorem traceAll_eq {body : List Stmt} {e : Expr} {f : ν → Completion ν}
    (h : (ev.traced deep).execAll body = f <$> (ev.traced deep).eval e) (s : σ) :
    ev.traceAll deep body s = ev.trace deep e s := by
  rw [traceAll, h, Run.outcome_map]
  exact List.nil_append _

end CondUnfold.Evaluator
