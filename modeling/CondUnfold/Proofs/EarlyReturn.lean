import CondUnfold.Proofs.CallLog
import CondUnfold.Proofs.Fallible
import CondUnfold.Proofs.Samples
import CondUnfold.Proofs.Trace
import CondUnfold.Unfolder

/-!
# Guarded returns return what the expression returns

The statements for a guard that fails stand right behind the guard, without an `else`. So a block
that came to its end would go on with statements that are not meant for it. It never does: each block
is made from an expression in the same way as the whole (`GuardedReturns.bodies`), and what is made
in this way returns the value of the expression (`GuardedReturns.execAll_eq`).
-/

namespace CondUnfold

open Except

variable {σ ε ν : Type} {ev : Evaluator σ ε ν}

namespace Completion

/-- Return the result of a run. -/
def returned (x : Run σ ε ν) : Run σ ε (Completion ν) := (fun v => .ret (some v)) <$> x

theorem andThen_bind {α : Type} (x : Run σ ε α) (f : α → Run σ ε (Completion ν))
    (y : Run σ ε (Completion ν)) : andThen (x >>= f) y = x >>= fun a => andThen (f a) y :=
  bind_assoc x f _

/-- What stands behind a return does not run. -/
theorem andThen_returned (x : Run σ ε ν) (y : Run σ ε (Completion ν)) :
    andThen (returned x) y = returned x := by
  simp only [andThen, returned, bind_map_left]
  exact (map_eq_pure_bind _ x).symm

theorem returned_bind {α : Type} (x : Run σ ε α) (f : α → Run σ ε ν) :
    returned (x >>= f) = x >>= fun a => returned (f a) :=
  map_bind _ x f

theorem outcome_returned (x : Run σ ε ν) (s : σ) :
    (∃ v s', (returned x).outcome s = (.ok (.ret (some v)), s')) ∨
      ∃ a s', (returned x).outcome s = (.error a, s') := by
  simp only [returned, Run.outcome_map]
  rcases x.outcome s with ⟨a | v, s'⟩
  · exact .inr ⟨a, s', rfl⟩
  · exact .inl ⟨v, s', rfl⟩

end Completion

mutual

/-- The statement lists inside a statement, at any depth: those of its blocks and of its arms. -/
def Stmt.bodies : Stmt → List (List Stmt)
  | .action _ | .ret _ | .brk => []
  | .block body => body :: bodiesOf body
  | .ifThen _ body => body.bodies
  | .ifElse _ body other => body.bodies ++ other.bodies
  | .switch _ arms => armBodies arms
  | .arm ⟨_, body⟩ => body :: bodiesOf body

/-- The statement lists inside the statements of a list. -/
def bodiesOf : List Stmt → List (List Stmt)
  | [] => []
  | s :: body => s.bodies ++ bodiesOf body

/-- The statement lists of arms, with those inside them. -/
def armBodies : List (Arm Stmt) → List (List Stmt)
  | [] => []
  | ⟨_, body⟩ :: arms => body :: (bodiesOf body ++ armBodies arms)

end

/-- The guarded returns of an expression. The arm of a conditional for a test that holds is in a
block, and the other arm follows it; anything else is returned as it is. -/
inductive GuardedReturns : Expr → List Stmt → Prop where
  | cond : GuardedReturns y yes → GuardedReturns n no →
    GuardedReturns (.cond t y n) (.ifThen (some t) (.block yes) :: no)
  | whole : e.isConditional = false → GuardedReturns e [.ret (some e)]

namespace GuardedReturns

variable {e : Expr} {body : List Stmt}

/-- **Guarded returns return the value of the expression.** -/
theorem execAll_eq (laws : ev.Branches) (h : GuardedReturns e body) :
    ev.execAll body = Completion.returned (ev.eval e) := by
  induction h with
  | @cond y yes n no t _ _ ihy ihn =>
    have hguard : ev.exec (.ifThen (some t) (.block yes)) =
        ev.holds t >>= fun b => if b then Completion.returned (ev.eval y) else pure .normal := by
      simp only [Evaluator.exec, Evaluator.test, ihy]
    rw [Evaluator.execAll, hguard, ihn, laws t y n, Completion.andThen_bind,
      Completion.returned_bind]
    refine congrArg (ev.holds t >>= ·) (funext fun b => ?_)
    cases b with
    | true => exact Completion.andThen_returned _ _
    | false => exact Completion.andThen_pure_normal _
  | whole _ =>
    rw [Evaluator.execAll_singleton, Evaluator.exec, Completion.returned, map_eq_pure_bind]

/-- Each block is made in the same way from some expression. -/
theorem bodies (h : GuardedReturns e body) {block : List Stmt} (hblock : block ∈ bodiesOf body) :
    ∃ part, GuardedReturns part block := by
  induction h with
  | @cond y yes n no t hyes hno ihy ihn =>
    simp only [bodiesOf, Stmt.bodies, List.cons_append, List.mem_cons, List.mem_append] at hblock
    rcases hblock with rfl | hblock | hblock
    · exact ⟨y, hyes⟩
    · exact ihy hblock
    · exact ihn hblock
  | whole _ => cases hblock

end GuardedReturns

theorem DecisionTree.earlyReturn_ofExpr (e : Expr) :
    GuardedReturns e (ofExpr false e).earlyReturn := by
  cases e with
  | cond t y n =>
    rw [ofExpr, earlyReturn]
    exact .cond (earlyReturn_ofExpr y) (earlyReturn_ofExpr n)
  | _ => exact .whole rfl

/-- **Unfolding a returned expression keeps what it does.** The statements return the value of the
expression, with the same evaluations in the same order and the same final state. Neither they nor
any block among them comes to its end: it returns, or there is an exception. -/
theorem unfoldReturn_runs_like_return (laws : ev.Branches) {e : Expr}
    (h : unfoldReturn e ≠ none) :
    ∃ body, unfoldReturn e = some body ∧
      (∀ s, (ev.execAll body).outcome s = (ev.exec (.ret (some e))).outcome s ∧
        ev.traceAll false body s = ev.trace false e s) ∧
      ∀ block ∈ body :: bodiesOf body, ∀ s,
        (∃ v s', (ev.execAll block).outcome s = (.ok (.ret (some v)), s')) ∨
          ∃ x s', (ev.execAll block).outcome s = (.error x, s') := by
  have hreturns := DecisionTree.earlyReturn_ofExpr e
  have hunfold : unfoldReturn e = some (DecisionTree.ofExpr false e).earlyReturn := by
    unfold unfoldReturn at h ⊢
    split at h
    next hnested => rw [if_pos hnested]
    next => exact absurd rfl h
  refine ⟨_, hunfold, fun s => ⟨?_, ?_⟩, fun block hblock s => ?_⟩
  · rw [hreturns.execAll_eq laws, Evaluator.exec, Completion.returned, map_eq_pure_bind]
  · exact Evaluator.traceAll_eq
      (hreturns.execAll_eq (Evaluator.traced_branches laws false)) s
  · obtain ⟨part, hpart⟩ : ∃ part, GuardedReturns part block := by
      rcases List.mem_cons.mp hblock with rfl | hblock
      · exact ⟨e, hreturns⟩
      · exact hreturns.bodies hblock
    rw [hpart.execAll_eq laws]
    exact Completion.outcome_returned (ev.eval part) s

namespace NestedReturn

open Sample (act)

/-- `open ? (ready ? f() : g() || h()) : i()` -/
def expr : Expr :=
  .cond (.name "open") (.cond (.name "ready") (act "f") (.logical (act "g") "||" (act "h")))
    (act "i")

def body : List Stmt :=
  [.ifThen (some (.name "open")) (.block
      [.ifThen (some (.name "ready")) (.block [.ret (some (act "f"))]),
        .ret (some (.logical (act "g") "||" (act "h")))]),
    .ret (some (act "i"))]

/-- Only the first test holds, and `g` gives `false`. -/
def script : Script where
  vars x := .bool (x == "open")
  calls f := .ok (if f == "h" then .plain "3" else .bool false)

/-- The operands of `||` stay together, so that the value of `h` is returned. -/
theorem unfoldReturn_expr_runs_like_return :
    unfoldReturn expr = some body ∧
      (script.evaluator.execAll body).outcome [] =
        (script.evaluator.exec (.ret (some expr))).outcome [] ∧
      (script.evaluator.execAll body).outcome [] =
        (.ok (.ret (some (.plain "3"))), ["g", "h"]) ∧
      script.evaluator.traceAll false body [] = script.evaluator.trace false expr [] := by
  have hnested : expr.isNestedConditional = true := by
    rw [expr, Expr.isNestedConditional, Expr.walk_eq]
    rfl
  have hunfold : unfoldReturn expr = some body := by
    simp only [unfoldReturn, hnested, if_true]
    rfl
  obtain ⟨body', hbody', hruns, _⟩ := unfoldReturn_runs_like_return
    script.evaluator_shortCircuits.cond (e := expr) (by rw [hunfold]; exact nofun)
  cases hunfold.symm.trans hbody'
  exact ⟨hunfold, (hruns []).1, rfl, (hruns []).2⟩

end NestedReturn
end CondUnfold
