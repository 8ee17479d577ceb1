import CondUnfold.Proofs.Progress
import CondUnfold.Proofs.SwitchShape

/-!
# No action is lost

Statements are made of a decision tree in three ways, as a chain of `if` statements, as the arms of a
switch and as a run of guarded returns. Read in the order of the text, the simple statements in each
of them are those of the leaves (`DecisionTree.statements_keep_leaves`). A strict maker of switches
is needed: a permissive one loses what stands behind a guard that it does not understand.
-/

namespace CondUnfold

open Except

namespace DecisionTree

/-- Guarded returns return what stands at the leaves, and do nothing else. -/
theorem simpleOf_earlyReturn {t : DecisionTree} (hactions : none ∉ t.actions) :
    simpleOf t.earlyReturn = t.actions.map .ret := by
  induction t with
  | leaf action =>
    cases action with
    | none => exact absurd List.mem_cons_self hactions
    | some e => rfl
  | onYes guard y ih =>
    rw [earlyReturn, simpleOf, simpleOf, List.append_nil]
    exact ih hactions
  | onNo guard n ih =>
    rw [earlyReturn, simpleOf, simpleOf, List.append_nil]
    exact ih hactions
  | fork guard y n ihy ihn =>
    rw [actions_fork, List.mem_append, not_or] at hactions
    rw [earlyReturn, simpleOf, Stmt.simple, Stmt.simple, ihy hactions.1, ihn hactions.2,
      actions_fork, List.map_append]

/-- **No action of a tree is lost, made twice or moved.** Let all guards of the tree be there and
such that they can be written, and an action at each leaf. Without a maker of switches, or with a
strict one, whatever it has on record, there are statements for the tree, and what they evaluate for
its effect is what stands at the leaves, in the same order. What the guarded returns for the tree
return is the same; this holds also where a guard has only one branch. -/
theorem statements_keep_leaves {t : DecisionTree} (ht : t.Guarded (·.isPrintable = true))
    (hactions : none ∉ t.leaves.map condition) (place : Place) {maker : Option SwitchMaker}
    (hmaker : StrictMaker maker) :
    (∃ body maker', t.ifChain place maker = .ok (body, maker') ∧
      (simpleOf body).filterMap Stmt.action? = t.leaves.map condition ∧
      (simpleOf body).filterMap Stmt.returned? = []) ∧
    (simpleOf t.earlyReturn).filterMap Stmt.returned? = t.leaves.map condition ∧
    (simpleOf t.earlyReturn).filterMap Stmt.action? = [] := by
  refine ⟨?_, ?_, ?_⟩
  · obtain ⟨body, maker', hbody⟩ := ifChain_isOk (.inr ht) place
    exact ⟨body, maker', hbody, ifChain_actions hactions hmaker hbody⟩
  · rw [simpleOf_earlyReturn hactions, List.filterMap_map]
    exact List.filterMap_some
  · rw [simpleOf_earlyReturn hactions, List.filterMap_map]
    exact List.filterMap_eq_nil_iff.mpr fun _ _ => rfl

end DecisionTree

namespace TwoSwitches

open Sample

/-- `ready ? (kind === 1 || kind === 2 ? f() : kind === 3 || g()) : kind === 1 ? (a ? h() : i()) :
kind === 2 ? j() : kind === 3 ? k() : l()` -/
def tree : DecisionTree :=
  .ofExpr true (.cond (.name "ready")
    (.cond (.logical (isKind "1") "||" (isKind "2")) (act "f")
      (.logical (isKind "3") "||" (act "g")))
    (.cond (isKind "1") (.cond (.name "a") (act "h") (act "i"))
      (.cond (isKind "2") (act "j") (.cond (isKind "3") (act "k") (act "l")))))

def maker : SwitchMaker := .ofSettings 2 true

/-- There is a switch in the one branch, with two labels for one action and a label without any. In
the other one a chain is refused, and its tail becomes a switch. So the seven actions have six
`break` statements between them, and are the seven that are returned. -/
theorem tree_keeps_leaves :
    ((tree.ifChain {} (some maker)).toOption.map fun r =>
        ((simpleOf r.1).length, r.2.map (·.refusals.length))) = some (13, some 1) ∧
    (∃ body maker', tree.ifChain {} (some maker) = .ok (body, maker') ∧
      (simpleOf body).filterMap Stmt.action? =
        ["f", "g", "h", "i", "j", "k", "l"].map (some ∘ act)) ∧
    (simpleOf tree.earlyReturn).filterMap Stmt.returned? =
      ["f", "g", "h", "i", "j", "k", "l"].map (some ∘ act) := by
  have hguarded : tree.Guarded (·.isPrintable = true) :=
    DecisionTree.guarded_ofExpr_isPrintable true (by decide)
  have hactions : none ∉ tree.leaves.map DecisionTree.condition := by
    intro hnone
    obtain ⟨_, hsome, _⟩ := DecisionTree.actions_ofExpr _ none hnone
    cases hsome
  have hstrict : DecisionTree.StrictMaker (some maker) := by
    rintro _ ⟨⟩
    rfl
  obtain ⟨⟨body, maker', hbody, hacts, _⟩, hreturns, _⟩ :=
    DecisionTree.statements_keep_leaves hguarded hactions {} hstrict
  exact ⟨by decide +kernel, ⟨body, maker', hbody, hacts⟩, hreturns⟩

end TwoSwitches
end CondUnfold
