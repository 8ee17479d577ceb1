import CondUnfold.Proofs.NodeExpr
import CondUnfold.Proofs.Outermost

/-!
# Unfolding makes progress

A statement that may be unfolded has an expression of the form that its kind tells, and this form
branches (`Node.triggers_branch`). The statements that take its place begin with an `if` or a
`switch`. Their actions are those at the leaves of the decision tree
(`DecisionTree.ifChain_actions`), where nothing branches any more, so that none of them can be
unfolded again. This needs a strict maker of switches: a permissive one takes a guard for an action.
-/

namespace CondUnfold

open Except

/-! ## Simple statements -/

mutual

/-- The actions, returns and breaks in a statement, at any depth and in the order of the text. -/
def Stmt.simple : Stmt → List Stmt
  | .action e => [.action e]
  | .ret value => [.ret value]
  | .brk => [.brk]
  | .block body => simpleOf body
  | .ifThen _ body => body.simple
  | .ifElse _ body other => body.simple ++ other.simple
  | .switch _ arms => armSimple arms
  | .arm ⟨_, body⟩ => simpleOf body

/-- The simple statements in the statements of a list. -/
def simpleOf : List Stmt → List Stmt
  | [] => []
  | s :: body => s.simple ++ simpleOf body

/-- The simple statements in arms. -/
def armSimple : List (Arm Stmt) → List Stmt
  | [] => []
  | ⟨_, body⟩ :: arms => simpleOf body ++ armSimple arms

end

theorem armSimple_append (arms arms' : List (Arm Stmt)) :
    armSimple (arms ++ arms') = armSimple arms ++ armSimple arms' := by
  induction arms with
  | nil => rfl
  | cons a arms ih => rw [List.cons_append, armSimple, armSimple, ih, List.append_assoc]

/-- What a simple statement evaluates for its effect. -/
def Stmt.action? : Stmt → Option (Option Expr)
  | .action e => some e
  | _ => none

/-- What a simple statement returns. -/
def Stmt.returned? : Stmt → Option (Option Expr)
  | .ret value => some value
  | _ => none

/-- The simple statements do the given actions in that order, and none of them returns. -/
def Does (simple : List Stmt) (actions : List (Option Expr)) : Prop :=
  simple.filterMap Stmt.action? = actions ∧ simple.filterMap Stmt.returned? = []

theorem does_action (e : Option Expr) : Does [.action e] [e] := ⟨rfl, rfl⟩

theorem does_brk : Does [.brk] [] := ⟨rfl, rfl⟩

theorem Does.append {simple simple' : List Stmt} {actions actions' : List (Option Expr)}
    (h : Does simple actions) (h' : Does simple' actions') :
    Does (simple ++ simple') (actions ++ actions') := by
  obtain ⟨rfl, hreturns⟩ := h
  obtain ⟨rfl, hreturns'⟩ := h'
  constructor
  · rw [List.filterMap_append]
  · rw [List.filterMap_append, hreturns, hreturns', List.append_nil]

theorem Does.mem_action {simple : List Stmt} {actions : List (Option Expr)} {e : Option Expr}
    (h : Does simple actions) (he : .action e ∈ simple) : e ∈ actions := by
  rw [← h.1]
  exact List.mem_filterMap.mpr ⟨_, he, rfl⟩

theorem Does.not_returns {simple : List Stmt} {actions : List (Option Expr)} {value : Option Expr}
    (h : Does simple actions) : .ret value ∉ simple := by
  intro hmem
  have hreturned : value ∈ simple.filterMap Stmt.returned? := List.mem_filterMap.mpr ⟨_, hmem, rfl⟩
  rw [h.2] at hreturned
  cases hreturned

namespace DecisionTree

/-- The actions at the leaves, the one behind a guard that holds first. -/
def actions (t : DecisionTree) : List (Option Expr) := t.leaves.map condition

theorem actions_fork (guard : Option Expr) (y n : DecisionTree) :
    (fork guard y n).actions = y.actions ++ n.actions := by
  rw [actions, leaves, List.map_append]
  rfl

/-! ## Statements of trees -/

theorem does_attachElse {guard : Option Expr} {yes no : List Stmt} {acts acts' : List (Option Expr)}
    (hyes : Does (simpleOf yes) acts) (hno : Does (simpleOf no) acts') :
    Does (attachElse guard yes no).simple (acts ++ acts') := by
  have hattach : (attachElse guard yes no).simple = simpleOf yes ++ simpleOf no := by
    unfold attachElse
    split <;> simp [Stmt.simple, simpleOf]
  rw [hattach]
  exact hyes.append hno

theorem does_caseArms {body : List Stmt} {acts : List (Option Expr)}
    (hbody : Does (simpleOf body) acts) {cs : List Comparison} (hcs : cs ≠ []) :
    Does (armSimple (caseArms body cs)) acts := by
  fun_induction caseArms body cs with
  | case1 => exact absurd rfl hcs
  | case2 c => simpa [armSimple] using hbody
  | case3 c cs hne ih => simpa [armSimple, simpleOf] using ih hne

theorem does_actionBody (action : Option Expr) : Does (simpleOf (actionBody action)) [action] :=
  (does_action action).append does_brk

/-- **The arms of a strict switch do the actions of the tree.** -/
theorem does_chainArms {base : Expr} {t : DecisionTree}
    (hspine : ∀ g ∈ t.spine, comparisonsIn base g ≠ []) (hsingle : t.SingleActions) :
    Does (armSimple (t.chainArms true base)) t.actions := by
  induction t with
  | leaf action =>
    rw [chainArms, armSimple, armSimple, List.append_nil]
    exact does_actionBody action
  | onYes guard y _ =>
    cases y with
    | leaf action => exact does_caseArms (does_actionBody action) (hspine guard List.mem_cons_self)
    | onYes | onNo | fork => cases hsingle
  | onNo guard n ih =>
    obtain ⟨hguard, hrest⟩ := List.forall_mem_cons.mp hspine
    have hbody : Does (simpleOf (caseBody true none)) [] := does_brk
    rw [chainArms, armSimple_append]
    exact (does_caseArms hbody hguard).append (ih hrest hsingle)
  | fork guard y n _ ih =>
    obtain ⟨hguard, hrest⟩ := List.forall_mem_cons.mp hspine
    rw [chainArms, armSimple_append, actions_fork]
    cases y with
    | leaf action =>
      exact (does_caseArms (does_actionBody action) hguard).append (ih hrest hsingle.2)
    | onYes | onNo | fork => cases hsingle.1

/-- Every maker that is there is strict. -/
def StrictMaker (maker : Option SwitchMaker) : Prop := ∀ m, maker = some m → m.strict = true

theorem StrictMaker.of_same {maker maker' : Option SwitchMaker} (h : StrictMaker maker)
    (hsame : SameMaker maker maker') : StrictMaker maker' := by
  intro m' hm'
  obtain ⟨m, hm, hagrees⟩ := hsame m' hm'
  rw [hagrees.2]
  exact h m hm

theorem does_switch? {maker maker' : Option SwitchMaker} (hmaker : StrictMaker maker)
    {place : Place} {t : DecisionTree} {s : Stmt}
    (h : switch? maker place t = .ok (some s, maker')) : Does s.simple t.actions := by
  obtain ⟨m, m', base, arms, rfl, rfl, hfound⟩ := switch?_found h
  have hswitch := (SwitchMaker.trySwitch_cases hfound).2 base arms rfl
  rw [hmaker m rfl] at hswitch
  obtain ⟨harms, hchecked⟩ := collectArms_eq hswitch.collected
  obtain ⟨hspine, hsingle⟩ := hchecked rfl
  rw [Stmt.simple, harms]
  exact does_chainArms (fun g hg => (hspine g hg).1) hsingle

/-- **The statements of a tree do the actions at its leaves**, each once and in the order of the
leaves, provided that every leaf has an action. -/
theorem ifChain_actions {t : DecisionTree} (ht : none ∉ t.actions) {place : Place}
    {maker maker' : Option SwitchMaker} {body : List Stmt} (hmaker : StrictMaker maker)
    (h : t.ifChain place maker = .ok (body, maker')) : Does (simpleOf body) t.actions := by
  revert ht
  refine ifChain_induction
    (P := fun t body => none ∉ t.actions → Does (simpleOf body) t.actions)
    ?switch ?idle ?act ?onYes ?onNo ?fork (.refl maker) h
  case switch =>
    intro maker₁ maker₂ place t s hsame hfound _
    rw [simpleOf, simpleOf, List.append_nil]
    exact does_switch? (hmaker.of_same hsame) hfound
  case idle =>
    intro ht
    exact absurd List.mem_cons_self ht
  case act =>
    intro e _
    exact does_action (some e)
  case onYes =>
    intro guard y yes ih ht
    rw [simpleOf, simpleOf, List.append_nil]
    exact ih ht
  case onNo =>
    intro g n no ih ht
    rw [simpleOf, simpleOf, List.append_nil]
    exact ih ht
  case fork =>
    intro guard y n yes no ihy ihn ht
    rw [actions_fork, List.mem_append, not_or] at ht
    rw [simpleOf, simpleOf, List.append_nil, actions_fork]
    exact does_attachElse (ihy ht.1) (ihn ht.2)

end DecisionTree

/-! ## Expressions that branch -/

namespace DecisionTree

/-- Nothing at the leaves of the tree of an expression branches. -/
theorem actions_ofExpr (e : Expr) : ∀ action ∈ (ofExpr true e).actions,
    ∃ x, action = some x ∧ x.isConditional = false ∧ x.isShortCircuit = false := by
  fun_induction ofExpr true e with
  | case1 test y n ihy ihn =>
    rw [actions_fork]
    exact List.forall_mem_append.mpr ⟨ihy, ihn⟩
  | case2 l op r _ _ ih | case3 l op r _ _ _ ih | case4 l op r _ _ _ _ ih => exact ih
  | case5 l op r _ hand hor hcoalesce =>
    intro action haction
    cases List.mem_singleton.mp haction
    refine ⟨_, rfl, rfl, ?_⟩
    simp [Expr.isShortCircuit, Expr.isLogicalOperator, hand, hor, hcoalesce]
  | case6 l op r hdescend => exact absurd rfl hdescend
  | case7 e hcond hlogical =>
    intro action haction
    cases List.mem_singleton.mp haction
    cases e with
    | cond test y n => exact absurd rfl (hcond test y n)
    | logical l op r => exact absurd rfl (hlogical l op r)
    | _ => exact ⟨_, rfl, rfl, rfl⟩

end DecisionTree

theorem GuardedReturns.simple {e : Expr} {body : List Stmt} (h : GuardedReturns e body) :
    ∀ s ∈ simpleOf body, ∃ x, s = .ret (some x) ∧ x.isConditional = false := by
  induction h with
  | @cond y yes n no test _ _ ihy ihn =>
    rw [simpleOf, Stmt.simple, Stmt.simple]
    exact List.forall_mem_append.mpr ⟨ihy, ihn⟩
  | @whole e he =>
    intro s hs
    cases List.mem_singleton.mp hs
    exact ⟨e, rfl, he⟩

namespace Trigger

/-- The decision tree of a statement. What is returned keeps its short-circuit expressions whole. -/
def tree (t : Trigger) : DecisionTree := .ofExpr (t.kind != .ret) t.expr

theorem strictMaker_of_options {o : Options} (ho : o.strictCases = true ∨ o.makeSwitches = false) :
    DecisionTree.StrictMaker o.maker := by
  intro m hm
  unfold Options.maker at hm
  split at hm
  next hmake =>
    cases hm
    exact ho.resolve_right (fun h => nomatch hmake.symm.trans h)
  next => cases hm

/-- What takes the place of a statement begins with a branch, and has nothing in it that could be
unfolded once more. -/
structure Advances (body : List Stmt) : Prop where
  branches : ∃ first rest, body = first :: rest ∧ (first.isIf = true ∨ first.isSwitch = true)
  actions : ∀ e, .action (some e) ∈ simpleOf body →
    e.isConditional = false ∧ e.isShortCircuit = false
  returns : ∀ e, .ret (some e) ∈ simpleOf body → e.isConditional = false

theorem advances_of_guardedReturns {e : Expr} (he : e.isConditional = true) {body : List Stmt}
    (h : GuardedReturns e body) : Advances body where
  branches := by
    cases h with
    | cond => exact ⟨_, _, rfl, .inl rfl⟩
    | whole hwhole => cases hwhole.symm.trans he
  actions := by
    intro x hx
    obtain ⟨_, hret, _⟩ := h.simple _ hx
    cases hret
  returns := by
    intro x hx
    obtain ⟨_, hret, hx⟩ := h.simple _ hx
    cases hret
    exact hx

theorem advances_of_ifChain {e : Expr} (hprintable : e.isPrintable = true)
    (he : (DecisionTree.ofExpr true e).isLeaf = false) {place : Place} {maker maker' : Option SwitchMaker} {body : List Stmt}
    (hmaker : DecisionTree.StrictMaker maker)
    (h : (DecisionTree.ofExpr true e).ifChain place maker = .ok (body, maker')) :
    Advances body := by
  have hactions := DecisionTree.actions_ofExpr e
  have hdoes : Does (simpleOf body) (DecisionTree.ofExpr true e).actions := by
    apply DecisionTree.ifChain_actions _ hmaker h
    intro hnone
    obtain ⟨_, hsome, _⟩ := hactions none hnone
    cases hsome
  refine ⟨?_, ?_, ?_⟩
  · have hfilled := DecisionTree.filled_ofExpr true hprintable
    obtain ⟨s, rfl, hs⟩ := DecisionTree.ifChain_indents hfilled he h
    exact ⟨s, [], rfl, hs.branches⟩
  · intro x hx
    obtain ⟨_, hsome, hx⟩ := hactions (some x) (hdoes.mem_action hx)
    cases hsome
    exact hx
  · intro x hx
    exact absurd hx hdoes.not_returns

/-- **Unfolding a statement makes progress.** The expression of a statement that was found has the
form that its kind tells, and its decision tree branches. The statement is replaced, unless it
returns a conditional without another one in its arms. Then the replacement begins with an `if` or a
`switch`, no action in it branches, and nothing that it returns is a conditional. -/
theorem unfold_leaves_no_trigger (o : Options) (ho : o.strictCases = true ∨ o.makeSwitches = false)
    {root : Node} {source : Bytes} {ts : List Trigger} (hts : root.triggers source = .ok ts)
    {t : Trigger} (ht : t ∈ ts) :
    (t.kind = .logical ∧ t.expr.isShortCircuit = true ∨
      t.kind ≠ .logical ∧ t.expr.isConditional = true) ∧
    t.tree.isLeaf = false ∧
    ∃ r? events, (t.unfold o).outcome = (.ok r?, events) ∧
      (r? = none ↔ t.kind = .ret ∧ t.expr.isNestedConditional = false) ∧
      ∀ r, r? = some r → r.depth = t.tree.depth ∧ Advances r.body := by
  have hform := Node.triggers_branch hts ht
  by_cases hret : t.kind = .ret
  · have hcond : t.expr.isConditional = true := by
      rcases hform with ⟨hkind, _⟩ | ⟨_, hcond⟩
      · cases hret.symm.trans hkind
      · exact hcond
    have htree : t.tree = .ofExpr false t.expr := by
      rw [tree, hret]
      rfl
    obtain ⟨body, hreturns, hruns⟩ := unfold_return_runs o hret
    rw [htree]
    refine ⟨hform, DecisionTree.isLeaf_ofExpr_cond false hcond, _, [], hruns.outcome, ?_, ?_⟩
    · cases t.expr.isNestedConditional <;> simp [hret]
    · intro r hr
      split at hr
      next => cases hr; exact ⟨rfl, advances_of_guardedReturns hcond hreturns⟩
      next => cases hr
  · have htree : t.tree = .ofExpr true t.expr := by
      rw [tree, bne_iff_ne.mpr hret]
    have hleaf : (DecisionTree.ofExpr true t.expr).isLeaf = false := by
      rcases hform with ⟨_, hlogical⟩ | ⟨_, hcond⟩
      · exact DecisionTree.isLeaf_ofExpr_logical hlogical
      · exact DecisionTree.isLeaf_ofExpr_cond true hcond
    have hprintable := Node.triggers_isPrintable hts ht
    obtain ⟨body, maker, hbody, hruns⟩ := unfold_action_runs o hret hprintable
    rw [htree]
    refine ⟨hform, hleaf, _, _, hruns.outcome, ?_, ?_⟩
    · simp [hret]
    · rintro _ ⟨⟩
      exact ⟨rfl, advances_of_ifChain hprintable hleaf (strictMaker_of_options ho) hbody⟩

end Trigger

namespace NestedArm

open FunctionArms Sample

def text : Bytes := Utf8.encode "a ? b && c : d"

def root : Node :=
  node "program" 0 14 [node "expression_statement" 0 14 [node "ternary_expression" 0 14
    [part "condition" (word 0), part "consequence" (logical "&&" 4),
      part "alternative" (word 13)]]]

/-- What takes its place. -/
def lines : List String :=
  [ifHead "a", "  " ++ ifHead "b", "    c;", "  " ++ blockEnd, elseHead, "  d;", blockEnd]

/-- The lines of the statements that take the place of `t`. -/
def linesFor (o : Options) (t : Trigger) : Option (List String) :=
  ((t.unfold o).outcome.1.toOption.bind id).bind fun r =>
    (Stmt.renderLines o.layout r.body).toOption.bind (·.mapM WideText.text?)

/-- The short-circuit expression in the arm branches as well, so that only `c` and `d` are left to
do. -/
theorem unfold_root_leaves_no_trigger :
    ∃ t, root.triggers text = .ok [t] ∧ t.kind = .conditional ∧ t.expr.text = "a ? b && c : d" ∧
      linesFor {} t = some lines ∧ t.tree.isLeaf = false ∧
      ∃ r events, (t.unfold {}).outcome = (.ok (some r), events) ∧ Trigger.Advances r.body := by
  have hfound : (root.triggers text).toOption.map
      (·.map fun t => (t.kind, t.expr.text, linesFor {} t)) =
        some [(.conditional, "a ? b && c : d", some lines)] := by
    decide +kernel
  cases hts : root.triggers text with
  | error e => rw [hts] at hfound; cases hfound
  | ok ts =>
    rw [hts] at hfound
    obtain ⟨t, rfl, ht⟩ := List.map_eq_singleton_iff.mp (Option.some.inj hfound)
    obtain ⟨hkind, htext, hlines⟩ : t.kind = .conditional ∧ t.expr.text = _ ∧
        linesFor {} t = _ := by
      simpa only [Prod.mk.injEq] using ht
    obtain ⟨_, hleaf, r?, events, hunfold, hnone, hadvances⟩ :=
      Trigger.unfold_leaves_no_trigger {} (.inl rfl) hts List.mem_cons_self
    refine ⟨t, rfl, hkind, htext, hlines, hleaf, ?_⟩
    cases r? with
    | none => cases (hnone.mp rfl).1.symm.trans hkind
    | some r => exact ⟨r, events, hunfold, (hadvances r rfl).2⟩

end NestedArm

end CondUnfold
