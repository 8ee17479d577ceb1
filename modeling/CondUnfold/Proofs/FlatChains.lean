import CondUnfold.Proofs.LeafActions

/-!
# Chains without nesting

A chain of `if` statements is flat: what stands behind an `else` is an `if` itself, and never a
block with an `if` as its only statement. This is settled at each guard by the form of what was made
for the branch behind it (`DecisionTree.attachElse_flat`), and it holds at every depth, since a
switch among the statements has only actions in its arms (`Stmt.throughout_switch`). Guarded returns
have no `else` at all.
-/

namespace CondUnfold

open Except

/-! ## The statements inside a statement -/

namespace Stmt

/-- The statements right inside a statement: those of a block, the sides of an `if`, and what stands
in the arms of a `switch`. -/
def children : Stmt → List Stmt
  | .action _ | .ret _ | .brk => []
  | .block body => body
  | .ifThen _ body => [body]
  | .ifElse _ body other => [body, other]
  | .switch _ arms => arms.flatMap (·.body)
  | .arm a => a.body

/-- `part.PartOf s` says that `part` is `s` or stands somewhere in it. -/
inductive PartOf (part : Stmt) : Stmt → Prop where
  | self : PartOf part part
  | inside {s child : Stmt} : child ∈ s.children → PartOf part child → PartOf part s

/-- Is the statement an `if` with an `else`? -/
def hasElse : Stmt → Bool
  | .ifElse .. => true
  | _ => false

/-- Does an `else` of the statement hold a block around a single `if`? -/
def wrapsIf : Stmt → Bool
  | .ifElse _ _ (.block [inner]) => inner.isIf
  | _ => false

/-- The property holds of the statement and of all statements inside it. -/
def Throughout (P : Stmt → Prop) (s : Stmt) : Prop := ∀ part : Stmt, part.PartOf s → P part

variable {P : Stmt → Prop} {s : Stmt} {body : List Stmt}

theorem throughout_iff : s.Throughout P ↔ P s ∧ ∀ c ∈ s.children, c.Throughout P := by
  constructor
  · intro h
    exact ⟨h s .self, fun c hc part hpart => h part (.inside hc hpart)⟩
  · rintro ⟨hs, hchildren⟩ part hpart
    cases hpart with
    | self => exact hs
    | inside hc hpart => exact hchildren _ hc part hpart

theorem throughout_action {e : Option Expr} (h : P (.action e)) : (action e).Throughout P :=
  throughout_iff.mpr ⟨h, List.forall_mem_nil _⟩

/-- An `if` with a block, as the guards of a tree become. -/
theorem throughout_ifThen {test : Option Expr} (h : P (.ifThen test (.block body)))
    (hblock : P (.block body)) (hbody : ∀ s ∈ body, s.Throughout P) :
    (ifThen test (block body)).Throughout P :=
  throughout_iff.mpr ⟨h, List.forall_mem_singleton.mpr (throughout_iff.mpr ⟨hblock, hbody⟩)⟩

/-- Nothing in the arms of a switch has a statement inside. -/
theorem throughout_switch {subject : Expr} {arms : List (Arm Stmt)} (harms : ArmsInOrder arms)
    (h : P (.switch subject arms)) (hact : ∀ e, P (.action e)) (hbrk : P .brk) :
    (switch subject arms).Throughout P := by
  have hbrk' : brk.Throughout P := throughout_iff.mpr ⟨hbrk, List.forall_mem_nil _⟩
  have hbodies {body : List Stmt} (hbody : ArmBody body) : ∀ s ∈ body, s.Throughout P := by
    cases hbody with
    | empty => exact List.forall_mem_nil _
    | leave => exact List.forall_mem_singleton.mpr hbrk'
    | act e =>
      exact List.forall_mem_cons.mpr
        ⟨throughout_action (hact e), List.forall_mem_singleton.mpr hbrk'⟩
  refine throughout_iff.mpr ⟨h, fun s hs => ?_⟩
  obtain ⟨a, ha, hs⟩ := List.mem_flatMap.mp hs
  exact hbodies (harms.bodies a ha) s hs

end Stmt

/-! ## The statements of a tree -/

namespace DecisionTree

open Stmt

variable {t : DecisionTree} {place : Place} {maker maker' : Option SwitchMaker}

theorem switch?_flat {s : Stmt} (h : switch? maker place t = .ok (some s, maker')) :
    s.Throughout (·.wrapsIf = false) := by
  obtain ⟨m, m', base, arms, rfl, rfl, hfound⟩ := switch?_found h
  have hswitch := (SwitchMaker.trySwitch_cases hfound).2 base arms rfl
  exact throughout_switch hswitch.wellFormed.toArmsInOrder rfl (fun _ => rfl) rfl

/-- A single `if` goes right behind the `else`, and anything else into a block. -/
theorem attachElse_cases (guard : Option Expr) (yes no : List Stmt) :
    (∃ s, no = [s] ∧ s.isIf = true ∧
      attachElse guard yes no = .ifElse guard (.block yes) s) ∨
    ((∀ s, no = [s] → s.isIf = false) ∧
      attachElse guard yes no = .ifElse guard (.block yes) (.block no)) := by
  fun_cases attachElse guard yes no with
  | case1 t b => exact .inl ⟨.ifThen t b, rfl, rfl, rfl⟩
  | case2 t b o => exact .inl ⟨.ifElse t b o, rfl, rfl, rfl⟩
  | case3 no hthen helse =>
    refine .inr ⟨fun s hs => ?_, rfl⟩
    cases s with
    | ifThen t b => exact absurd hs (hthen t b)
    | ifElse t b o => exact absurd hs (helse t b o)
    | _ => rfl

theorem attachElse_flat {guard : Option Expr} {yes no : List Stmt}
    (hyes : ∀ s ∈ yes, s.Throughout (·.wrapsIf = false))
    (hno : ∀ s ∈ no, s.Throughout (·.wrapsIf = false)) :
    (attachElse guard yes no).Throughout (·.wrapsIf = false) := by
  have hblock : (Stmt.block yes).Throughout (·.wrapsIf = false) :=
    throughout_iff.mpr ⟨rfl, hyes⟩
  obtain ⟨s, rfl, hif, heq⟩ | ⟨hsingle, heq⟩ := attachElse_cases guard yes no
  · rw [heq]
    refine throughout_iff.mpr ⟨?_, List.forall_mem_cons.mpr ⟨hblock, hno⟩⟩
    cases s with
    | block => cases hif
    | _ => rfl
  · rw [heq]
    refine throughout_iff.mpr ⟨?_, List.forall_mem_cons.mpr
      ⟨hblock, List.forall_mem_singleton.mpr (throughout_iff.mpr ⟨rfl, hno⟩)⟩⟩
    -- the block holds a single statement only if that one is no `if`
    unfold wrapsIf
    split
    next inner hinner =>
      cases hinner
      exact hsingle inner rfl
    next => rfl

/-- **The statements of a tree are a single one or none, and flat at every depth.** -/
theorem ifChain_flat {body : List Stmt} (h : t.ifChain place maker = .ok (body, maker')) :
    body.length ≤ 1 ∧ ∀ s ∈ body, s.Throughout (·.wrapsIf = false) := by
  have hone {s : Stmt} (hs : s.Throughout (·.wrapsIf = false)) :
      [s].length ≤ 1 ∧ ∀ s' ∈ [s], s'.Throughout (·.wrapsIf = false) :=
    ⟨Nat.le_refl 1, List.forall_mem_singleton.mpr hs⟩
  refine ifChain_induction
    (P := fun _ body => body.length ≤ 1 ∧ ∀ s ∈ body, s.Throughout (·.wrapsIf = false))
    ?switch ?idle ?act ?onYes ?onNo ?fork (.refl maker) h
  case switch =>
    intro maker₁ maker₂ place t s _ hfound
    exact hone (switch?_flat hfound)
  case idle => exact ⟨Nat.zero_le 1, List.forall_mem_nil _⟩
  case act =>
    intro e
    exact hone (throughout_action rfl)
  case onYes =>
    intro guard y yes ih
    exact hone (throughout_ifThen rfl rfl ih.2)
  case onNo =>
    intro g n no ih
    exact hone (throughout_ifThen rfl rfl ih.2)
  case fork =>
    intro guard y n yes no ihy ihn
    exact hone (attachElse_flat ihy.2 ihn.2)

/-- **Guarded returns have no `else`.** -/
theorem earlyReturn_noElse (t : DecisionTree) :
    ∀ s ∈ t.earlyReturn, s.Throughout (·.hasElse = false) := by
  induction t with
  | leaf action =>
    cases action with
    | none => exact List.forall_mem_nil _
    | some e => exact List.forall_mem_singleton.mpr (throughout_iff.mpr ⟨rfl, List.forall_mem_nil _⟩)
  | onYes guard y ih => exact List.forall_mem_singleton.mpr (throughout_ifThen rfl rfl ih)
  | onNo guard n ih => exact List.forall_mem_singleton.mpr (throughout_ifThen rfl rfl ih)
  | fork guard y n ihy ihn => exact List.forall_mem_cons.mpr ⟨throughout_ifThen rfl rfl ihy, ihn⟩

/-- **Chains are flattened.** Whatever maker of switches there is, strict or not and whatever it has
on record, a tree becomes one statement at most, and nowhere in it does an `else` hold a block
around a single `if`. The guarded returns for a tree have no `else` anywhere. Every tree has
guarded returns, and it has the other statements unless the maker fails for one of its nodes; this
does not happen without a maker, nor if all guards are there and can be written. -/
theorem statements_flattened (t : DecisionTree) (place : Place) (maker : Option SwitchMaker) :
    (∀ body maker', t.ifChain place maker = .ok (body, maker') →
      body.length ≤ 1 ∧
      ∀ s ∈ body, ∀ part : Stmt, part.PartOf s → part.wrapsIf = false) ∧
    (∀ s ∈ t.earlyReturn, ∀ part : Stmt, part.PartOf s → part.hasElse = false) ∧
    (∀ e, t.ifChain place maker = .error e → ∃ m place', ∃ part ∈ t.nodes,
      SameMaker maker (some m) ∧ m.trySwitch place' part = .error e) ∧
    (maker = none ∨ t.Guarded (·.isPrintable = true) →
      ∃ body maker', t.ifChain place maker = .ok (body, maker')) :=
  ⟨fun _ _ h => ifChain_flat h, earlyReturn_noElse t, fun _ h => ifChain_eq_error h,
    fun h => ifChain_isOk h place⟩

-- where a guard is not there, its negation is not there either, and the `if` cannot be written
example (e : Expr) : (onNo none (leaf (some e))).ifChain {} none =
      .ok ([.ifThen none (.block [.action (some e)])], none) ∧
    (onNo none (leaf (some e))).earlyReturn = [.ifThen none (.block [.ret (some e)])] :=
  ⟨rfl, rfl⟩

end DecisionTree

namespace TwoSwitches

/-- The statement for the tree has a block with a switch behind its guard, and behind its `else` an
`if` that has the other switch behind an `else` of its own. The guarded returns are an `if` for each
guard on the way on which all of them fail, and the return at the end of it. -/
theorem tree_flattened :
    (∃ body maker', tree.ifChain {} (some maker) = .ok (body, maker') ∧ body.length = 1 ∧
      (body.flatMap Stmt.children).map Stmt.isIf = [false, true] ∧
      ∀ s ∈ body, ∀ part : Stmt, part.PartOf s → part.wrapsIf = false) ∧
    tree.earlyReturn.map Stmt.isIf = [true, true, true, true, false] ∧
      ∀ s ∈ tree.earlyReturn, ∀ part : Stmt, part.PartOf s → part.hasElse = false := by
  have hguarded : tree.Guarded (·.isPrintable = true) :=
    DecisionTree.guarded_ofExpr_isPrintable true (by decide)
  have hshape : (tree.ifChain {} (some maker)).toOption.map
      (fun r => (r.1.length, (r.1.flatMap Stmt.children).map Stmt.isIf)) =
        some (1, [false, true]) := by decide +kernel
  obtain ⟨hflat, hnoElse, -, hexists⟩ := DecisionTree.statements_flattened tree {} (some maker)
  obtain ⟨body, maker', hbody⟩ := hexists (.inr hguarded)
  rw [hbody] at hshape
  obtain ⟨hlength, hchildren⟩ := Prod.mk.inj (Option.some.inj hshape)
  exact ⟨⟨body, maker', hbody, hlength, hchildren, (hflat body maker' hbody).2⟩,
    by decide +kernel, hnoElse⟩

end TwoSwitches
end CondUnfold
