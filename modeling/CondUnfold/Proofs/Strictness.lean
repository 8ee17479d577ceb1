import CondUnfold.Proofs.IfChain
import CondUnfold.Proofs.SwitchShape

/-!
# Strict and permissive switches

The base of a switch is chosen before its arms are collected, and the choice does not hang on how
strict the maker is. What a strict maker is known to have checked once the arms are there is also all
that it asks for, whereas a permissive one asks for nothing (`collectArms_of_checked`). So a strict
maker makes a switch exactly where a permissive one does and the chain stands the checks
(`isSwitchFor_strict_iff`), and the two sets of arms differ only where a guard has no action
(`DecisionTree.map_opened_chainArms`).
-/

namespace CondUnfold

open Except

/-! ## What a strict maker asks for -/

theorem checkGuard_of_strict (base : Expr) (guard : Option Expr) {cs : List Comparison}
    (hne : cs ≠ []) (hop : ∀ c ∈ cs, c.op = "===") : checkGuard base guard cs = .ok () := by
  have hempty : cs.isEmpty = false := by simpa using hne
  have hfind : cs.find? (·.op == "==") = none := by
    apply List.find?_eq_none.mpr
    intro c hc
    simp [hop c hc]
  simp only [checkGuard, hempty, hfind, Bool.false_eq_true, if_false]
  rfl

theorem guardArms_of_single {strict : Bool} {yes : Option DecisionTree}
    (h : strict = true → ∀ t, yes = some t → t.isLeaf = true) (cs : List Comparison) :
    guardArms strict yes cs = .ok (caseArms (caseBody strict yes) cs) := by
  induction cs using guardArms.induct strict yes with
  | case1 => rfl
  | case2 c hyes =>
    simp only [guardArms, hyes, caseArms, caseBody, pure_eq_ok]
  | case3 c t hyes hnested =>
    rw [Bool.and_eq_true, Bool.not_eq_true'] at hnested
    cases hnested.2.symm.trans (h hnested.1 t hyes)
  | case4 c t hyes hsingle =>
    simp only [guardArms, hyes, hsingle, caseArms, caseBody, pure_eq_ok]
    rfl
  | case5 c cs hcs ih =>
    simp only [guardArms, ih, bind_ok_eq, pure_eq_ok, caseArms]

theorem armsOfGuard_of_checked {strict : Bool} {base e : Expr} {yes : Option DecisionTree}
    (hbase : base.isPrintable = true) (he : e.isPrintable = true)
    (hcompared : strict = true → ComparedStrictly base (some e))
    (hsingle : strict = true → ∀ t, yes = some t → t.isLeaf = true) :
    armsOfGuard strict base (some e) yes =
      .ok (caseArms (caseBody strict yes) (comparisonsIn base (some e))) := by
  obtain ⟨cs, hcs⟩ := comparisonsWith_isOk hbase he
  obtain rfl : cs = comparisonsIn base (some e) := comparisonsWith_eq hcs
  simp only [armsOfGuard, guardComparisons, hcs, mapError_ok, bind_ok_eq]
  cases strict with
  | false => exact guardArms_of_single hsingle _
  | true =>
    obtain ⟨hne, hop⟩ := hcompared rfl
    rw [if_pos rfl, checkGuard_of_strict base (some e) hne hop]
    exact guardArms_of_single hsingle _

theorem collectArms_of_checked {strict : Bool} {base : Expr} (hbase : base.isPrintable = true)
    {t : DecisionTree} (ht : t.Guarded (·.isPrintable = true))
    (hcompared : strict = true → ∀ g ∈ t.spine, ComparedStrictly base g)
    (hsingle : strict = true → t.SingleActions) :
    collectArms strict base t = .ok (t.chainArms strict base) := by
  induction t with
  | leaf action => rfl
  | onYes guard y _ =>
    obtain ⟨⟨e, rfl, he⟩, _⟩ := ht
    apply armsOfGuard_of_checked hbase he
    · intro hs
      exact hcompared hs (some e) List.mem_cons_self
    · rintro hs _ ⟨⟩
      exact hsingle hs
  | onNo guard n ih =>
    obtain ⟨⟨e, rfl, he⟩, hn⟩ := ht
    have hspine := fun hs => List.forall_mem_cons.mp (hcompared hs)
    have hnone : strict = true → ∀ t, (none : Option DecisionTree) = some t → t.isLeaf = true := by
      rintro _ _ ⟨⟩
    have harms := armsOfGuard_of_checked hbase he (fun hs => (hspine hs).1) hnone
    have hrest := ih hn (fun hs => (hspine hs).2) hsingle
    simp only [collectArms, harms, hrest, bind_ok_eq, pure_eq_ok, DecisionTree.chainArms]
  | fork guard y n _ ih =>
    obtain ⟨⟨e, rfl, he⟩, _, hn⟩ := ht
    have hspine := fun hs => List.forall_mem_cons.mp (hcompared hs)
    have hleaf : strict = true → ∀ t, some y = some t → t.isLeaf = true := by
      rintro hs _ ⟨⟩
      exact (hsingle hs).1
    have harms := armsOfGuard_of_checked hbase he (fun hs => (hspine hs).1) hleaf
    have hrest := ih hn (fun hs => (hspine hs).2) fun hs => (hsingle hs).2
    simp only [collectArms, harms, hrest, bind_ok_eq, pure_eq_ok, DecisionTree.chainArms]

/-! ## Arms without an action -/

/-- The arm as a permissive maker has it: where nothing but `break` stands in it, it is empty. -/
def Arm.opened : Arm Stmt → Arm Stmt
  | ⟨label, [.brk]⟩ => ⟨label, []⟩
  | a => a

theorem map_opened_caseArms (yes : Option DecisionTree) (cs : List Comparison) :
    (caseArms (caseBody true yes) cs).map Arm.opened = caseArms (caseBody false yes) cs := by
  induction cs using caseArms.induct with
  | case1 => rfl
  | case2 c => cases yes <;> rfl
  | case3 c cs _ ih =>
    simp only [caseArms, List.map_cons, ih]
    rfl

theorem DecisionTree.map_opened_chainArms (base : Expr) (t : DecisionTree) :
    (t.chainArms true base).map Arm.opened = t.chainArms false base := by
  induction t with
  | leaf action => rfl
  | onYes guard y _ => exact map_opened_caseArms (some y) _
  | onNo guard n ih => rw [chainArms, chainArms, List.map_append, map_opened_caseArms, ih]
  | fork guard y n _ ih => rw [chainArms, chainArms, List.map_append, map_opened_caseArms, ih]

/-! ## Switches -/

theorem IsSwitchFor.base_isPrintable {threshold : Int} {strict : Bool} {t : DecisionTree}
    {base : Expr} {arms : List (Arm Stmt)} (h : IsSwitchFor threshold strict t base arms) :
    base.isPrintable = true := by
  obtain ⟨text, htext⟩ := h.printable
  exact (Expr.alike_iff.mp ⟨text, htext, htext⟩).1

/-- **A strict maker makes a switch exactly where a permissive one does and the chain stands the
checks.** -/
theorem isSwitchFor_strict_iff {threshold : Int} {t : DecisionTree}
    (ht : t.Guarded (·.isPrintable = true)) {base : Expr} {arms : List (Arm Stmt)} :
    IsSwitchFor threshold true t base arms ↔ arms = t.chainArms true base ∧
      IsSwitchFor threshold false t base (arms.map Arm.opened) ∧
      (∀ g ∈ t.spine, ComparedStrictly base g) ∧ t.SingleActions := by
  constructor
  · intro h
    obtain ⟨rfl, hchecked⟩ := collectArms_eq h.collected
    refine ⟨rfl, ⟨h.notLeaf, h.found, ?_, h.printable⟩, hchecked rfl⟩
    rw [t.map_opened_chainArms base]
    apply collectArms_of_checked h.base_isPrintable ht
    · intro hfalse
      cases hfalse
    · intro hfalse
      cases hfalse
  · rintro ⟨rfl, h, hcompared, hsingle⟩
    refine ⟨h.notLeaf, h.found, ?_, h.printable⟩
    exact collectArms_of_checked h.base_isPrintable ht (fun _ => hcompared) fun _ => hsingle

/-- What a maker has found for a tree is the switch for the tree under its settings. -/
theorem SwitchMaker.found_iff {m m' : SwitchMaker} {place : Place} {t : DecisionTree}
    {found : Option (Expr × List (Arm Stmt))} (h : m.trySwitch place t = .ok (found, m'))
    {base : Expr} {arms : List (Arm Stmt)} :
    found = some (base, arms) ↔ IsSwitchFor m.threshold m.strict t base arms := by
  constructor
  · exact (trySwitch_cases h).2 base arms
  · intro hswitch
    obtain ⟨_, hfound⟩ := trySwitch_of_isSwitchFor place hswitch
    rw [h] at hfound
    exact (Prod.mk.inj (Except.ok.inj hfound)).1

/-- **Strict and permissive makers agree wherever the strict one accepts.** Take a strict and a
permissive maker with one threshold, whatever they have on record, and a tree whose guards can be
written. Both give an answer. The strict one makes a switch exactly if the permissive one does and,
for the base of that switch, every guard on the spine has a comparison with the base, has no other
than strict ones, and guards a single action or none. Then the switches have the same subject and the
same arms, except that `break` alone gives way to nothing. -/
theorem SwitchMaker.strict_agrees_with_permissive {m n : SwitchMaker} (hm : m.strict = true)
    (hn : n.strict = false) (hthreshold : n.threshold = m.threshold) {t : DecisionTree}
    (ht : t.Guarded (·.isPrintable = true)) (place place' : Place) :
    ∃ found found' m' n', m.trySwitch place t = .ok (found, m') ∧
      n.trySwitch place' t = .ok (found', n') ∧
      (found.isSome = true ↔ ∃ base arms, found' = some (base, arms) ∧
        (∀ g ∈ t.spine, ComparedStrictly base g) ∧ t.SingleActions) ∧
      ∀ base arms, found = some (base, arms) → found' = some (base, arms.map Arm.opened) := by
  obtain ⟨⟨found, m'⟩, hfound⟩ := m.trySwitch_isOk place ht
  obtain ⟨⟨found', n'⟩, hfound'⟩ := n.trySwitch_isOk place' ht
  have hstrict {base arms} : found = some (base, arms) ↔ arms = t.chainArms true base ∧
      found' = some (base, arms.map Arm.opened) ∧
      (∀ g ∈ t.spine, ComparedStrictly base g) ∧ t.SingleActions := by
    rw [found_iff hfound, found_iff hfound', hm, hn, hthreshold, isSwitchFor_strict_iff ht]
  refine ⟨found, found', m', n', hfound, hfound', ⟨?_, ?_⟩, ?_⟩
  · intro hsome
    obtain ⟨⟨base, arms⟩, hswitch⟩ := Option.isSome_iff_exists.mp hsome
    obtain ⟨_, hpermissive, hchecked⟩ := hstrict.mp hswitch
    exact ⟨base, _, hpermissive, hchecked⟩
  · rintro ⟨base, arms, hpermissive, hchecked⟩
    -- A permissive maker has no choice of the arms either.
    have hswitch := (found_iff hfound').mp hpermissive
    obtain ⟨rfl, _⟩ := collectArms_eq hswitch.collected
    rw [hn, ← t.map_opened_chainArms base] at hpermissive
    rw [hstrict.mpr ⟨rfl, hpermissive, hchecked⟩]
    rfl
  · intro base arms hswitch
    exact (hstrict.mp hswitch).2.1

namespace KindChain

open Sample

/-- The arms of a permissive maker; the one for the guard without an action is empty. -/
def openArms : List (Arm Stmt) :=
  [⟨some (.literal "1"), actionBody (act "f")⟩, ⟨some (.literal "2"), []⟩,
    ⟨some (act "next"), actionBody (act "g")⟩, ⟨some (.literal "3"), []⟩,
    ⟨none, actionBody (act "h")⟩]

end KindChain

/-- For the one chain both makers have a switch, and the arm with `break` alone becomes empty. The
other chain goes on behind a guard that holds, and only the permissive maker has a switch. -/
theorem strict_agrees_with_permissive_chains :
    (∃ m' n', (SwitchMaker.ofSettings 3 true).trySwitch {} (.ofExpr true KindChain.expr) =
        .ok (some (Sample.kind, KindChain.switchArms), m') ∧
      (SwitchMaker.ofSettings 3 false).trySwitch {} (.ofExpr true KindChain.expr) =
        .ok (some (Sample.kind, KindChain.openArms), n')) ∧
    ∃ m' n', (SwitchMaker.ofSettings 3 true).trySwitch {} DeepBranch.tree = .ok (none, m') ∧
      (SwitchMaker.ofSettings 3 false).trySwitch {} DeepBranch.tree =
        .ok (some (Sample.kind, DeepBranch.arms), n') := by
  constructor
  · have hguarded : (DecisionTree.ofExpr true KindChain.expr).Guarded (·.isPrintable = true) :=
      DecisionTree.guarded_ofExpr_isPrintable true (by decide)
    obtain ⟨found, found', m', n', hfound, hfound', _, hsame⟩ :=
      SwitchMaker.strict_agrees_with_permissive (m := .ofSettings 3 true) (n := .ofSettings 3 false)
        rfl rfl rfl hguarded {} {}
    have hswitch := (SwitchMaker.found_iff hfound).mpr KindChain.isSwitchFor_expr
    rw [hswitch] at hfound
    rw [hsame _ _ hswitch] at hfound'
    exact ⟨m', n', hfound, hfound'⟩
  · have hguarded : DeepBranch.tree.Guarded (·.isPrintable = true) := by
      simp [DeepBranch.tree, DecisionTree.Guarded, Sample.isKind, Sample.kind,
        Expr.isPrintable]
    obtain ⟨found, found', m', n', hfound, hfound', hiff, _⟩ :=
      SwitchMaker.strict_agrees_with_permissive (m := .ofSettings 3 true) (n := .ofSettings 3 false)
        rfl rfl rfl hguarded {} {}
    have hpermissive := (SwitchMaker.found_iff hfound').mpr DeepBranch.isSwitchFor_tree
    have hnone : found = none := by
      apply Option.not_isSome_iff_eq_none.mp
      intro hsome
      obtain ⟨_, _, _, _, hsingle⟩ := hiff.mp hsome
      cases hsingle.1
    rw [hnone] at hfound
    rw [hpermissive] at hfound'
    exact ⟨m', n', hfound, hfound'⟩

end CondUnfold
