import CondUnfold.Proofs.Bases
import CondUnfold.Proofs.SwitchMeaning

/-!
# The shape of a switch

The arms of a guard have labels, and only the action at the end of a chain has none; so whatever is
collected from a chain has its `default` arm at the end (`DecisionTree.chainArms_inOrder`). How many
labels there are is another matter. A chain is measured along any way through the tree, whereas arms
are made only for the guards on its spine. A strict maker refuses the chains for which the two could
differ: behind a guard that holds it has a single action, so that no way is longer than the spine
(`chainDepth_le_spine`), and each guard on the spine has a label.
-/

namespace CondUnfold

open Except

/-- What stands in an arm: nothing, so that the arm behind it is entered, or `break`, or an action
and then `break`. -/
inductive ArmBody : List Stmt → Prop where
  | empty : ArmBody []
  | leave : ArmBody [.brk]
  | act (e : Option Expr) : ArmBody [.action e, .brk]

/-- Every arm but the last one has a label, and the bodies are those of arms. -/
structure ArmsInOrder (arms : List (Arm Stmt)) : Prop where
  defaultLast : ∀ a ∈ arms.dropLast, a.isDefault = false
  bodies : ∀ a ∈ arms, ArmBody a.body

/-- The arms are in order and some arm has a label, and the subject may be evaluated once in place of
once for each comparison. -/
structure WellFormedSwitch (subject : Expr) (arms : List (Arm Stmt)) : Prop
    extends ArmsInOrder arms where
  subject : subject.Subject
  labelled : ∃ a ∈ arms, a.isDefault = false

theorem ArmsInOrder.append {arms rest : List (Arm Stmt)}
    (h : ∀ a ∈ arms, a.isDefault = false ∧ ArmBody a.body) (hrest : ArmsInOrder rest) :
    ArmsInOrder (arms ++ rest) where
  defaultLast := by
    intro a ha
    rw [List.dropLast_append] at ha
    split at ha
    · exact (h a (List.dropLast_subset arms ha)).1
    · rcases List.mem_append.mp ha with ha | ha
      · exact (h a ha).1
      · exact hrest.defaultLast a ha
  bodies := List.forall_mem_append.mpr ⟨fun a ha => (h a ha).2, hrest.bodies⟩

theorem armsInOrder_nil : ArmsInOrder [] :=
  ⟨List.forall_mem_nil _, List.forall_mem_nil _⟩

/-! ## The arms of one guard -/

theorem armBody_caseBody (strict : Bool) (yes : Option DecisionTree) :
    ArmBody (caseBody strict yes) := by
  cases yes with
  | none =>
    cases strict with
    | true => exact .leave
    | false => exact .empty
  | some t => exact .act t.condition

theorem mem_caseArms {body : List Stmt} (hbody : ArmBody body) {cs : List Comparison} :
    ∀ a ∈ caseArms body cs, a.isDefault = false ∧ ArmBody a.body := by
  fun_induction caseArms body cs with
  | case1 => exact List.forall_mem_nil _
  | case2 c => exact List.forall_mem_singleton.mpr ⟨rfl, hbody⟩
  | case3 c cs _ ih => exact List.forall_mem_cons.mpr ⟨⟨rfl, .empty⟩, ih⟩

theorem getLast?_caseArms (body : List Stmt) {cs : List Comparison} (hcs : cs ≠ []) :
    ∃ a, (caseArms body cs).getLast? = some a ∧ a.body = body := by
  fun_induction caseArms body cs with
  | case1 => exact absurd rfl hcs
  | case2 c => exact ⟨_, rfl, rfl⟩
  | case3 c cs hne ih =>
    obtain ⟨a, ha, hbody⟩ := ih hne
    exact ⟨a, by rw [List.getLast?_cons, ha, Option.getD_some], hbody⟩

theorem caseBody_strict_ne_nil (yes : Option DecisionTree) : caseBody true yes ≠ [] := by
  cases yes <;> exact List.cons_ne_nil _ _

/-! ## The arms of a chain -/

namespace DecisionTree

theorem chainArms_inOrder (strict : Bool) (base : Expr) (t : DecisionTree) :
    ArmsInOrder (t.chainArms strict base) := by
  induction t with
  | leaf action =>
    exact ⟨List.forall_mem_nil _, List.forall_mem_singleton.mpr (.act action)⟩
  | onYes guard y _ =>
    rw [chainArms, ← List.append_nil (caseArms _ _)]
    exact .append (mem_caseArms (armBody_caseBody strict (some y))) armsInOrder_nil
  | onNo guard n ih => exact .append (mem_caseArms (armBody_caseBody strict none)) ih
  | fork guard y n _ ih => exact .append (mem_caseArms (armBody_caseBody strict (some y))) ih

/-- The last arm of a strict switch is not empty. -/
theorem getLast?_chainArms {base : Expr} {t : DecisionTree}
    (hspine : ∀ g ∈ t.spine, comparisonsIn base g ≠ []) :
    ∃ a, (t.chainArms true base).getLast? = some a ∧ a.body ≠ [] := by
  induction t with
  | leaf action => exact ⟨_, rfl, List.cons_ne_nil _ _⟩
  | onYes guard y _ =>
    obtain ⟨a, ha, hbody⟩ :=
      getLast?_caseArms (caseBody true (some y)) (hspine guard List.mem_cons_self)
    exact ⟨a, ha, hbody ▸ caseBody_strict_ne_nil (some y)⟩
  | onNo guard n ih | fork guard _ n _ ih =>
    obtain ⟨a, ha, hbody⟩ := ih (List.forall_mem_cons.mp hspine).2
    exact ⟨a, by rw [chainArms, List.getLast?_append, ha, Option.some_or], hbody⟩

end DecisionTree

theorem length_le_labels {base : Expr} {spine : List (Option Expr)}
    (h : ∀ g ∈ spine, comparisonsIn base g ≠ []) :
    spine.length ≤ (spine.flatMap fun g => (comparisonsIn base g).map (·.value)).length := by
  induction spine with
  | nil => exact Nat.le_refl 0
  | cons g spine ih =>
    obtain ⟨hg, hspine⟩ := List.forall_mem_cons.mp h
    have hlabel : 0 < (comparisonsIn base g).length := List.length_pos_of_ne_nil hg
    have hlabels := ih hspine
    rw [List.flatMap_cons, List.length_append, List.length_map, List.length_cons]
    omega

/-! ## Switches that are made -/

namespace IsSwitchFor

variable {threshold : Int} {strict : Bool} {t : DecisionTree} {base : Expr}
  {arms : List (Arm Stmt)}

/-- The guard at the root compares the base that was found in it. -/
theorem compares_root (h : IsSwitchFor threshold strict t base arms) :
    comparisonsIn base t.condition ≠ [] := by
  obtain ⟨e, bases, hcond, hbases, hmem⟩ := h.mem_bases
  obtain ⟨text, htext⟩ := h.printable
  rw [hcond]
  obtain ⟨d, hd⟩ := List.exists_mem_of_ne_nil _ e.disjuncts_ne_nil
  have hcmp := comparisonBases_compares hbases hmem ⟨text, htext, htext⟩ hd
  obtain ⟨c, hc⟩ := Option.isSome_iff_exists.mp (Expr.comparison?_isSome.mpr hcmp)
  exact List.ne_nil_of_mem (List.mem_filterMap.mpr ⟨d, hd, hc⟩)

theorem wellFormed (h : IsSwitchFor threshold strict t base arms) :
    WellFormedSwitch base arms := by
  obtain ⟨rfl, _⟩ := collectArms_eq h.collected
  refine ⟨t.chainArms_inOrder strict base, Expr.isBase_iff.mp h.isBase, ?_⟩
  obtain ⟨c, hc⟩ := List.exists_mem_of_ne_nil _ h.compares_root
  have hlabel : c.value ∈ (t.chainArms strict base).filterMap (·.label) := by
    rw [t.chainArms_labels strict base]
    apply List.mem_flatMap.mpr
    exact ⟨_, DecisionTree.condition_mem_spine h.notLeaf, List.mem_map_of_mem hc⟩
  obtain ⟨a, ha, hlabel⟩ := List.mem_filterMap.mp hlabel
  exact ⟨a, ha, by rw [Arm.isDefault, hlabel]; rfl⟩

/-- A strict switch has at least one label for each guard of the spine. -/
theorem threshold_le_labels (h : IsSwitchFor threshold true t base arms) :
    max 1 threshold ≤ ((arms.filterMap (·.label)).length : Int) := by
  obtain ⟨rfl, hchecked⟩ := collectArms_eq h.collected
  obtain ⟨hspine, hsingle⟩ := hchecked rfl
  obtain ⟨bases, _, hfind⟩ := h.found
  obtain ⟨_, d, hd, hle⟩ := findBase_eq_some hfind
  have hdepth := chainDepth_le_spine hsingle (Int.le_refl 0) hd
  have hroot : 0 < t.spine.length :=
    List.length_pos_of_mem (DecisionTree.condition_mem_spine h.notLeaf)
  have hlabels := length_le_labels fun g hg => (hspine g hg).1
  rw [t.chainArms_labels true base]
  omega

end IsSwitchFor

/-- **Every switch that is made is well formed**, whatever the maker has on record: its subject may be
evaluated once instead of many times, it has a label, a `default` arm only at the end, and bodies
that leave the switch or have nothing in them. If the maker is strict, then the last arm leaves the
switch as well, and there are at least as many labels as the threshold asks for guards. -/
theorem SwitchMaker.trySwitch_wellFormed {m m' : SwitchMaker} {place : Place} {t : DecisionTree}
    {base : Expr} {arms : List (Arm Stmt)}
    (h : m.trySwitch place t = .ok (some (base, arms), m')) :
    WellFormedSwitch base arms ∧
      (m.strict = true →
        (∃ a, arms.getLast? = some a ∧ a.body ≠ []) ∧
        max 1 m.threshold ≤ ((arms.filterMap (·.label)).length : Int)) := by
  have hswitch := (trySwitch_cases h).2 base arms rfl
  refine ⟨hswitch.wellFormed, ?_⟩
  intro hstrict
  rw [hstrict] at hswitch
  refine ⟨?_, hswitch.threshold_le_labels⟩
  obtain ⟨rfl, hchecked⟩ := collectArms_eq hswitch.collected
  exact DecisionTree.getLast?_chainArms fun g hg => ((hchecked rfl).1 g hg).1

/-! ## A chain that leaves the spine -/

namespace DeepBranch

open Sample

/-- `kind === 1 ? (kind === 2 ? (kind === 3 ? f() : g()) : h()) : kind === 4 || (ready && i())` -/
def tree : DecisionTree :=
  .fork (isKind "1")
    (.fork (isKind "2") (.fork (isKind "3") (.leaf (act "f")) (.leaf (act "g"))) (.leaf (act "h")))
    (.onNo (isKind "4") (.onYes (some (.name "ready")) (.leaf (act "i"))))

def arms : List (Arm Stmt) :=
  [⟨some (.literal "1"), actionBody (isKind "2")⟩, ⟨some (.literal "4"), []⟩]

theorem isSwitchFor_tree : IsSwitchFor 3 false tree kind arms where
  notLeaf := rfl
  found := by
    have hready : testsBase kind (some (.name "ready")) = .ok false := rfl
    refine ⟨_, comparisonBases_isKind "1", ?_⟩
    simp only [findBase, tree, chainDepth, testsBase_isKind, hready, bind_ok_eq]
    rfl
  collected := rfl
  printable := ⟨"kind", rfl⟩

/-- With the guards of the inner branches the chain reaches the threshold. A permissive maker makes a
switch of it that has two labels and nothing in its last arm. The switch of a strict maker for another
chain has more labels than guards, and something to do in its last arm. -/
theorem trySwitch_deep_and_strict_wellFormed :
    (∃ m', (SwitchMaker.ofSettings 3 false).trySwitch {} tree = .ok (some (kind, arms), m')) ∧
      WellFormedSwitch kind arms ∧ (arms.filterMap (·.label)).length = 2 ∧
      (arms.getLast?.map fun a => a.body.length) = some 0 ∧
    (∃ m', KindChain.maker.trySwitch {} (.ofExpr true KindChain.expr) =
      .ok (some (kind, KindChain.switchArms), m')) ∧
      WellFormedSwitch kind KindChain.switchArms ∧
      (∃ a, KindChain.switchArms.getLast? = some a ∧ a.body ≠ []) ∧
      3 ≤ (KindChain.switchArms.filterMap (·.label)).length := by
  obtain ⟨m', hdeep⟩ :=
    SwitchMaker.trySwitch_of_isSwitchFor (m := .ofSettings 3 false) {} isSwitchFor_tree
  obtain ⟨n', hstrict⟩ := KindChain.trySwitch_expr {}
  obtain ⟨hwell, hmore⟩ := SwitchMaker.trySwitch_wellFormed hstrict
  obtain ⟨hlast, hlabels⟩ := hmore rfl
  exact ⟨⟨m', hdeep⟩, (SwitchMaker.trySwitch_wellFormed hdeep).1, rfl, rfl, ⟨n', hstrict⟩, hwell,
    hlast, Int.ofNat_le.mp hlabels⟩

end DeepBranch
end CondUnfold
