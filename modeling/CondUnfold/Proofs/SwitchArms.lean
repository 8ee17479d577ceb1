import CondUnfold.Proofs.ChainDepth
import CondUnfold.Switch

/-!
# The arms of a switch

The arms that are collected for a chain are written down directly (`DecisionTree.chainArms`), with
what a strict maker has checked by then (`collectArms_eq`). Every disjunct that compares the base
has one label. A disjunct that does not compare it has none, and is lost where another disjunct of
its guard does; this cannot happen within the guards that reach the threshold.
-/

namespace CondUnfold

open Except

/-! ## Arms of one guard -/

/-- The comparisons with `base` in the disjuncts of a guard. -/
def comparisonsIn (base : Expr) (guard : Option Expr) : List Comparison :=
  (guardDisjuncts guard).filterMap (Expr.comparison? base)

/-- The arms for comparisons: a label each, and the body at the last of them. -/
def caseArms (body : List Stmt) : List Comparison → List (Arm Stmt)
  | [] => []
  | [c] => [⟨some c.value, body⟩]
  | c :: cs => ⟨some c.value, []⟩ :: caseArms body cs

/-- What is done where a guard holds. -/
def caseBody (strict : Bool) : Option DecisionTree → List Stmt
  | none => if strict then [.brk] else []
  | some t => actionBody t.condition

theorem caseArms_labels (body : List Stmt) (cs : List Comparison) :
    (caseArms body cs).filterMap (·.label) = cs.map (·.value) := by
  fun_induction caseArms body cs with
  | case1 => rfl
  | case2 c => rfl
  | case3 c cs _ ih => simp [ih]

theorem guardArms_eq {strict : Bool} {yes : Option DecisionTree} {cs : List Comparison}
    {arms : List (Arm Stmt)} (h : guardArms strict yes cs = .ok arms) :
    arms = caseArms (caseBody strict yes) cs ∧
      (strict = true → cs ≠ [] → ∀ t, yes = some t → t.isLeaf = true) := by
  induction cs using guardArms.induct strict yes generalizing arms with
  | case1 => cases h; exact ⟨rfl, fun _ hne => absurd rfl hne⟩
  | case2 c hyes =>
    simp only [guardArms, hyes] at h
    cases h
    exact ⟨by simp [caseArms, caseBody, hyes], fun _ _ t ht => nomatch hyes ▸ ht⟩
  | case3 c t hyes hnested =>
    simp only [guardArms, hyes, hnested, if_true, bind_eq_ok] at h
    obtain ⟨_, _, _, h, _⟩ := h
    cases h
  | case4 c t hyes hsingle =>
    simp only [guardArms, hyes, hsingle] at h
    cases h
    refine ⟨by simp [caseArms, caseBody, hyes], fun hstrict _ t' ht' => ?_⟩
    cases hyes ▸ ht'
    simpa [hstrict] using hsingle
  | case5 c cs hcs ih =>
    simp only [guardArms, bind_eq_ok] at h
    obtain ⟨rest, hrest, h⟩ := h
    obtain ⟨rfl, hleaf⟩ := ih hrest
    cases h
    exact ⟨by simp only [caseArms], fun hstrict _ => hleaf hstrict hcs⟩

theorem checkGuard_eq_ok {base : Expr} {guard : Option Expr} {cs : List Comparison}
    (h : checkGuard base guard cs = .ok ()) : cs ≠ [] ∧ ∀ c ∈ cs, c.op ≠ "==" := by
  cases hempty : cs.isEmpty with
  | true =>
    simp only [checkGuard, hempty, if_true, bind_eq_ok] at h
    obtain ⟨_, _, _, h, _⟩ := h
    cases h
  | false =>
    have hne : cs ≠ [] := by simpa using hempty
    cases hfind : cs.find? (·.op == "==") with
    | none => exact ⟨hne, fun c hc hop => List.find?_eq_none.mp hfind c hc (by simp [hop])⟩
    | some c =>
      simp only [checkGuard, hempty, hfind, Bool.false_eq_true, if_false, bind_eq_ok] at h
      obtain ⟨_, _, _, _, h⟩ := h
      cases h

/-- What a strict maker asks of a guard: there is a comparison with the base, and it is strict. -/
def ComparedStrictly (base : Expr) (guard : Option Expr) : Prop :=
  comparisonsIn base guard ≠ [] ∧ ∀ c ∈ comparisonsIn base guard, c.op = "==="

theorem armsOfGuard_eq {strict : Bool} {base : Expr} {guard : Option Expr}
    {yes : Option DecisionTree} {arms : List (Arm Stmt)}
    (h : armsOfGuard strict base guard yes = .ok arms) :
    arms = caseArms (caseBody strict yes) (comparisonsIn base guard) ∧
      (strict = true → ComparedStrictly base guard ∧ ∀ t, yes = some t → t.isLeaf = true) := by
  simp only [armsOfGuard, bind_eq_ok, mapError_eq_ok] at h
  obtain ⟨cs, hcs, h⟩ := h
  obtain rfl : cs = comparisonsIn base guard := guardComparisons_eq hcs
  cases strict with
  | false => exact ⟨(guardArms_eq h).1, nofun⟩
  | true =>
    obtain ⟨_, hcheck, h⟩ := bind_eq_ok.mp h
    obtain ⟨hne, hloose⟩ := checkGuard_eq_ok hcheck
    obtain ⟨harms, hleaf⟩ := guardArms_eq h
    refine ⟨harms, fun _ => ⟨⟨hne, fun c hc => ?_⟩, hleaf rfl hne⟩⟩
    obtain ⟨d, _, hd⟩ := List.mem_filterMap.mp hc
    have hop := (Expr.comparison?_eq_some hd).1
    simpa [Expr.isEqualityOperator, hloose c hc] using hop

/-! ## Arms of a chain -/

/-- The arms of a chain: those of the guards on its spine, and a `default` for the action at the
end. -/
def DecisionTree.chainArms (strict : Bool) (base : Expr) : DecisionTree → List (Arm Stmt)
  | .leaf action => [⟨none, actionBody action⟩]
  | .onYes guard y => caseArms (caseBody strict (some y)) (comparisonsIn base guard)
  | .onNo guard n =>
    caseArms (caseBody strict none) (comparisonsIn base guard) ++ n.chainArms strict base
  | .fork guard y n =>
    caseArms (caseBody strict (some y)) (comparisonsIn base guard) ++ n.chainArms strict base

theorem collectArms_eq {strict : Bool} {base : Expr} {t : DecisionTree} {arms : List (Arm Stmt)}
    (h : collectArms strict base t = .ok arms) :
    arms = t.chainArms strict base ∧
      (strict = true → (∀ g ∈ t.spine, ComparedStrictly base g) ∧ t.SingleActions) := by
  induction t generalizing arms with
  | leaf a => cases h; exact ⟨rfl, fun _ => ⟨nofun, trivial⟩⟩
  | onYes guard y _ =>
    obtain ⟨harms, hguard⟩ := armsOfGuard_eq h
    refine ⟨harms, fun hs => ⟨fun g hg => ?_, (hguard hs).2 y rfl⟩⟩
    cases List.mem_singleton.mp hg
    exact (hguard hs).1
  | onNo guard n ih =>
    simp only [collectArms, bind_eq_ok] at h
    obtain ⟨arms₁, h₁, arms₂, h₂, h⟩ := h
    obtain ⟨rfl, hguard⟩ := armsOfGuard_eq h₁
    obtain ⟨rfl, hrest⟩ := ih h₂
    cases h
    exact ⟨rfl, fun hs =>
      ⟨List.forall_mem_cons.mpr ⟨(hguard hs).1, (hrest hs).1⟩, (hrest hs).2⟩⟩
  | fork guard y n _ ih =>
    simp only [collectArms, bind_eq_ok] at h
    obtain ⟨arms₁, h₁, arms₂, h₂, h⟩ := h
    obtain ⟨rfl, hguard⟩ := armsOfGuard_eq h₁
    obtain ⟨rfl, hrest⟩ := ih h₂
    cases h
    exact ⟨rfl, fun hs => ⟨List.forall_mem_cons.mpr ⟨(hguard hs).1, (hrest hs).1⟩,
      (hguard hs).2 y rfl, (hrest hs).2⟩⟩

/-- The labels of a chain are the values that its guards compare the base with. -/
theorem DecisionTree.chainArms_labels (strict : Bool) (base : Expr) (t : DecisionTree) :
    (t.chainArms strict base).filterMap (·.label) =
      t.spine.flatMap fun g => (comparisonsIn base g).map (·.value) := by
  induction t with
  | leaf a => rfl
  | onYes guard y _ => simp [chainArms, spine, caseArms_labels]
  | onNo guard n ih | fork guard _ n _ ih => simp [chainArms, spine, caseArms_labels, ih]

/-! ## Switches that are made -/

theorem findBase_eq_some {threshold : Int} {t : DecisionTree} {bs : List Expr} {b : Expr}
    (h : findBase threshold t bs = .ok (some b)) :
    b ∈ bs ∧ ∃ d, chainDepth b t 0 = .ok d ∧ threshold ≤ d := by
  induction bs with
  | nil => cases h
  | cons a as ih =>
    simp only [findBase, bind_eq_ok] at h
    obtain ⟨d, hd, h⟩ := h
    split at h
    next hle => cases h; exact ⟨List.mem_cons_self, d, hd, hle⟩
    next => exact (ih h).imp_left (List.mem_cons_of_mem a)

/-- `base` and `arms` are the switch for the tree under the given settings. -/
structure IsSwitchFor (threshold : Int) (strict : Bool) (t : DecisionTree) (base : Expr)
    (arms : List (Arm Stmt)) : Prop where
  notLeaf : t.isLeaf = false
  found : ∃ bases, guardBases t.condition = .ok bases ∧ findBase threshold t bases = .ok (some base)
  collected : collectArms strict base t = .ok arms
  printable : ∃ text, base.render = .ok text

namespace SwitchMaker

/-- The two makers have the same settings. -/
def Agrees (m m' : SwitchMaker) : Prop := m'.threshold = m.threshold ∧ m'.strict = m.strict

theorem refuse_agrees (m : SwitchMaker) (place : Place) (base : String)
    (reason : Refusal.Reason) : m.Agrees (m.refuse place base reason) := by
  unfold refuse
  split <;> exact ⟨rfl, rfl⟩

/-- A maker keeps its settings, and the switch that it finds hangs on them alone. -/
theorem trySwitch_cases {m m' : SwitchMaker} {place : Place} {t : DecisionTree}
    {found : Option (Expr × List (Arm Stmt))} (h : m.trySwitch place t = .ok (found, m')) :
    m.Agrees m' ∧
      ∀ base arms, found = some (base, arms) → IsSwitchFor m.threshold m.strict t base arms := by
  unfold trySwitch at h
  split at h
  next => cases h; exact ⟨⟨rfl, rfl⟩, nofun⟩
  next hleaf =>
    obtain ⟨bases, hbases, h⟩ := bind_eq_ok.mp h
    cases bases with
    | nil => cases h; exact ⟨⟨rfl, rfl⟩, nofun⟩
    | cons first others =>
      obtain ⟨base?, hfind, h⟩ := bind_eq_ok.mp h
      cases base? with
      | none =>
        obtain ⟨text, _, h⟩ := bind_eq_ok.mp h
        cases h
        exact ⟨⟨rfl, rfl⟩, nofun⟩
      | some base =>
        cases harms : collectArms m.strict base t with
        | ok arms =>
          simp only [harms, bind_eq_ok] at h
          obtain ⟨text, htext, h⟩ := h
          cases h
          refine ⟨⟨rfl, rfl⟩, fun base' arms' heq => ?_⟩
          cases heq
          exact ⟨by simpa using hleaf, ⟨_, hbases, hfind⟩, harms, text, htext⟩
        | error stop =>
          cases stop with
          | failed e => simp only [harms] at h; cases h
          | refused reason =>
            simp only [harms, bind_eq_ok] at h
            obtain ⟨text, _, h⟩ := h
            cases h
            exact ⟨refuse_agrees m place text reason, nofun⟩

theorem trySwitch_of_isSwitchFor {m : SwitchMaker} {t : DecisionTree} {base : Expr}
    {arms : List (Arm Stmt)} (place : Place) (h : IsSwitchFor m.threshold m.strict t base arms) :
    ∃ m', m.trySwitch place t = .ok (some (base, arms), m') := by
  obtain ⟨bases, hbases, hfind⟩ := h.found
  obtain ⟨text, htext⟩ := h.printable
  cases bases with
  | nil => cases hfind
  | cons first others =>
    refine ⟨{ m with log := m.log ++ [.switchMade text arms.length] }, ?_⟩
    simp only [trySwitch, h.notLeaf, Bool.false_eq_true, if_false, hbases, bind_ok_eq, hfind,
      h.collected, htext, pure_eq_ok]

end SwitchMaker

namespace IsSwitchFor

variable {threshold : Int} {strict : Bool} {t : DecisionTree} {base : Expr}
  {arms : List (Arm Stmt)}

/-- The base is one of those of the guard at the root. -/
theorem mem_bases (h : IsSwitchFor threshold strict t base arms) :
    ∃ e bases, t.condition = some e ∧ comparisonBases e = .ok bases ∧ base ∈ bases := by
  obtain ⟨bases, hbases, hfind⟩ := h.found
  obtain ⟨hmem, _⟩ := findBase_eq_some hfind
  cases hcond : t.condition with
  | none =>
    rw [hcond] at hbases
    cases hbases
    cases hmem
  | some e =>
    rw [hcond] at hbases
    exact ⟨e, bases, rfl, hbases, hmem⟩

theorem isBase (h : IsSwitchFor threshold strict t base arms) : base.isBase = true := by
  obtain ⟨e, bases, _, hbases, hmem⟩ := h.mem_bases
  exact comparisonBases_isBase hbases hmem

/-- The guards up to the threshold test the base. -/
theorem testsBase_take (h : IsSwitchFor threshold true t base arms) {g : Option Expr}
    (hg : g ∈ t.spine.take threshold.toNat) : testsBase base g = .ok true := by
  obtain ⟨bases, _, hfind⟩ := h.found
  obtain ⟨_, d, hd, hle⟩ := findBase_eq_some hfind
  have hsingle := ((collectArms_eq h.collected).2 rfl).2
  refine chainDepth_testsBase hsingle (Int.le_refl 0) hd ?_
  have hsub : threshold.toNat ≤ (d - 0).toNat := by omega
  exact (List.take_sublist_take_left hsub).mem hg

end IsSwitchFor

/-- Where the comparisons of a guard are strict, a disjunct that compares the base does so
strictly. -/
theorem ComparedStrictly.strictly {base d : Expr} {g : Option Expr}
    (h : ComparedStrictly base g) (hd : d ∈ guardDisjuncts g) (hcmp : base.ComparesBase d) :
    base.ComparesStrictly d := by
  obtain ⟨c, hc⟩ := Option.isSome_iff_exists.mp (Expr.comparison?_isSome.mpr hcmp)
  have hop := h.2 c (List.mem_filterMap.mpr ⟨d, hd, hc⟩)
  obtain ⟨_, hcmp⟩ := Expr.comparison?_eq_some hc
  exact ⟨c.value, hop ▸ hcmp⟩

theorem Expr.ComparesStrictly.comparesBase {base d : Expr} (h : base.ComparesStrictly d) :
    base.ComparesBase d := by
  obtain ⟨value, h⟩ := h
  exact ⟨"===", value, rfl, h⟩

/-- Each disjunct of each guard has a label exactly if each of them compares the base. -/
theorem length_labels_eq_iff (base : Expr) (spine : List (Option Expr)) :
    (spine.flatMap fun g => (comparisonsIn base g).map (·.value)).length =
        (spine.flatMap guardDisjuncts).length ↔
      ∀ g ∈ spine, ∀ d ∈ guardDisjuncts g, base.ComparesBase d := by
  have hlabels : (spine.flatMap fun g => (comparisonsIn base g).map (·.value)) =
      ((spine.flatMap guardDisjuncts).filterMap (Expr.comparison? base)).map (·.value) := by
    simp only [List.filterMap_flatMap, List.map_flatMap, comparisonsIn]
  rw [hlabels, List.length_map, List.filterMap_length_eq_length]
  simp only [List.mem_flatMap, Expr.comparison?_isSome]
  exact ⟨fun h g hg d hd => h d ⟨g, hg, hd⟩, fun h d ⟨g, hg, hd⟩ => h g hg d hd⟩

/-- **What a strict maker keeps of the guards.** The labels of its switch are the values that the
disjuncts of the guards compare the base with, in their order; each guard has such a disjunct, and
only strict ones. In the guards that reach the threshold every disjunct compares the base. Behind
them nothing asks for this: the switch has a label for every disjunct exactly if all disjuncts of
the later guards compare the base. -/
theorem SwitchMaker.strict_labels_of_disjuncts {m m' : SwitchMaker} {place : Place}
    {t : DecisionTree} {base : Expr} {arms : List (Arm Stmt)} (hstrict : m.strict = true)
    (h : m.trySwitch place t = .ok (some (base, arms), m')) :
    arms.filterMap (·.label) = t.spine.flatMap (fun g => (comparisonsIn base g).map (·.value)) ∧
      (∀ g ∈ t.spine, (∃ d ∈ guardDisjuncts g, base.ComparesStrictly d) ∧
        ∀ d ∈ guardDisjuncts g, base.ComparesBase d → base.ComparesStrictly d) ∧
      (∀ g ∈ t.spine.take m.threshold.toNat, ∀ d ∈ guardDisjuncts g, base.ComparesStrictly d) ∧
      ((∀ g ∈ t.spine, ∀ d ∈ guardDisjuncts g, base.ComparesStrictly d) ↔
        ∀ g ∈ t.spine.drop m.threshold.toNat, ∀ d ∈ guardDisjuncts g, base.ComparesBase d) ∧
      ((∀ g ∈ t.spine, ∀ d ∈ guardDisjuncts g, base.ComparesStrictly d) ↔
        (arms.filterMap (·.label)).length = (t.spine.flatMap guardDisjuncts).length) := by
  have hswitch := (trySwitch_cases h).2 base arms rfl
  rw [hstrict] at hswitch
  obtain ⟨rfl, hguards⟩ := collectArms_eq hswitch.collected
  obtain ⟨hguards, -⟩ := hguards rfl
  have hstrictly : ∀ g ∈ t.spine, ∀ d ∈ guardDisjuncts g, base.ComparesBase d →
      base.ComparesStrictly d := fun g hg d hd => (hguards g hg).strictly hd
  have htake : ∀ g ∈ t.spine.take m.threshold.toNat, ∀ d ∈ guardDisjuncts g,
      base.ComparesStrictly d := fun g hg d hd =>
    hstrictly g (List.mem_of_mem_take hg) d hd (testsBase_compares (hswitch.testsBase_take hg) hd)
  have hlabels := t.chainArms_labels true base
  refine ⟨hlabels, fun g hg => ⟨?_, hstrictly g hg⟩, htake, ⟨?_, ?_⟩, ?_⟩
  · obtain ⟨c, hc⟩ := List.exists_mem_of_ne_nil _ (hguards g hg).1
    obtain ⟨d, hd, hdc⟩ := List.mem_filterMap.mp hc
    exact ⟨d, hd, hstrictly g hg d hd (Expr.comparison?_isSome.mp (by simp [hdc]))⟩
  · intro hall g hg d hd
    exact (hall g (List.mem_of_mem_drop hg) d hd).comparesBase
  · intro hdrop g hg d hd
    rw [← List.take_append_drop m.threshold.toNat t.spine, List.mem_append] at hg
    rcases hg with hg | hg
    · exact htake g hg d hd
    · exact hstrictly g (List.mem_of_mem_drop hg) d hd (hdrop g hg d hd)
  · rw [hlabels, length_labels_eq_iff]
    exact ⟨fun hall g hg d hd => (hall g hg d hd).comparesBase,
      fun hall g hg d hd => hstrictly g hg d hd (hall g hg d hd)⟩

/-- Three comparisons with `a`, and a fourth guard that asks for `a === 4` or for `b`. -/
def mixedChain : DecisionTree :=
  let isA (v : String) : Expr := .binary (.name "a") "===" (.literal v)
  let act (f : String) : Expr := .call (.name f) [] false
  .ofExpr true (.cond (isA "1") (act "f") (.cond (isA "2") (act "g") (.cond (isA "3") (act "h")
    (.cond (.logical (isA "4") "||" (.name "b")) (act "i") (act "j")))))

/-- The switch that is made of `mixedChain`. -/
def mixedSwitch : List (Arm Stmt) :=
  let case (v f : String) : Arm Stmt :=
    ⟨some (.literal v), [.action (some (.call (.name f) [] false)), .brk]⟩
  [case "1" "f", case "2" "g", case "3" "h", case "4" "i",
    ⟨none, [.action (some (.call (.name "j") [] false)), .brk]⟩]

theorem isSwitchFor_mixedChain : IsSwitchFor 3 true mixedChain (.name "a") mixedSwitch where
  notLeaf := rfl
  found := by
    have hbases (v : String) :
        comparisonBases (.binary (.name "a") "===" (.literal v)) = .ok [.name "a"] := by
      simp [comparisonBases, Expr.isEqualityOperator]
    have htests (v : String) :
        testsBase (.name "a") (some (.binary (.name "a") "===" (.literal v))) = .ok true :=
      testsBase_of_bases (hbases v) rfl
    have hmixed : testsBase (.name "a")
        (some (.logical (.binary (.name "a") "===" (.literal "4")) "||" (.name "b"))) =
          .ok false := by
      rw [testsBase, guardBases, comparisonBases, hbases]
      rfl
    refine ⟨_, hbases "1", ?_⟩
    simp only [findBase, mixedChain, DecisionTree.ofExpr, chainDepth, htests, hmixed, bind_ok_eq]
    rfl
  collected := rfl
  printable := ⟨"a", rfl⟩

/-- A strict maker accepts `mixedChain`, although a disjunct of its last guard does not compare the
base. -/
theorem strict_switch_loses_disjunct :
    (∃ m', (SwitchMaker.ofSettings 3 true).trySwitch {} mixedChain =
      .ok (some (.name "a", mixedSwitch), m')) ∧
    ∃ g ∈ mixedChain.spine, ∃ d ∈ guardDisjuncts g, ¬ (Expr.name "a").ComparesBase d := by
  refine ⟨SwitchMaker.trySwitch_of_isSwitchFor {} isSwitchFor_mixedChain, _,
    List.getLast_mem (l := mixedChain.spine) (List.cons_ne_nil _ _), .name "b", ?_, ?_⟩
  · exact List.mem_cons_of_mem _ List.mem_cons_self
  · exact fun h => nomatch Expr.comparison?_isSome.mpr h

/-- Of the five disjuncts of `mixedChain` four have a label. -/
theorem strict_labels_of_mixedChain :
    mixedSwitch.filterMap (·.label) =
        mixedChain.spine.flatMap (fun g => (comparisonsIn (.name "a") g).map (·.value)) ∧
      (∀ g ∈ mixedChain.spine.take 3, ∀ d ∈ guardDisjuncts g,
        (Expr.name "a").ComparesStrictly d) ∧
      ¬ ∀ g ∈ mixedChain.spine, ∀ d ∈ guardDisjuncts g, (Expr.name "a").ComparesStrictly d := by
  obtain ⟨m', hfound⟩ := SwitchMaker.trySwitch_of_isSwitchFor (m := .ofSettings 3 true) {}
    isSwitchFor_mixedChain
  obtain ⟨hlabels, _, htake, _, hcount⟩ := SwitchMaker.strict_labels_of_disjuncts rfl hfound
  exact ⟨hlabels, htake, fun hall => absurd (hcount.mp hall) (by decide)⟩

end CondUnfold
