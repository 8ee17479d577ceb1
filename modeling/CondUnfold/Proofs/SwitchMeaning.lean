import CondUnfold.Proofs.CallLog
import CondUnfold.Proofs.SwitchArms
import Mathlib.Data.List.Nodup

/-!
# A strict switch does what the chain does

The chain evaluates the base once for each comparison, the switch once at its start. Evaluating the
base has no effect, and evaluating the values that it is compared with leaves its value alone, so
down the chain the base keeps the value that the switch has found. Under this invariant
(`Evaluator.BaseIs`) a guard is a search among the values that it compares (`holds_eq_anyMatch`),
and the arms of a guard are the same search (`runSwitch_caseArms`). What is evaluated after the base
was read for the last time need not leave its value alone (`SearchesLast`).
-/

namespace CondUnfold

open Except

variable {σ ε ν : Type}

namespace Evaluator

variable (ev : Evaluator σ ε ν)

/-- The laws of comparisons and disjunctions, for the expressions of a class `P` that is closed under
parts: all expressions, or those that a program is made of. -/
structure Compares (P : Expr → Prop) : Prop where
  closed : ∀ e, P e → ∀ part ∈ e.children, P part
  /-- Expressions that are written alike are evaluated alike. -/
  alike : ∀ e f, P e → P f → e.Alike f → ev.eval e = ev.eval f
  strict : ∀ l r, P (.binary l "===" r) → ev.holds (.binary l "===" r) = do
    let v ← ev.eval l
    let w ← ev.eval r
    return ev.strictEq v w
  symm : ∀ v w, ev.strictEq v w = ev.strictEq w v
  or : ∀ l r, P (.logical l "||" r) → ev.eval (.logical l "||" r) = do
    let v ← ev.eval l
    if ev.truthy v then pure v else ev.eval r
  /-- Where no part has an effect, evaluation gives a value and keeps the state. -/
  quiet : ∀ e, P e → e.walk.any Expr.isEffectful = false →
    ∀ s, ∃ v, (ev.eval e).outcome s = (.ok v, s)

/-- Evaluating `value` does not change the value of `base`. -/
def Keeps (base value : Expr) : Prop :=
  ∀ s v s', (ev.eval value).outcome s = (.ok v, s') →
    ((ev.eval base).outcome s').1 = ((ev.eval base).outcome s).1

/-- What the comparison `d` evaluates before it reads the base does not change the value of the base. -/
def ReadsBase (base d : Expr) : Prop :=
  ∀ l op r, d = .binary l op r → l.Alike base ∨ ev.Keeps base l

/-- In the state `s` the base has the value `v`, and evaluating it has no effect. -/
def BaseIs (base : Expr) (v : ν) (s : σ) : Prop := (ev.eval base).outcome s = (.ok v, s)

/-- Evaluate the values of comparisons until one is strictly equal to `v`. -/
def anyMatch (v : ν) : List Comparison → Run σ ε Bool
  | [] => pure false
  | c :: cs => do
    let w ← ev.eval c.value
    if ev.strictEq v w then pure true else anyMatch v cs

theorem anyMatch_append (v : ν) (cs ds : List Comparison) :
    ev.anyMatch v (cs ++ ds) =
      (do if ← ev.anyMatch v cs then pure true else ev.anyMatch v ds) := by
  induction cs with
  | nil => rfl
  | cons c cs ih =>
    simp only [List.cons_append, anyMatch, bind_assoc]
    refine congrArg (ev.eval c.value >>= ·) (funext fun w => ?_)
    split
    next => rfl
    next => exact ih

variable {ev} {P : Expr → Prop} {base : Expr} {v : ν} {s s' : σ}

theorem Compares.of_mem_disjuncts (laws : ev.Compares P) {e d : Expr} (he : P e)
    (hd : d ∈ e.disjuncts) : P d := by
  induction e using Expr.guardInduction with
  | or l r ihl ihr =>
    rcases List.mem_append.mp hd with hd | hd
    · exact ihl (laws.closed _ he l (by simp [Expr.children])) hd
    · exact ihr (laws.closed _ he r (by simp [Expr.children])) hd
  | binary l op r => cases List.mem_singleton.mp hd; exact he
  | other e hnone => cases List.mem_singleton.mp (hnone.disjuncts ▸ hd); exact he

theorem Compares.holds_or (laws : ev.Compares P) {l r : Expr} (h : P (.logical l "||" r)) :
    ev.holds (.logical l "||" r) = (do if ← ev.holds l then pure true else ev.holds r) := by
  simp only [holds, laws.or l r h, map_eq_pure_bind, bind_assoc, pure_bind]
  refine congrArg (ev.eval l >>= ·) (funext fun x => ?_)
  cases hx : ev.truthy x <;> simp [hx]

theorem anyMatch_singleton (v : ν) (c : Comparison) :
    ev.anyMatch v [c] = (do return ev.strictEq v (← ev.eval c.value)) := by
  simp only [anyMatch]
  refine congrArg (ev.eval c.value >>= ·) (funext fun w => ?_)
  cases ev.strictEq v w <;> rfl

/-- Evaluating a value that keeps the base keeps the invariant. -/
theorem BaseIs.of_keeps (hquiet : ∀ s, ∃ v, (ev.eval base).outcome s = (.ok v, s))
    {value : Expr} {w : ν} (hkeeps : ev.Keeps base value) (hv : ev.BaseIs base v s)
    (h : (ev.eval value).outcome s = (.ok w, s')) : ev.BaseIs base v s' := by
  obtain ⟨v', hv'⟩ := hquiet s'
  have hsame := hkeeps s w s' h
  rw [hv, hv'] at hsame
  cases hsame
  exact hv'

theorem BaseIs.of_anyMatch (hquiet : ∀ s, ∃ v, (ev.eval base).outcome s = (.ok v, s))
    {cs : List Comparison} (hkeeps : ∀ c ∈ cs, ev.Keeps base c.value) (hv : ev.BaseIs base v s)
    {b : Bool} (h : (ev.anyMatch v cs).outcome s = (.ok b, s')) : ev.BaseIs base v s' := by
  induction cs generalizing s with
  | nil => cases h; exact hv
  | cons c cs ih =>
    rw [anyMatch, Run.outcome_bind] at h
    split at h
    next w s₁ hw =>
      have hv₁ := hv.of_keeps hquiet (hkeeps c List.mem_cons_self) hw
      split at h
      next => cases h; exact hv₁
      next => exact ih (fun c hc => hkeeps c (List.mem_cons_of_mem _ hc)) hv₁ h
    next => cases h

/-- Where a comparison leaves the base alone altogether, it does so before it reads the base. -/
theorem readsBase_of_keeps {d : Expr} (hstrict : base.ComparesStrictly d)
    (hkeeps : ∀ op value, base.Compares op value d → ev.Keeps base value) :
    ev.ReadsBase base d := by
  rintro l op r rfl
  obtain ⟨value, hcmp⟩ := hstrict
  cases hcmp with
  | left hl => exact .inl hl
  | right hr => exact .inr (hkeeps _ _ (.right hr))

/-- A comparison with the base, on whichever side the base stands, is the search for its value among
the one value that it is compared with. -/
theorem Compares.holds_comparison (laws : ev.Compares P) (hP : P base)
    (hquiet : ∀ s, ∃ v, (ev.eval base).outcome s = (.ok v, s)) {d : Expr} (hd : P d)
    (hstrict : base.ComparesStrictly d) (hreads : ev.ReadsBase base d) (hv : ev.BaseIs base v s) :
    (ev.holds d).outcome s =
      (ev.anyMatch v ([d].filterMap (Expr.comparison? base))).outcome s := by
  obtain ⟨value, hcmp⟩ := hstrict
  obtain ⟨l, r, rfl⟩ : ∃ l r, d = .binary l "===" r := by
    cases hcmp with
    | left | right => exact ⟨_, _, rfl⟩
  have hPl : P l := laws.closed _ hd l (by simp [Expr.children])
  have hPr : P r := laws.closed _ hd r (by simp [Expr.children])
  rw [laws.strict l r hd]
  by_cases hl : l.Alike base
  · have hc : [Expr.binary l "===" r].filterMap (Expr.comparison? base) = [⟨"===", r⟩] := by
      simp [Expr.comparison?, Expr.isEqualityOperator, hl]
    rw [hc, anyMatch_singleton, laws.alike l base hPl hP hl, Run.outcome_bind_ok hv]
  · have hr : r.Alike base := by
      cases hcmp with
      | left hl' => exact absurd hl' hl
      | right hr => exact hr
    have hc : [Expr.binary l "===" r].filterMap (Expr.comparison? base) = [⟨"===", l⟩] := by
      simp [Expr.comparison?, Expr.isEqualityOperator, hl, hr]
    rw [hc, anyMatch_singleton, laws.alike r base hPr hP hr, Run.outcome_bind, Run.outcome_bind]
    rcases hw : (ev.eval l).outcome s with ⟨e | w, s'⟩
    · rfl
    · have hv' := hv.of_keeps hquiet ((hreads l _ r rfl).resolve_left hl) hw
      refine (Run.outcome_bind_ok hv').trans ?_
      rw [laws.symm w v]

/-- **A guard whose disjuncts all compare the base is the search for the value of the base** among
the values that it is compared with. -/
theorem Compares.holds_eq_anyMatch (laws : ev.Compares P) (hP : P base)
    (hquiet : ∀ s, ∃ v, (ev.eval base).outcome s = (.ok v, s)) {e : Expr} (he : P e)
    (hstrict : ∀ d ∈ e.disjuncts, base.ComparesStrictly d)
    (hkeeps : ∀ d ∈ e.disjuncts.dropLast, ∀ op value, base.Compares op value d →
      ev.Keeps base value)
    (hreads : ∀ d ∈ e.disjuncts.getLast?, ev.ReadsBase base d) (hv : ev.BaseIs base v s) :
    (ev.holds e).outcome s =
      (ev.anyMatch v (e.disjuncts.filterMap (Expr.comparison? base))).outcome s := by
  induction e using Expr.guardInduction generalizing s with
  | or l r ihl ihr =>
    have hPl : P l := laws.closed _ he l (by simp [Expr.children])
    have hPr : P r := laws.closed _ he r (by simp [Expr.children])
    rw [Expr.disjuncts_or] at hstrict hkeeps hreads
    rw [List.dropLast_append_of_ne_nil r.disjuncts_ne_nil] at hkeeps
    rw [List.getLast?_append_of_ne_nil _ r.disjuncts_ne_nil] at hreads
    have hstrict := List.forall_mem_append.mp hstrict
    have hkeeps := List.forall_mem_append.mp hkeeps
    -- on the left nothing is the last, so that every value has to keep the base
    have hleft : ∀ d ∈ l.disjuncts.getLast?, ev.ReadsBase base d := by
      intro d hd
      have hmem := List.mem_of_getLast? hd
      exact readsBase_of_keeps (hstrict.1 d hmem) (hkeeps.1 d hmem)
    rw [Expr.disjuncts_or, List.filterMap_append, laws.holds_or he, anyMatch_append,
      Run.outcome_bind, Run.outcome_bind,
      ihl hPl hstrict.1 (fun d hd => hkeeps.1 d (List.dropLast_subset _ hd)) hleft hv]
    rcases hm : (ev.anyMatch v (l.disjuncts.filterMap (Expr.comparison? base))).outcome s
      with ⟨e | b, s'⟩
    · rfl
    · cases b with
      | true => rfl
      | false =>
        have hv' : ev.BaseIs base v s' := by
          refine hv.of_anyMatch hquiet (fun c hc => ?_) hm
          obtain ⟨d, hd, hdc⟩ := List.mem_filterMap.mp hc
          exact hkeeps.1 d hd _ _ (Expr.comparison?_eq_some hdc).2
        exact ihr hPr hstrict.2 hkeeps.2 hreads hv'
  | binary l op r =>
    exact laws.holds_comparison hP hquiet he (hstrict _ List.mem_cons_self) (hreads _ rfl) hv
  | other e hnone =>
    have hsome := Expr.comparison?_isSome.mpr (hstrict e (by simp [hnone.disjuncts])).comparesBase
    rw [hnone.comparison? base] at hsome
    cases hsome

/-! ## The arms of a guard -/

/-- Whichever arm of a guard is entered, its action is performed and the switch is left. -/
theorem inOrder_caseArms {body : List Stmt} {x : Run σ ε Unit}
    (hbody : ev.execAll body = x >>= fun _ => pure .brk) {cs : List Comparison} (hcs : cs ≠ [])
    (rest : List (Arm Stmt)) :
    Completion.inOrder ((ev.execArms (caseArms body cs ++ rest)).map Prod.snd) =
      x >>= fun _ => pure .brk := by
  fun_induction caseArms body cs with
  | case1 => exact absurd rfl hcs
  | case2 c =>
    simp only [List.singleton_append, execArms, List.map_cons, Completion.inOrder,
      Completion.andThen, hbody, bind_assoc, pure_bind]
  | case3 c cs hne ih => exact ih hne

/-- **The arms of a guard are the search for the value of the subject** among the values of the
guard's comparisons; where it fails, the arms behind them are next. -/
theorem runSwitch_caseArms {body : List Stmt} {x : Run σ ε Unit}
    (hbody : ev.execAll body = x >>= fun _ => pure .brk) {cs : List Comparison} (hcs : cs ≠ [])
    (rest : List (Arm Stmt)) :
    ev.runSwitch v (ev.execArms (caseArms body cs ++ rest)) =
      (do
        if ← ev.anyMatch v cs then Completion.normally x
        else ev.runSwitch v (ev.execArms rest)) := by
  -- What follows a match does not depend on which of the arms has matched.
  have hmatch : ∀ cs' ≠ [], Completion.ofSwitch <$>
      Completion.inOrder ((ev.execArms (caseArms body cs' ++ rest)).map Prod.snd) =
        Completion.normally x := by
    intro cs' hcs'
    rw [inOrder_caseArms hbody hcs' rest]
    simp only [map_bind, map_pure, Completion.ofSwitch, Completion.normally]
  induction cs using caseArms.induct with
  | case1 => exact absurd rfl hcs
  | case2 c =>
    have hone := hmatch [c] hcs
    simp only [caseArms, List.singleton_append, execArms, List.map_cons] at hone ⊢
    simp only [runSwitch_label, anyMatch, bind_assoc, hone]
    refine congrArg (ev.eval c.value >>= ·) (funext fun w => ?_)
    cases ev.strictEq v w <;> simp
  | case3 c cs hne ih =>
    have hfirst := hmatch (c :: cs) hcs
    simp only [caseArms, List.cons_append, execArms, List.map_cons] at hfirst ⊢
    simp only [runSwitch_label, anyMatch, bind_assoc, hfirst, ih hne]
    refine congrArg (ev.eval c.value >>= ·) (funext fun w => ?_)
    cases ev.strictEq v w <;> simp

/-! ## Chains -/

/-- A guard that can be taken for a search if the base is not read again after it: it is there and in
the class `P`, all of its disjuncts compare the base strictly, and no value that is evaluated before
the last of them reads the base changes the base. -/
structure SearchesLast (ev : Evaluator σ ε ν) (P : Expr → Prop) (base : Expr) (g : Option Expr) :
    Prop where
  inClass : ∀ e, g = some e → P e
  compared : comparisonsIn base g ≠ []
  strict : ∀ d ∈ guardDisjuncts g, base.ComparesStrictly d
  keepsBefore : ∀ d ∈ (guardDisjuncts g).dropLast, ∀ op value, base.Compares op value d →
    ev.Keeps base value
  reads : ∀ d ∈ (guardDisjuncts g).getLast?, ev.ReadsBase base d

/-- A guard that can be taken for a search wherever it stands: no value at all that its disjuncts
compare with changes the base. -/
structure Searches (ev : Evaluator σ ε ν) (P : Expr → Prop) (base : Expr) (g : Option Expr) :
    Prop where
  inClass : ∀ e, g = some e → P e
  compared : comparisonsIn base g ≠ []
  strict : ∀ d ∈ guardDisjuncts g, base.ComparesStrictly d
  keeps : ∀ d ∈ guardDisjuncts g, ∀ op value, base.Compares op value d → ev.Keeps base value

theorem Searches.searchesLast {g : Option Expr} (hg : ev.Searches P base g) :
    ev.SearchesLast P base g where
  inClass := hg.inClass
  compared := hg.compared
  strict := hg.strict
  keepsBefore d hd := hg.keeps d (List.dropLast_subset _ hd)
  reads d hd := by
    have hmem := List.mem_of_getLast? hd
    exact readsBase_of_keeps (hg.strict d hmem) (hg.keeps d hmem)

theorem SearchesLast.test_eq (laws : ev.Compares P) (hP : P base)
    (hquiet : ∀ s, ∃ v, (ev.eval base).outcome s = (.ok v, s)) {g : Option Expr}
    (hg : ev.SearchesLast P base g) (hv : ev.BaseIs base v s) :
    (ev.test g).outcome s = (ev.anyMatch v (comparisonsIn base g)).outcome s := by
  cases g with
  | none => exact absurd rfl hg.compared
  | some e =>
    exact laws.holds_eq_anyMatch hP hquiet (hg.inClass e rfl) hg.strict hg.keepsBefore hg.reads hv

/-- One guard of a chain against its arms in the switch, given the same for what is behind them. -/
theorem SearchesLast.runSwitch_guard (laws : ev.Compares P) (hP : P base)
    (hquiet : ∀ s, ∃ v, (ev.eval base).outcome s = (.ok v, s)) {g : Option Expr}
    (hg : ev.SearchesLast P base g) {body : List Stmt} {x y : Run σ ε Unit}
    (hbody : ev.execAll body = x >>= fun _ => pure .brk) {rest : List (Arm Stmt)}
    (hv : ev.BaseIs base v s)
    (hrest : ∀ s', (ev.anyMatch v (comparisonsIn base g)).outcome s = (.ok false, s') →
      (ev.runSwitch v (ev.execArms rest)).outcome s' = (Completion.normally y).outcome s') :
    (ev.runSwitch v (ev.execArms (caseArms body (comparisonsIn base g) ++ rest))).outcome s =
      (Completion.normally (do if ← ev.test g then x else y)).outcome s := by
  rw [runSwitch_caseArms hbody hg.compared, Completion.normally_branch, Run.outcome_bind,
    Run.outcome_bind, hg.test_eq laws hP hquiet hv]
  rcases hm : (ev.anyMatch v (comparisonsIn base g)).outcome s with ⟨e | b, s'⟩
  · rfl
  · cases b with
    | true => rfl
    | false => exact hrest s' hm

theorem execAll_actionBody (a : Option Expr) :
    ev.execAll (actionBody a) = ev.perform a >>= fun _ => pure .brk := by
  simp only [actionBody, execAll, exec, Completion.andThen, bind_assoc, pure_bind]

theorem execAll_brk : ev.execAll [.brk] = (pure () : Run σ ε Unit) >>= fun _ => pure .brk := rfl

theorem runSwitch_leaf (v : ν) (a : Option Expr) :
    ev.runSwitch v (ev.execArms ((DecisionTree.leaf a).chainArms true base)) =
      Completion.normally ((DecisionTree.leaf a).run ev) := by
  have hlast : ev.execAll (actionBody a) = _ := execAll_actionBody a
  simp only [DecisionTree.chainArms, DecisionTree.run, execArms, runSwitch, matching, fromDefault,
    Option.getD_none, List.map_nil, pure_bind, Completion.inOrder, hlast, Completion.andThen,
    bind_assoc, pure_bind, map_bind, map_pure, Completion.ofSwitch, Completion.normally]

/-- The guards of a chain can be taken for searches one after another. -/
def SearchesAlong (ev : Evaluator σ ε ν) (P : Expr → Prop) (base : Expr) :
    List (Option Expr) → Prop
  | [] => True
  | [g] => ev.SearchesLast P base g
  | g :: spine => ev.Searches P base g ∧ ev.SearchesAlong P base spine

namespace SearchesAlong

variable {g : Option Expr} {spine : List (Option Expr)}

theorem head (h : ev.SearchesAlong P base (g :: spine)) : ev.SearchesLast P base g := by
  cases spine with
  | nil => exact h
  | cons => exact h.1.searchesLast

theorem tail (h : ev.SearchesAlong P base (g :: spine)) : ev.SearchesAlong P base spine := by
  cases spine with
  | nil => trivial
  | cons => exact h.2

theorem searches (h : ev.SearchesAlong P base (g :: spine)) (hmore : spine ≠ []) :
    ev.Searches P base g := by
  cases spine with
  | nil => exact absurd rfl hmore
  | cons => exact h.1

/-- What is behind a guard that has failed does the same in the switch and in the tree: either there
are more guards, and then the failed one has kept the base, or there is one action. -/
theorem runSwitch_behind {n : DecisionTree} (h : ev.SearchesAlong P base (g :: n.spine))
    (hquiet : ∀ s, ∃ v, (ev.eval base).outcome s = (.ok v, s)) (hv : ev.BaseIs base v s)
    (hbehind : ∀ {s}, ev.BaseIs base v s →
      (ev.runSwitch v (ev.execArms (n.chainArms true base))).outcome s =
        (Completion.normally (n.run ev)).outcome s)
    (hfails : (ev.anyMatch v (comparisonsIn base g)).outcome s = (.ok false, s')) :
    (ev.runSwitch v (ev.execArms (n.chainArms true base))).outcome s' =
      (Completion.normally (n.run ev)).outcome s' := by
  have hmore (hspine : n.spine ≠ []) : ev.BaseIs base v s' := by
    refine hv.of_anyMatch hquiet (fun c hc => ?_) hfails
    obtain ⟨d, hd, hdc⟩ := List.mem_filterMap.mp hc
    exact (h.searches hspine).keeps d hd _ _ (Expr.comparison?_eq_some hdc).2
  cases n with
  | leaf a => rw [runSwitch_leaf]
  | onYes | onNo | fork => exact hbehind (hmore (List.cons_ne_nil _ _))

end SearchesAlong

/-- **Down a chain the switch and the decision tree do the same**, from every state in which the
base has the value that the switch was entered with. -/
theorem Compares.runSwitch_chainArms (laws : ev.Compares P) (hP : P base)
    (hquiet : ∀ s, ∃ v, (ev.eval base).outcome s = (.ok v, s)) {t : DecisionTree}
    (hsearch : ev.SearchesAlong P base t.spine) (hsingle : t.SingleActions)
    (hv : ev.BaseIs base v s) :
    (ev.runSwitch v (ev.execArms (t.chainArms true base))).outcome s =
      (Completion.normally (t.run ev)).outcome s := by
  induction t generalizing s with
  | leaf a => rw [runSwitch_leaf]
  | onYes guard y _ =>
    cases y with
    | leaf a =>
      rw [DecisionTree.chainArms, ← List.append_nil (caseArms _ _)]
      exact hsearch.head.runSwitch_guard laws hP hquiet (execAll_actionBody a) hv fun _ _ => rfl
    | onYes | onNo | fork => cases hsingle
  | onNo guard n ih =>
    refine hsearch.head.runSwitch_guard laws hP hquiet execAll_brk hv fun s' hfails => ?_
    exact hsearch.runSwitch_behind hquiet hv (ih hsearch.tail hsingle) hfails
  | fork guard y n _ ih =>
    obtain ⟨hleaf, hsingle⟩ := hsingle
    cases y with
    | leaf a =>
      refine hsearch.head.runSwitch_guard laws hP hquiet (execAll_actionBody a) hv
        fun s' hfails => ?_
      exact hsearch.runSwitch_behind hquiet hv (ih hsearch.tail hsingle) hfails
    | onYes | onNo | fork => cases hleaf

end Evaluator

variable {ev : Evaluator σ ε ν} {P : Expr → Prop} {t : DecisionTree} {base : Expr}
  {arms : List (Arm Stmt)}

theorem IsSwitchFor.base_inClass {threshold : Int} {strict : Bool} (laws : ev.Compares P)
    (h : IsSwitchFor threshold strict t base arms) (hclass : ∀ e, some e ∈ t.spine → P e) :
    P base := by
  obtain ⟨e, bases, hcond, hbases, hmem⟩ := h.mem_bases
  have hroot : some e ∈ t.spine := hcond ▸ DecisionTree.condition_mem_spine h.notLeaf
  obtain ⟨l, op, r, hd, hside⟩ := comparisonBases_side hbases hmem
  have hPd := laws.of_mem_disjuncts (hclass e hroot) hd
  refine laws.closed _ hPd base ?_
  rcases hside with rfl | rfl <;> simp [Expr.children]

/-- The chain of a strict switch is a chain of searches, if no disjunct is lost and no value changes
the base before the base is read for the last time. -/
theorem Evaluator.searchesAlong_of_disjuncts {spine : List (Option Expr)}
    (hclass : ∀ e, some e ∈ spine → P e) (hguards : ∀ g ∈ spine, ComparedStrictly base g)
    (hwhole : ∀ g ∈ spine, ∀ d ∈ guardDisjuncts g, base.ComparesBase d)
    (hkeeps : ∀ d ∈ (spine.flatMap guardDisjuncts).dropLast, ∀ op value,
      base.Compares op value d → ev.Keeps base value)
    (hreads : ∀ d ∈ (spine.flatMap guardDisjuncts).getLast?, ev.ReadsBase base d) :
    ev.SearchesAlong P base spine := by
  induction spine with
  | nil => trivial
  | cons g spine ih =>
    obtain ⟨hg, hguards'⟩ := List.forall_mem_cons.mp hguards
    obtain ⟨hwhole, hwhole'⟩ := List.forall_mem_cons.mp hwhole
    have hinClass : ∀ e, g = some e → P e := fun e he => hclass e (he ▸ List.mem_cons_self)
    have hstrict : ∀ d ∈ guardDisjuncts g, base.ComparesStrictly d :=
      fun d hd => hg.strictly hd (hwhole d hd)
    cases spine with
    | nil =>
      rw [List.flatMap_singleton] at hkeeps hreads
      exact ⟨hinClass, hg.1, hstrict, hkeeps, hreads⟩
    | cons g' spine =>
      -- there is a disjunct behind those of the first guard, so that none of these is the last
      have hmore : (g' :: spine).flatMap guardDisjuncts ≠ [] := by
        rw [List.flatMap_cons]
        refine List.append_ne_nil_of_left_ne_nil ?_ _
        intro hnil
        exact (List.forall_mem_cons.mp hguards').1.1 (by rw [comparisonsIn, hnil, List.filterMap_nil])
      rw [List.flatMap_cons, List.dropLast_append_of_ne_nil hmore] at hkeeps
      rw [List.flatMap_cons, List.getLast?_append_of_ne_nil _ hmore] at hreads
      obtain ⟨hkeeps, hkeeps'⟩ := List.forall_mem_append.mp hkeeps
      exact ⟨⟨hinClass, hg.1, hstrict, hkeeps⟩,
        ih (fun e he => hclass e (List.mem_cons_of_mem g he)) hguards' hwhole' hkeeps' hreads⟩

/-- A switch that passes the checks of a strict maker runs like the tree, if no disjunct is lost and
no value changes the base before the base is read for the last time. -/
theorem IsSwitchFor.exec_eq_of_reads {threshold : Int} (laws : ev.Compares P)
    (h : IsSwitchFor threshold true t base arms) (hclass : ∀ e, some e ∈ t.spine → P e)
    (hwhole : ∀ g ∈ t.spine, ∀ d ∈ guardDisjuncts g, base.ComparesBase d)
    (hkeeps : ∀ d ∈ (t.spine.flatMap guardDisjuncts).dropLast, ∀ op value,
      base.Compares op value d → ev.Keeps base value)
    (hreads : ∀ d ∈ (t.spine.flatMap guardDisjuncts).getLast?, ev.ReadsBase base d) :
    ev.exec (.switch base arms) = Completion.normally (t.run ev) := by
  have hP := h.base_inClass laws hclass
  have hquiet : ∀ s, ∃ v, (ev.eval base).outcome s = (.ok v, s) := by
    have hbase := h.isBase
    simp only [Expr.isBase, Bool.and_eq_true, Bool.not_eq_true'] at hbase
    exact laws.quiet base hP hbase.2
  obtain ⟨rfl, hchecked⟩ := collectArms_eq h.collected
  obtain ⟨hguards, hsingle⟩ := hchecked rfl
  have hsearch := Evaluator.searchesAlong_of_disjuncts hclass hguards hwhole hkeeps hreads
  refine Run.ext fun s => ?_
  obtain ⟨v, hv⟩ := hquiet s
  rw [Evaluator.exec, Run.outcome_bind_ok hv]
  exact laws.runSwitch_chainArms hP hquiet hsearch hsingle hv

/-- A switch that passes the checks of a strict maker runs like the tree, if no disjunct is lost and
no compared value changes the base. -/
theorem IsSwitchFor.exec_eq {threshold : Int} (laws : ev.Compares P)
    (h : IsSwitchFor threshold true t base arms) (hclass : ∀ e, some e ∈ t.spine → P e)
    (hwhole : ∀ g ∈ t.spine, ∀ d ∈ guardDisjuncts g, base.ComparesBase d)
    (hkeeps : ∀ g ∈ t.spine, ∀ d ∈ guardDisjuncts g, ∀ op value,
      base.Compares op value d → ev.Keeps base value) :
    ev.exec (.switch base arms) = Completion.normally (t.run ev) := by
  have hguards := ((collectArms_eq h.collected).2 rfl).1
  refine h.exec_eq_of_reads laws hclass hwhole (fun d hd => ?_) fun d hd => ?_
  · obtain ⟨g, hg, hd⟩ := List.mem_flatMap.mp (List.dropLast_subset _ hd)
    exact hkeeps g hg d hd
  · obtain ⟨g, hg, hd⟩ := List.mem_flatMap.mp (List.mem_of_getLast? hd)
    exact Evaluator.readsBase_of_keeps ((hguards g hg).strictly hd (hwhole g hg d hd))
      (hkeeps g hg d hd)

/-! ## A chain with all that can happen

The second guard of the chain has the base on either side and compares it with the result of a call;
the third has an action only where it fails. -/

/-- The laws hold of a script, for expressions that are told apart by their texts. -/
theorem Script.evaluator_compares (script : Script)
    (hclosed : ∀ e, P e → ∀ part ∈ e.children, P part)
    (happart : ∀ e f, P e → P f → e.text = f.text → e = f) : script.evaluator.Compares P where
  closed := hclosed
  alike e f he hf h := by
    obtain ⟨_, _, htext⟩ := Expr.alike_iff.mp h
    rw [happart e f he hf htext]
  strict l r _ := by
    change Value.truthy <$> (do return .bool ((← script.eval l) == (← script.eval r))) =
      do return (← script.eval l) == (← script.eval r)
    simp only [map_eq_pure_bind, bind_assoc, pure_bind, Value.truthy]
  symm v w := BEq.comm (a := v) (b := w)
  or l r _ := script.evaluator_shortCircuits.or l r
  quiet e _ h s := by
    obtain ⟨v, hv⟩ := script.eval_quiet e h
    exact ⟨v, by change (script.eval e).outcome s = _; rw [hv, Run.outcome_pure]⟩

/-- In a script no evaluation changes what a base stands for. -/
theorem Script.keeps (script : Script) {base : Expr} (h : base.isBase = true) (value : Expr) :
    script.evaluator.Keeps base value := by
  intro s v s' _
  simp only [Expr.isBase, Bool.and_eq_true, Bool.not_eq_true'] at h
  obtain ⟨w, hw⟩ := script.eval_quiet base h.2
  change ((script.eval base).outcome s').1 = ((script.eval base).outcome s).1
  rw [hw, Run.outcome_pure, Run.outcome_pure]

namespace KindChain

open Sample

def ready : Expr := .name "ready"
def isOne : Expr := isKind "1"
def isTwo : Expr := .binary (.literal "2") "===" kind
def isNext : Expr := .binary kind "===" (act "next")
def isThree : Expr := isKind "3"

/-- `kind === 1 ? f() : 2 === kind || kind === next() ? g() : kind === 3 || h()` -/
def expr : Expr :=
  .cond isOne (act "f")
    (.cond (.logical isTwo "||" isNext) (act "g") (.logical isThree "||" (act "h")))

/-- The same behind a further guard: `ready && (kind === 1 ? f() : …)` -/
def guardedExpr : Expr := .logical ready "&&" expr

/-- The guards and their parts. -/
def guardParts : List Expr :=
  [ready, kind, .literal "1", .literal "2", .literal "3", .name "next", act "next", isOne, isTwo,
    isNext, isThree, .logical isTwo "||" isNext]

def switchArms : List (Arm Stmt) :=
  [⟨some (.literal "1"), actionBody (act "f")⟩, ⟨some (.literal "2"), []⟩,
    ⟨some (act "next"), actionBody (act "g")⟩, ⟨some (.literal "3"), [.brk]⟩,
    ⟨none, actionBody (act "h")⟩]

/-- The base is 7 and `next()` gives 8, so that no guard holds. -/
def script : Script where
  vars x := if x == "kind" then .plain "7" else if x == "ready" then .bool true else .undefined
  calls f := .ok (if f == "next" then .plain "8" else .undefined)

def maker : SwitchMaker := .ofSettings 3 true

theorem isSwitchFor_expr : IsSwitchFor 3 true (.ofExpr true expr) kind switchArms where
  notLeaf := rfl
  found := by
    have hone : comparisonBases isOne = .ok [kind] := comparisonBases_isKind "1"
    have htwo : comparisonBases isTwo = .ok [kind] := by
      simp [isTwo, kind, comparisonBases, Expr.isEqualityOperator]
    have hnext : comparisonBases isNext = .ok [kind] := by
      simp [isNext, kind, act, comparisonBases, Expr.isEqualityOperator]
    have hthree : comparisonBases isThree = .ok [kind] := comparisonBases_isKind "3"
    have heither : comparisonBases (.logical isTwo "||" isNext) = .ok [kind] := by
      rw [comparisonBases, htwo, hnext]
      rfl
    have htree : DecisionTree.ofExpr true expr = .fork (some isOne) (.leaf (act "f"))
      (.fork (some (.logical isTwo "||" isNext)) (.leaf (act "g"))
        (.onNo (some isThree) (.leaf (act "h")))) := rfl
    refine ⟨_, hone, ?_⟩
    simp only [findBase, htree, chainDepth, testsBase_of_bases hone rfl,
      testsBase_of_bases heither rfl, testsBase_of_bases hthree rfl, bind_ok_eq]
    rfl
  collected := rfl
  printable := ⟨"kind", rfl⟩

theorem trySwitch_expr (place : Place) :
    ∃ m', maker.trySwitch place (.ofExpr true expr) = .ok (some (kind, switchArms), m') :=
  SwitchMaker.trySwitch_of_isSwitchFor place isSwitchFor_expr

theorem compares (script : Script) : script.evaluator.Compares (· ∈ guardParts) := by
  have htexts : (guardParts.map Expr.text).Nodup := by decide
  refine script.evaluator_compares ?_ fun e f he hf => List.inj_on_of_nodup_map htexts he hf
  simp [guardParts, Expr.children, ready, kind, isKind, act, isOne, isTwo, isNext, isThree]

theorem spine_inClass (e : Expr) (h : some e ∈ (DecisionTree.ofExpr true expr).spine) :
    e ∈ guardParts := by
  have hspine : (DecisionTree.ofExpr true expr).spine =
    [some isOne, some (.logical isTwo "||" isNext), some isThree] := rfl
  rw [hspine] at h
  simp only [List.mem_cons, Option.some.injEq, List.not_mem_nil, or_false] at h
  rcases h with rfl | rfl | rfl <;> simp [guardParts]

end KindChain

/-- **A switch that a strict maker makes does what the decision tree does**, from every state: it
ends in the same state, with the same exception if there is one. -/
theorem SwitchMaker.strict_switch_runs_like_tree (laws : ev.Compares P) {m m' : SwitchMaker}
    {place : Place} (hstrict : m.strict = true)
    (h : m.trySwitch place t = .ok (some (base, arms), m'))
    (hclass : ∀ e, some e ∈ t.spine → P e)
    (hwhole : ∀ g ∈ t.spine, ∀ d ∈ guardDisjuncts g, base.ComparesBase d)
    (hkeeps : ∀ g ∈ t.spine, ∀ d ∈ guardDisjuncts g, ∀ op value,
      base.Compares op value d → ev.Keeps base value) (s : σ) :
    (ev.exec (.switch base arms)).outcome s = (Completion.normally (t.run ev)).outcome s := by
  have hswitch := (trySwitch_cases h).2 base arms rfl
  rw [hstrict] at hswitch
  rw [hswitch.exec_eq laws hclass hwhole hkeeps]

namespace KindChain

open Sample

/-- Neither the switch nor the chain finds a match; both call `next` for the one label that has to
be computed, and end with `h`. -/
theorem strict_switch_runs_like_chain :
    (script.evaluator.exec (.switch kind switchArms)).outcome [] =
        (Completion.normally ((DecisionTree.ofExpr true expr).run script.evaluator)).outcome [] ∧
      (script.evaluator.exec (.switch kind switchArms)).outcome [] =
        (.ok .normal, ["next", "h"]) := by
  have hwhole := (length_labels_eq_iff kind (DecisionTree.ofExpr true expr).spine).mp (by decide)
  obtain ⟨m', hfound⟩ := trySwitch_expr {}
  have hrun := SwitchMaker.strict_switch_runs_like_tree (compares script) rfl hfound
    spine_inClass hwhole (fun _ _ _ _ _ value _ => script.keeps isSwitchFor_expr.isBase value) []
  exact ⟨hrun, rfl⟩

end KindChain
end CondUnfold
