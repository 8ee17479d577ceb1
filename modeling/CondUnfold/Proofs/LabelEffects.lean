import CondUnfold.Proofs.SwitchMeaning

/-!
# Labels with effects

Nothing in the subject of a switch has an effect, but a label may: the values that the base is compared
with are not looked into, and they become labels as they are. A call in a label may assign to the base.
The chain reads the base again for its next comparison, and the switch does not. The two agree if no
label but the last has an effect and the last comparison reads the base before anything else happens
(`SwitchMaker.strict_labels_with_calls`); a strict maker asks for neither.
-/

namespace CondUnfold

open Except

namespace Expr

/-- A call stands somewhere in the expression. -/
def HasCall (e : Expr) : Prop := ∃ callee args optional, (Expr.call callee args optional).PartOf e

theorem not_hasCall_literal (text : String) : ¬ (Expr.literal text).HasCall := by
  rintro ⟨_, _, _, hpart⟩
  cases hpart with
  | inside hchild => cases hchild

/-- The comparison `d` has the base on its left, or else nothing on its left has an effect, so that
nothing has happened when it reads the base. -/
def ReadFirstIn (base d : Expr) : Prop :=
  ∀ l op r, d = .binary l op r → l.Alike base ∨ l.walk.any isEffectful = false

/-- What a disjunct compares the base with is its label, unless it is the base once more. -/
theorem Compares.label_or_alike {base value d : Expr} {op : String} (h : base.Compares op value d)
    (hop : isEqualityOperator op = true) :
    (∃ c, comparison? base d = some c ∧ c.value = value) ∨ value.Alike base := by
  cases h with
  | left hl => exact .inl ⟨⟨op, value⟩, by simp [comparison?, hop, hl], rfl⟩
  | right hr =>
    by_cases hl : value.Alike base
    · exact .inr hl
    · exact .inl ⟨⟨op, value⟩, by simp [comparison?, hop, hl, hr], rfl⟩

end Expr

/-- The comparisons with the base along a chain, in the order in which they are made. -/
def DecisionTree.comparisons (base : Expr) (t : DecisionTree) : List Comparison :=
  (t.spine.flatMap guardDisjuncts).filterMap (Expr.comparison? base)

theorem DecisionTree.labels_eq_comparisons (strict : Bool) (base : Expr) (t : DecisionTree) :
    (t.chainArms strict base).filterMap (·.label) = (t.comparisons base).map (·.value) := by
  rw [chainArms_labels, comparisons, List.filterMap_flatMap, List.map_flatMap]
  rfl

/-- Where all disjuncts compare the base, those before the last give the comparisons before the
last. -/
theorem comparison_mem_dropLast {base d : Expr} {ds : List Expr} {c : Comparison}
    (hwhole : ∀ d ∈ ds, base.ComparesBase d) (hd : d ∈ ds.dropLast)
    (hc : Expr.comparison? base d = some c) :
    c ∈ (ds.filterMap (Expr.comparison? base)).dropLast := by
  have hne : ds ≠ [] := by
    rintro rfl
    cases hd
  obtain ⟨last, hlast⟩ := Option.isSome_iff_exists.mp
    (Expr.comparison?_isSome.mpr (hwhole _ (List.getLast_mem hne)))
  rw [← List.dropLast_append_getLast hne, List.filterMap_append, List.filterMap_cons_some hlast,
    List.filterMap_nil, List.dropLast_concat]
  exact List.mem_filterMap.mpr ⟨d, hd, hc⟩

namespace Evaluator

variable {σ ε ν : Type} {ev : Evaluator σ ε ν} {P : Expr → Prop} {base value d : Expr}

/-- An expression whose evaluation changes no state changes no base. -/
theorem keeps_of_quiet (h : ∀ s, ∃ v, (ev.eval value).outcome s = (.ok v, s)) :
    ev.Keeps base value := by
  intro s v s' heval
  obtain ⟨w, hw⟩ := h s
  cases hw.symm.trans heval
  rfl

theorem Compares.keeps (laws : ev.Compares P) (hvalue : P value)
    (hquiet : value.walk.any Expr.isEffectful = false) : ev.Keeps base value :=
  keeps_of_quiet (laws.quiet value hvalue hquiet)

theorem Compares.keeps_alike (laws : ev.Compares P) (hP : P base) (hvalue : P value)
    (hbase : base.isBase = true) (halike : value.Alike base) : ev.Keeps base value := by
  simp only [Expr.isBase, Bool.and_eq_true, Bool.not_eq_true'] at hbase
  apply keeps_of_quiet
  rw [laws.alike value base hvalue hP halike]
  exact laws.quiet base hP hbase.2

/-- Both sides of a comparison of the class are in the class. -/
theorem Compares.of_compares (laws : ev.Compares P) {op : String} (hd : P d)
    (hcmp : base.Compares op value d) : P value := by
  cases hcmp with
  | left => exact laws.closed _ hd value (by simp [Expr.children])
  | right => exact laws.closed _ hd value (by simp [Expr.children])

theorem Compares.readsBase (laws : ev.Compares P) (hd : P d) (hfirst : base.ReadFirstIn d) :
    ev.ReadsBase base d := by
  rintro l op r rfl
  refine (hfirst l op r rfl).imp_right fun hquiet => ?_
  exact laws.keeps (laws.closed _ hd l (by simp [Expr.children])) hquiet

end Evaluator

/-- A strict switch runs like the tree if no disjunct is lost, no label but the last has an effect, and
the last comparison reads the base first. -/
theorem IsSwitchFor.exec_eq_of_quiet_labels {σ ε ν : Type} {ev : Evaluator σ ε ν}
    {P : Expr → Prop} (laws : ev.Compares P) {threshold : Int} {t : DecisionTree} {base : Expr}
    {arms : List (Arm Stmt)} (h : IsSwitchFor threshold true t base arms)
    (hclass : ∀ e, some e ∈ t.spine → P e)
    (hwhole : ∀ g ∈ t.spine, ∀ d ∈ guardDisjuncts g, base.ComparesBase d)
    (hquiet : ∀ label ∈ (arms.filterMap (·.label)).dropLast,
      label.walk.any Expr.isEffectful = false)
    (hfirst : ∀ d ∈ (t.spine.flatMap guardDisjuncts).getLast?, base.ReadFirstIn d) :
    ev.exec (.switch base arms) = Completion.normally (t.run ev) := by
  have hP := h.base_inClass laws hclass
  have hdisjunct : ∀ d ∈ t.spine.flatMap guardDisjuncts, P d ∧ base.ComparesBase d := by
    intro d hd
    obtain ⟨g, hg, hd⟩ := List.mem_flatMap.mp hd
    cases g with
    | none => cases hd
    | some e => exact ⟨laws.of_mem_disjuncts (hclass e hg) hd, hwhole _ hg d hd⟩
  obtain ⟨rfl, hchecked⟩ := collectArms_eq h.collected
  rw [DecisionTree.labels_eq_comparisons] at hquiet
  refine h.exec_eq_of_reads laws hclass hwhole ?_ ?_
  · intro d hd op value hcmp
    obtain ⟨hPd, op', value', hop', hcmp'⟩ := hdisjunct d (List.dropLast_subset _ hd)
    have hop : Expr.isEqualityOperator op = true := by
      cases hcmp <;> cases hcmp' <;> exact hop'
    have hvalue := laws.of_compares hPd hcmp
    obtain ⟨c, hc, rfl⟩ | halike := hcmp.label_or_alike hop
    · have hlabel : c.value ∈ ((t.comparisons base).map (·.value)).dropLast := by
        rw [← List.map_dropLast]
        apply List.mem_map_of_mem
        exact comparison_mem_dropLast (fun d hd => (hdisjunct d hd).2) hd hc
      exact laws.keeps hvalue (hquiet _ hlabel)
    · exact laws.keeps_alike hP hvalue h.isBase halike
  · intro d hd
    exact laws.readsBase (hdisjunct d (List.mem_of_getLast? hd)).1 (hfirst d hd)

/-- **A strict maker does not look into the values.** The values that the chain compares the base with
become the labels, in their order; so a label other than the last has a call in it exactly if a
comparison other than the last compares the base with something that calls. What the maker does not
ask for would be enough: if no label but the last has an effect, the last comparison reads the base
first and no disjunct is lost, then the switch does what the tree does. -/
theorem SwitchMaker.strict_labels_with_calls {m m' : SwitchMaker} {place : Place}
    {t : DecisionTree} {base : Expr} {arms : List (Arm Stmt)} (hstrict : m.strict = true)
    (h : m.trySwitch place t = .ok (some (base, arms), m')) :
    arms.filterMap (·.label) = (t.comparisons base).map (·.value) ∧
      ((∃ label ∈ (arms.filterMap (·.label)).dropLast, label.HasCall) ↔
        ∃ c ∈ (t.comparisons base).dropLast, c.value.HasCall) ∧
      ∀ {σ ε ν : Type} {ev : Evaluator σ ε ν} {P : Expr → Prop}, ev.Compares P →
        (∀ e, some e ∈ t.spine → P e) →
        (∀ g ∈ t.spine, ∀ d ∈ guardDisjuncts g, base.ComparesBase d) →
        (∀ label ∈ (arms.filterMap (·.label)).dropLast,
          label.walk.any Expr.isEffectful = false) →
        (∀ d ∈ (t.spine.flatMap guardDisjuncts).getLast?, base.ReadFirstIn d) →
        ∀ s, (ev.exec (.switch base arms)).outcome s =
          (Completion.normally (t.run ev)).outcome s := by
  have hswitch := (trySwitch_cases h).2 base arms rfl
  rw [hstrict] at hswitch
  have hlabels : arms.filterMap (·.label) = (t.comparisons base).map (·.value) := by
    obtain ⟨rfl, _⟩ := collectArms_eq hswitch.collected
    exact t.labels_eq_comparisons true base
  refine ⟨hlabels, ?_, ?_⟩
  · rw [hlabels, ← List.map_dropLast]
    simp only [List.mem_map, exists_exists_and_eq_and]
  · intro σ ε ν ev P laws hclass hwhole hquiet hfirst s
    rw [hswitch.exec_eq_of_quiet_labels laws hclass hwhole hquiet hfirst]

/-! ## A call that assigns to the base -/

namespace Reassigned

open Sample (act)

def a : Expr := .name "a"
def two : Expr := .literal "2"
def three : Expr := .literal "3"
def next : Expr := act "next"
def isA (value : Expr) : Expr := .binary a "===" value

/-- `a === u ? x() : a === v ? y() : a === w ? z() : other()` -/
def chain (u v w : Expr) : DecisionTree :=
  .ofExpr true
    (.cond (isA u) (act "x") (.cond (isA v) (act "y") (.cond (isA w) (act "z") (act "other"))))

def arms (u v w : Expr) : List (Arm Stmt) :=
  [⟨some u, actionBody (act "x")⟩, ⟨some v, actionBody (act "y")⟩,
    ⟨some w, actionBody (act "z")⟩, ⟨none, actionBody (act "other")⟩]

theorem isSwitchFor_chain {u v w : Expr} (hu : u.isBase = false) (hv : v.isBase = false)
    (hw : w.isBase = false) : IsSwitchFor 3 true (chain u v w) a (arms u v w) where
  notLeaf := rfl
  found := by
    have hbases {value : Expr} (h : value.isBase = false) :
        comparisonBases (isA value) = .ok [a] := by
      simp [isA, a, comparisonBases, Expr.isEqualityOperator, h]
    have htests {value : Expr} (h : value.isBase = false) :
        testsBase a (some (isA value)) = .ok true :=
      testsBase_of_bases (hbases h) rfl
    refine ⟨_, hbases hu, ?_⟩
    simp only [findBase, chain, DecisionTree.ofExpr, chainDepth, htests hu, htests hv, htests hw,
      bind_ok_eq]
    rfl
  collected := rfl
  printable := ⟨"a", rfl⟩

theorem trySwitch_chain {u v w : Expr} (hu : u.isBase = false) (hv : v.isBase = false)
    (hw : w.isBase = false) : ∃ m', (SwitchMaker.ofSettings 3 true).trySwitch {} (chain u v w) =
      .ok (some (a, arms u v w), m') :=
  SwitchMaker.trySwitch_of_isSwitchFor {} (isSwitchFor_chain hu hv hw)

/-- The state is the value of `a` and the calls made so far. A call of `next` assigns 2 to `a`, and
every call gives 7. -/
def eval : Expr → Run (Value × List String) String Value
  | .literal text => pure (.ofLiteral text)
  | .name _ => .ofOutcome fun s => (.ok s.1, s)
  | .binary l _ r => do return .bool ((← eval l) == (← eval r))
  | .call callee _ _ => .ofOutcome fun s =>
    (.ok (.plain "7"), if callee.text == "next" then .plain "2" else s.1, s.2 ++ [callee.text])
  | .raw .. | .unary .. | .logical .. | .cond .. | .member .. | .index .. | .sequence _ =>
    pure .undefined

def evaluator : Evaluator (Value × List String) String Value where
  eval := eval
  truthy := Value.truthy
  nullish := Value.nullish
  strictEq := (· == ·)

theorem eval_quiet (e : Expr) (h : e.walk.any Expr.isEffectful = false) (s : Value × List String) :
    ∃ v, (eval e).outcome s = (.ok v, s) := by
  induction e using eval.induct with
  | case3 l op r ihl ihr =>
    obtain ⟨_, hparts⟩ := Expr.walk_any_eq_false h
    obtain ⟨v, hv⟩ := ihl (hparts l (by simp [Expr.children]))
    obtain ⟨w, hw⟩ := ihr (hparts r (by simp [Expr.children]))
    exact ⟨.bool (v == w), by rw [eval, Run.outcome_bind_ok hv, Run.outcome_bind_ok hw]; rfl⟩
  | case4 =>
    obtain ⟨hnode, _⟩ := Expr.walk_any_eq_false h
    cases hnode
  | _ => exact ⟨_, rfl⟩

/-- The guards of the chains below and their parts. -/
def guardParts : List Expr :=
  [a, two, three, .name "next", next, isA two, isA three, isA next]

theorem compares : evaluator.Compares (· ∈ guardParts) where
  closed := by simp [guardParts, Expr.children, a, two, three, next, act, isA]
  alike e f he hf h := by
    have htexts : (guardParts.map Expr.text).Nodup := by decide
    obtain ⟨_, _, htext⟩ := Expr.alike_iff.mp h
    rw [List.inj_on_of_nodup_map htexts he hf htext]
  strict l r _ := by
    change Value.truthy <$> (do return .bool ((← eval l) == (← eval r))) =
      do return (← eval l) == (← eval r)
    simp only [map_eq_pure_bind, bind_assoc, pure_bind, Value.truthy]
  symm v w := BEq.comm (a := v) (b := w)
  or l r h := by simp [guardParts, a, two, three, next, act, isA] at h
  quiet e _ h s := eval_quiet e h s

theorem spine_inClass {u v w : Expr}
    (h : isA u ∈ guardParts ∧ isA v ∈ guardParts ∧ isA w ∈ guardParts) (e : Expr)
    (he : some e ∈ (chain u v w).spine) : e ∈ guardParts := by
  have hspine : (chain u v w).spine = [some (isA u), some (isA v), some (isA w)] := rfl
  rw [hspine] at he
  simp only [List.mem_cons, Option.some.injEq, List.not_mem_nil, or_false] at he
  obtain ⟨hu, hv, hw⟩ := h
  rcases he with rfl | rfl | rfl
  · exact hu
  · exact hv
  · exact hw

/-- A strict maker accepts `a === next() ? x() : a === 2 ? y() : a === 3 ? z() : other()`, although its
first label calls. The chain reads `a` again after `next` has assigned to it, and comes to `y()`; the
switch compares with what `a` was before, and comes to `other()`. -/
theorem strict_switch_ignores_assignment :
    (∃ m', (SwitchMaker.ofSettings 3 true).trySwitch {} (chain next two three) =
      .ok (some (a, arms next two three), m')) ∧
    (∃ label ∈ ((arms next two three).filterMap (·.label)).dropLast, label.HasCall) ∧
    evaluator.Compares (· ∈ guardParts) ∧
    (∀ e, some e ∈ (chain next two three).spine → e ∈ guardParts) ∧
    (((chain next two three).run evaluator).outcome (.plain "1", [])).2 =
      (.plain "2", ["next", "y"]) ∧
    ((evaluator.exec (.switch a (arms next two three))).outcome (.plain "1", [])).2 =
      (.plain "2", ["next", "other"]) := by
  refine ⟨trySwitch_chain (Expr.isBase_call ..) rfl rfl, ?_, compares, ?_, rfl, rfl⟩
  · exact ⟨next, List.mem_cons_self, _, _, _, .self⟩
  · exact spine_inClass (by simp [guardParts])

/-- Where the call is in the last label, nothing reads `a` after it, and both come to `other()`. -/
theorem strict_labels_with_last_call :
    (∃ m', (SwitchMaker.ofSettings 3 true).trySwitch {} (chain two three next) =
      .ok (some (a, arms two three next), m')) ∧
    (¬ ∃ c ∈ ((chain two three next).comparisons a).dropLast, c.value.HasCall) ∧
    (evaluator.exec (.switch a (arms two three next))).outcome (.plain "1", []) =
      (Completion.normally ((chain two three next).run evaluator)).outcome (.plain "1", []) ∧
    ((evaluator.exec (.switch a (arms two three next))).outcome (.plain "1", [])).2 =
      (.plain "2", ["next", "other"]) := by
  obtain ⟨m', hfound⟩ :=
    trySwitch_chain (u := two) (v := three) (w := next) rfl rfl (Expr.isBase_call ..)
  obtain ⟨_, hcalls, hruns⟩ := SwitchMaker.strict_labels_with_calls rfl hfound
  have hlabels : ((arms two three next).filterMap (·.label)).dropLast = [two, three] := rfl
  have hspine : (chain two three next).spine =
    [some (isA two), some (isA three), some (isA next)] := rfl
  have ha : a.Alike a := ⟨"a", rfl, rfl⟩
  have hcompares (value : Expr) : ∀ d ∈ guardDisjuncts (some (isA value)), a.ComparesBase d :=
    List.forall_mem_singleton.mpr ⟨"===", value, rfl, .left ha⟩
  have hquiet (text : String) : (Expr.literal text).walk.any Expr.isEffectful = false := by
    rw [Expr.walk_eq]
    rfl
  refine ⟨⟨m', hfound⟩, ?_, ?_, rfl⟩
  · rw [← hcalls, hlabels]
    rintro ⟨label, hlabel, hcall⟩
    simp only [List.mem_cons, List.not_mem_nil, or_false] at hlabel
    rcases hlabel with rfl | rfl
    · exact Expr.not_hasCall_literal "2" hcall
    · exact Expr.not_hasCall_literal "3" hcall
  · rw [hlabels] at hruns
    apply hruns compares
    · exact spine_inClass (by simp [guardParts])
    · rw [hspine]
      simp only [List.forall_mem_cons]
      exact ⟨hcompares two, hcompares three, hcompares next, List.forall_mem_nil _⟩
    · simp only [List.forall_mem_cons]
      exact ⟨hquiet "2", hquiet "3", List.forall_mem_nil _⟩
    · rintro d ⟨⟩ l op r ⟨⟩
      exact .inl ha

end Reassigned
end CondUnfold
