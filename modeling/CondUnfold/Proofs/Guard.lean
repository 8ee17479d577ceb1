import CondUnfold.Comparison
import CondUnfold.Proofs.Fallible
import CondUnfold.Proofs.Samples
import CondUnfold.Proofs.Walk

/-!
# Guards as disjunctions of comparisons

A guard is read as the list of its disjuncts (`Expr.disjuncts`), and a chain as the list of the
guards that are met while each of them fails (`DecisionTree.spine`). The comparisons that are
collected from a guard are those of its disjuncts (`comparisonsWith_eq`), whereas a guard that tests
a base has no disjunct without a comparison (`testsBase_compares`). The two differ.
-/

namespace CondUnfold

open Except

/-! ## Expressions that are written alike -/

namespace Expr

/-- The two expressions have the same text. -/
def Alike (e f : Expr) : Prop := ∃ t, e.render = .ok t ∧ f.render = .ok t

theorem Alike.trans {e f g : Expr} : e.Alike f → f.Alike g → e.Alike g := by
  rintro ⟨t, he, hf⟩ ⟨u, hf', hg⟩
  cases hf.symm.trans hf'
  exact ⟨t, he, hg⟩

theorem alike_iff {e f : Expr} :
    e.Alike f ↔ e.isPrintable ∧ f.isPrintable ∧ e.text = f.text := by
  constructor
  · rintro ⟨t, he, hf⟩
    simp only [render] at he hf
    split at he <;> split at hf <;> simp_all
  · rintro ⟨he, hf, h⟩
    exact ⟨f.text, by simp [render, he, h], by simp [render, hf]⟩

instance (e f : Expr) : Decidable (e.Alike f) := decidable_of_iff _ alike_iff.symm

theorem same_eq_ok {e f : Expr} {b : Bool} (h : e.same f = .ok b) : b = true ↔ e.Alike f := by
  simp only [same, bind_eq_ok, pure_eq_ok] at h
  obtain ⟨t, ht, u, hu, h⟩ := h
  cases h
  constructor
  · intro heq
    cases eq_of_beq heq
    exact ⟨t, ht, hu⟩
  · rintro ⟨t', ht', hu'⟩
    cases ht.symm.trans ht'
    cases hu.symm.trans hu'
    exact beq_self_eq_true t

theorem findText_eq_some {t : String} {candidates : List Expr} {c : Expr}
    (h : findText t candidates = .ok (some c)) : c ∈ candidates ∧ c.render = .ok t := by
  induction candidates with
  | nil => simp [findText] at h
  | cons e es ih =>
    simp only [findText, bind_eq_ok] at h
    obtain ⟨u, hu, h⟩ := h
    split at h
    next heq =>
      cases h
      cases eq_of_beq heq
      exact ⟨List.mem_cons_self, hu⟩
    next => exact (ih h).imp_left (List.mem_cons_of_mem e)

theorem findSame_eq_some {e c : Expr} {candidates : List Expr}
    (h : e.findSame candidates = .ok (some c)) : c ∈ candidates ∧ c.Alike e := by
  simp only [findSame, bind_eq_ok] at h
  obtain ⟨t, ht, h⟩ := h
  obtain ⟨hc, hr⟩ := findText_eq_some h
  exact ⟨hc, t, hr, ht⟩

theorem findText_eq_none {t : String} {candidates : List Expr} {c : Expr}
    (h : findText t candidates = .ok none) (hc : c ∈ candidates) : c.render ≠ .ok t := by
  induction candidates with
  | nil => cases hc
  | cons e es ih =>
    simp only [findText, bind_eq_ok] at h
    obtain ⟨u, hu, h⟩ := h
    split at h
    next => cases h
    next hne =>
      rcases List.mem_cons.mp hc with rfl | hc
      · intro hr
        cases hu.symm.trans hr
        exact hne (beq_self_eq_true t)
      · exact ih h hc

theorem findSame_eq_none {e c : Expr} {candidates : List Expr}
    (h : e.findSame candidates = .ok none) (hc : c ∈ candidates) : ¬ c.Alike e := by
  simp only [findSame, bind_eq_ok] at h
  obtain ⟨t, ht, h⟩ := h
  rintro ⟨u, hr, hu⟩
  cases ht.symm.trans hu
  exact findText_eq_none h hc hr

/-! ## Disjuncts -/

/-- The operands of a disjunction, from left to right, whichever way it is nested. -/
def disjuncts : Expr → List Expr
  | .logical l op r => if op == "||" then l.disjuncts ++ r.disjuncts else [.logical l op r]
  | e => [e]

/-- `base.Compares op value d` says that `d` is the comparison of `base` with `value` by `op`,
either way round. -/
inductive Compares (base : Expr) (op : String) : Expr → Expr → Prop where
  | left : l.Alike base → Compares base op r (.binary l op r)
  | right : r.Alike base → Compares base op l (.binary l op r)

/-- `d` compares `base` with something by `==` or `===`. -/
def ComparesBase (base d : Expr) : Prop :=
  ∃ op value, isEqualityOperator op = true ∧ base.Compares op value d

/-- `d` compares `base` with something by `===`. -/
def ComparesStrictly (base d : Expr) : Prop := ∃ value, base.Compares "===" value d

/-- The comparison that is read off a disjunct; where both sides are the base, the value is the one
on the right. -/
def comparison? (base : Expr) : Expr → Option Comparison
  | .binary l op r =>
    if isEqualityOperator op then
      if l.Alike base then some ⟨op, r⟩
      else if r.Alike base then some ⟨op, l⟩
      else none
    else none
  | _ => none

theorem comparison?_eq_some {base d : Expr} {c : Comparison} (h : comparison? base d = some c) :
    isEqualityOperator c.op = true ∧ base.Compares c.op c.value d := by
  unfold comparison? at h
  split at h
  next l op r =>
    split at h
    next hop =>
      split at h
      next hl => cases h; exact ⟨hop, .left hl⟩
      next =>
        split at h
        next hr => cases h; exact ⟨hop, .right hr⟩
        next => cases h
    next => cases h
  next => cases h

theorem comparison?_isSome {base d : Expr} : (comparison? base d).isSome ↔ base.ComparesBase d := by
  constructor
  · intro h
    obtain ⟨c, hc⟩ := Option.isSome_iff_exists.mp h
    obtain ⟨hop, hcmp⟩ := comparison?_eq_some hc
    exact ⟨c.op, c.value, hop, hcmp⟩
  · rintro ⟨op, value, hop, hcmp⟩
    cases hcmp with
    | left hl => simp [comparison?, hop, hl]
    | right hr => by_cases hl : value.Alike base <;> simp [comparison?, hop, hl, hr]

/-- The expression is neither a disjunction nor a binary one, so that nothing is read off it. -/
structure ComparesNothing (e : Expr) : Prop where
  disjuncts : e.disjuncts = [e]
  bases : comparisonBases e = .ok []
  comparisons : ∀ base, comparisonsWith base e = .ok []
  comparison? : ∀ base, comparison? base e = none

/-- Induction over a guard: a disjunction is taken apart, and what is left is looked at only if it
is a binary expression. -/
@[elab_as_elim]
theorem guardInduction {motive : Expr → Prop}
    (or : ∀ l r, motive l → motive r → motive (.logical l "||" r))
    (binary : ∀ l op r, motive (.binary l op r))
    (other : ∀ e, e.ComparesNothing → motive e) (e : Expr) : motive e := by
  induction e using disjuncts.induct with
  | case1 l op r hop ihl ihr =>
    cases eq_of_beq hop
    exact or l r ihl ihr
  | case2 l op r hop =>
    exact other _ {
      disjuncts := by simp only [disjuncts, if_neg hop]
      bases := by simp only [comparisonBases, if_neg hop]
      comparisons := fun base => by simp only [comparisonsWith, if_neg hop]
      comparison? := fun base => rfl }
  | case3 e hl =>
    cases e with
    | logical l op r => exact absurd rfl (hl l op r)
    | binary l op r => exact binary l op r
    | _ => exact other _ ⟨rfl, rfl, fun _ => rfl, fun _ => rfl⟩

theorem disjuncts_or (l r : Expr) :
    (Expr.logical l "||" r).disjuncts = l.disjuncts ++ r.disjuncts := rfl

theorem disjuncts_ne_nil (e : Expr) : e.disjuncts ≠ [] := by
  induction e using guardInduction with
  | or l r ihl _ =>
    intro h
    exact ihl (List.append_eq_nil_iff.mp h).1
  | binary l op r => exact List.cons_ne_nil _ _
  | other e he =>
    rw [he.disjuncts]
    exact List.cons_ne_nil _ _

end Expr

/-- The disjuncts of a guard that may be absent. -/
def guardDisjuncts : Option Expr → List Expr
  | none => []
  | some e => e.disjuncts

/-- The comparisons that are collected from a guard are those of its disjuncts, in their order. A
disjunct that compares something else adds nothing and stops nothing. -/
theorem comparisonsWith_eq {base e : Expr} {cs : List Comparison}
    (h : comparisonsWith base e = .ok cs) :
    cs = e.disjuncts.filterMap (Expr.comparison? base) := by
  induction e using Expr.guardInduction generalizing cs with
  | or l r ihl ihr =>
    simp only [comparisonsWith, beq_self_eq_true, if_true, bind_eq_ok, pure_eq_ok] at h
    obtain ⟨cl, hcl, cr, hcr, h⟩ := h
    cases h
    rw [ihl hcl, ihr hcr, Expr.disjuncts_or, List.filterMap_append]
  | binary l op r =>
    rw [comparisonsWith] at h
    split at h
    next hop =>
      obtain ⟨bl, hbl, h⟩ := bind_eq_ok.mp h
      have hl := Expr.same_eq_ok hbl
      split at h
      next hb =>
        cases h
        simp [Expr.disjuncts, Expr.comparison?, hop, hl.mp hb]
      next hb =>
        obtain ⟨br, hbr, h⟩ := bind_eq_ok.mp h
        have hr := Expr.same_eq_ok hbr
        have hl' : ¬ l.Alike base := fun hal => hb (hl.mpr hal)
        split at h
        next hb' =>
          cases h
          simp [Expr.disjuncts, Expr.comparison?, hop, hl', hr.mp hb']
        next hb' =>
          have hr' : ¬ r.Alike base := fun hal => hb' (hr.mpr hal)
          cases h
          simp [Expr.disjuncts, Expr.comparison?, hop, hl', hr']
    next hop =>
      cases h
      simp [Expr.disjuncts, Expr.comparison?, hop]
  | other e he =>
    cases (he.comparisons base).symm.trans h
    simp [he.disjuncts, he.comparison? base]

theorem guardComparisons_eq {base : Expr} {g : Option Expr} {cs : List Comparison}
    (h : guardComparisons base g = .ok cs) :
    cs = (guardDisjuncts g).filterMap (Expr.comparison? base) := by
  cases g with
  | none => cases h; rfl
  | some e => exact comparisonsWith_eq h

/-! ## Bases -/

@[simp] theorem Expr.isBase_name (x : String) : (Expr.name x).isBase = true := by
  simp [isBase, isLiteral, walk_eq, children, isEffectful]

@[simp] theorem Expr.isBase_literal (v : String) : (Expr.literal v).isBase = false := rfl

@[simp] theorem Expr.isBase_call (f : Expr) (args : List Expr) (opt : Bool) :
    (Expr.call f args opt).isBase = false := by
  rw [isBase, walk_eq, List.any_cons]
  rfl

theorem firstShared_eq_some {others es : List Expr} {e : Expr}
    (h : firstShared others es = .ok (some e)) : e ∈ es ∧ ∃ c ∈ others, c.Alike e := by
  induction es with
  | nil => cases h
  | cons a as ih =>
    simp only [firstShared, bind_eq_ok] at h
    obtain ⟨found, hfound, h⟩ := h
    cases found with
    | some c =>
      cases h
      obtain ⟨hc, hal⟩ := Expr.findSame_eq_some hfound
      exact ⟨List.mem_cons_self, c, hc, hal⟩
    | none => exact (ih h).imp_left (List.mem_cons_of_mem a)

/-- The base of a disjunction is one of the bases of its left side, and has its like among those of
its right side. -/
theorem comparisonBases_or {l r b : Expr} {bs : List Expr}
    (h : comparisonBases (.logical l "||" r) = .ok bs) (hb : b ∈ bs) :
    ∃ left right, comparisonBases l = .ok left ∧ comparisonBases r = .ok right ∧
      b ∈ left ∧ ∃ c ∈ right, c.Alike b := by
  simp only [comparisonBases, beq_self_eq_true, if_true, bind_eq_ok] at h
  obtain ⟨left, hleft, right, hright, h⟩ := h
  split at h
  next => cases h; cases hb
  next =>
    obtain ⟨found, hfound, h⟩ := bind_eq_ok.mp h
    cases h
    obtain rfl := Option.mem_toList.mp hb
    exact ⟨left, right, hleft, hright, firstShared_eq_some hfound⟩

/-- A base of a comparison is one of its sides. -/
theorem comparisonBases_binary {l r b : Expr} {op : String} {bs : List Expr}
    (h : comparisonBases (.binary l op r) = .ok bs) (hb : b ∈ bs) :
    Expr.isEqualityOperator op = true ∧ (b = l ∨ b = r) ∧ b.isBase = true := by
  cases h
  split at hb
  next hop =>
    obtain ⟨hmem, hbase⟩ := List.mem_filter.mp hb
    exact ⟨hop, by simpa using hmem, hbase⟩
  next => cases hb

theorem comparisonBases_isBase {e b : Expr} {bs : List Expr}
    (h : comparisonBases e = .ok bs) (hb : b ∈ bs) : b.isBase = true := by
  induction e using Expr.guardInduction generalizing bs with
  | or l r ihl ihr =>
    obtain ⟨left, _, hleft, _, hb, _⟩ := comparisonBases_or h hb
    exact ihl hleft hb
  | binary l op r => exact (comparisonBases_binary h hb).2.2
  | other e he => cases he.bases.symm.trans h; cases hb

/-- A base of a guard is a side of one of its disjuncts. -/
theorem comparisonBases_side {e b : Expr} {bs : List Expr}
    (h : comparisonBases e = .ok bs) (hb : b ∈ bs) :
    ∃ l op r, .binary l op r ∈ e.disjuncts ∧ (b = l ∨ b = r) := by
  induction e using Expr.guardInduction generalizing bs with
  | or l r ihl ihr =>
    obtain ⟨left, _, hleft, _, hb, _⟩ := comparisonBases_or h hb
    obtain ⟨l', op', r', hd, hside⟩ := ihl hleft hb
    exact ⟨l', op', r', List.mem_append_left _ hd, hside⟩
  | binary l op r => exact ⟨l, op, r, List.mem_cons_self, (comparisonBases_binary h hb).2.1⟩
  | other e he => cases he.bases.symm.trans h; cases hb

/-- **Every disjunct of a guard compares each base of the guard.** -/
theorem comparisonBases_compares {e b base d : Expr} {bs : List Expr}
    (h : comparisonBases e = .ok bs) (hb : b ∈ bs) (hbase : b.Alike base)
    (hd : d ∈ e.disjuncts) : base.ComparesBase d := by
  induction e using Expr.guardInduction generalizing bs b with
  | or l r ihl ihr =>
    obtain ⟨left, right, hleft, hright, hb, c, hc, hcb⟩ := comparisonBases_or h hb
    rcases List.mem_append.mp hd with hd | hd
    · exact ihl hleft hb hbase hd
    · exact ihr hright hc (hcb.trans hbase) hd
  | binary l op r =>
    cases List.mem_singleton.mp hd
    obtain ⟨hop, hside, _⟩ := comparisonBases_binary h hb
    rcases hside with rfl | rfl
    · exact ⟨op, r, hop, .left hbase⟩
    · exact ⟨op, l, hop, .right hbase⟩
  | other e he => cases he.bases.symm.trans h; cases hb

/-- One of the bases that are found in the guard is written like `base`. -/
def Expr.TestedBy (base : Expr) (guard : Option Expr) : Prop :=
  ∃ bases, guardBases guard = .ok bases ∧ ∃ b ∈ bases, b.Alike base

theorem testsBase_eq_ok {base : Expr} {g : Option Expr} {b : Bool}
    (h : testsBase base g = .ok b) : b = true ↔ base.TestedBy g := by
  simp only [testsBase, bind_eq_ok, pure_eq_ok] at h
  obtain ⟨bases, hbases, found, hfound, h⟩ := h
  cases h
  cases found with
  | some c => exact iff_of_true rfl ⟨bases, hbases, c, Expr.findSame_eq_some hfound⟩
  | none =>
    refine iff_of_false Bool.false_ne_true ?_
    rintro ⟨bases', hbases', c, hc, halike⟩
    cases hbases.symm.trans hbases'
    exact Expr.findSame_eq_none hfound hc halike

theorem testsBase_compares {base d : Expr} {g : Option Expr} (h : testsBase base g = .ok true)
    (hd : d ∈ guardDisjuncts g) : base.ComparesBase d := by
  cases g with
  | none => cases hd
  | some e =>
    obtain ⟨bases, hbases, c, hc, hal⟩ := (testsBase_eq_ok h).mp rfl
    exact comparisonBases_compares hbases hc hal hd

theorem testsBase_of_bases {base e : Expr} (h : comparisonBases e = .ok [base])
    (hprint : base.isPrintable = true) : testsBase base (some e) = .ok true := by
  simp [testsBase, guardBases, h, Expr.findSame, Expr.findText, Expr.render, hprint, bind_ok_eq,
    pure_eq_ok]

namespace Sample

theorem comparisonBases_isKind (value : String) : comparisonBases (isKind value) = .ok [kind] := by
  simp [isKind, kind, comparisonBases, Expr.isEqualityOperator]

theorem testsBase_isKind (value : String) : testsBase kind (some (isKind value)) = .ok true :=
  testsBase_of_bases (comparisonBases_isKind value) rfl

end Sample

/-! ## Chains -/

/-- The guards that are met one after another as long as each of them fails. -/
def DecisionTree.spine : DecisionTree → List (Option Expr)
  | .leaf _ => []
  | .onYes guard _ => [guard]
  | .onNo guard n | .fork guard _ n => guard :: n.spine

theorem DecisionTree.condition_mem_spine {t : DecisionTree} (h : t.isLeaf = false) :
    t.condition ∈ t.spine := by
  cases t with
  | leaf action => cases h
  | onYes | onNo | fork => exact List.mem_cons_self

/-- All guards, each before those of its branches. -/
def DecisionTree.guards : DecisionTree → List (Option Expr)
  | .leaf _ => []
  | .onYes guard t | .onNo guard t => guard :: t.guards
  | .fork guard y n => guard :: (y.guards ++ n.guards)

theorem DecisionTree.spine_subset_guards (t : DecisionTree) : t.spine ⊆ t.guards := by
  induction t with
  | leaf action => exact List.nil_subset _
  | onYes guard y _ => exact List.cons_subset_cons guard (List.nil_subset _)
  | onNo guard n ih => exact List.cons_subset_cons guard ih
  | fork guard y n _ ih => exact List.cons_subset_cons guard (List.subset_append_of_subset_right _ ih)

/-- What the guards of the spine guard are single actions. -/
def DecisionTree.SingleActions : DecisionTree → Prop
  | .leaf _ => True
  | .onYes _ y => y.isLeaf = true
  | .onNo _ n => n.SingleActions
  | .fork _ y n => y.isLeaf = true ∧ n.SingleActions

end CondUnfold
