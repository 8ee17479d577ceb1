import CondUnfold.Proofs.Guard

/-!
# Expressions that can be written

Expressions are compared by their texts, so looking for comparisons fails where one of them has no
text. This is the only way to fail: if a base and a guard can be written, then it is known which
comparisons with the base the guard has (`comparisonsWith_isOk`), and whether it tests the base
(`testsBase_isOk`).
-/

namespace CondUnfold

open Except

namespace Expr

theorem render_of_isPrintable {e : Expr} (h : e.isPrintable = true) : e.render = .ok e.text :=
  if_pos h

theorem logical_cases {op : String} (h : isLogicalOperator op = true) :
    op = "??" ∨ op = "||" ∨ op = "&&" := by
  simp only [isLogicalOperator, Bool.or_eq_true, beq_iff_eq] at h
  rcases h with (rfl | rfl) | rfl <;> decide

theorem isSome_of_logical {op : String} (h : isLogicalOperator op = true) :
    (Precedence.ofOperator? op).isSome = true := by
  rcases logical_cases h with rfl | rfl | rfl <;> rfl

theorem arePrintable_iff {es : List Expr} :
    arePrintable es = true ↔ ∀ e ∈ es, e.isPrintable = true := by
  induction es with
  | nil => simp [arePrintable]
  | cons e es ih => simp [arePrintable, ih]

theorem isPrintable_of_mem_children {e part : Expr} (h : e.isPrintable = true)
    (hpart : part ∈ e.children) : part.isPrintable = true := by
  have hall : arePrintable e.children = true := by
    cases e <;> simp_all [isPrintable, children, arePrintable]
  exact arePrintable_iff.mp hall part hpart

theorem isPrintable_of_mem_disjuncts {e d : Expr} (h : e.isPrintable = true)
    (hd : d ∈ e.disjuncts) : d.isPrintable = true := by
  induction e using guardInduction with
  | or l r ihl ihr =>
    simp only [isPrintable, Bool.and_eq_true] at h
    rcases List.mem_append.mp hd with hd | hd
    · exact ihl h.1.2 hd
    · exact ihr h.2 hd
  | binary l op r => cases List.mem_singleton.mp hd; exact h
  | other e hnone => cases List.mem_singleton.mp (hnone.disjuncts ▸ hd); exact h

theorem findText_isOk {t : String} {candidates : List Expr}
    (h : ∀ c ∈ candidates, c.isPrintable = true) : ∃ r, findText t candidates = .ok r := by
  induction candidates with
  | nil => exact ⟨none, rfl⟩
  | cons c cs ih =>
    obtain ⟨hc, hcs⟩ := List.forall_mem_cons.mp h
    simp only [findText, render_of_isPrintable hc, bind_ok_eq]
    split
    next => exact ⟨some c, rfl⟩
    next => exact ih hcs

theorem findSame_isOk {e : Expr} {candidates : List Expr} (he : e.isPrintable = true)
    (h : ∀ c ∈ candidates, c.isPrintable = true) : ∃ r, e.findSame candidates = .ok r := by
  simp only [findSame, render_of_isPrintable he, bind_ok_eq]
  exact findText_isOk h

theorem same_isOk {e f : Expr} (he : e.isPrintable = true) (hf : f.isPrintable = true) :
    ∃ b, e.same f = .ok b := by
  simp only [same, render_of_isPrintable he, render_of_isPrintable hf, bind_ok_eq]
  exact ⟨_, rfl⟩

end Expr

/-! ## Comparisons -/

theorem firstShared_isOk {others es : List Expr} (hothers : ∀ c ∈ others, c.isPrintable = true)
    (hes : ∀ e ∈ es, e.isPrintable = true) : ∃ r, firstShared others es = .ok r := by
  induction es with
  | nil => exact ⟨none, rfl⟩
  | cons e es ih =>
    obtain ⟨he, hes⟩ := List.forall_mem_cons.mp hes
    obtain ⟨found, hfound⟩ := Expr.findSame_isOk he hothers
    simp only [firstShared, hfound, bind_ok_eq]
    cases found with
    | some c => exact ⟨some e, rfl⟩
    | none => exact ih hes

theorem comparisonBases_isPrintable {e b : Expr} {bs : List Expr} (he : e.isPrintable = true)
    (h : comparisonBases e = .ok bs) (hb : b ∈ bs) : b.isPrintable = true := by
  obtain ⟨l, op, r, hd, hside⟩ := comparisonBases_side h hb
  have hprint := Expr.isPrintable_of_mem_disjuncts he hd
  simp only [Expr.isPrintable, Bool.and_eq_true] at hprint
  rcases hside with rfl | rfl
  · exact hprint.1
  · exact hprint.2

theorem comparisonBases_isOk {e : Expr} (he : e.isPrintable = true) :
    ∃ bs, comparisonBases e = .ok bs := by
  induction e using Expr.guardInduction with
  | or l r ihl ihr =>
    simp only [Expr.isPrintable, Bool.and_eq_true] at he
    obtain ⟨left, hleft⟩ := ihl he.1.2
    obtain ⟨right, hright⟩ := ihr he.2
    have hshared := firstShared_isOk (fun c hc => comparisonBases_isPrintable he.2 hright hc)
      (fun c hc => comparisonBases_isPrintable he.1.2 hleft hc)
    obtain ⟨shared, hshared⟩ := hshared
    simp only [comparisonBases, beq_self_eq_true, if_true, hleft, hright, bind_ok_eq]
    split
    next => exact ⟨[], rfl⟩
    next => exact ⟨shared.toList, by rw [hshared]; rfl⟩
  | binary l op r => exact ⟨_, rfl⟩
  | other e hnone => exact ⟨[], hnone.bases⟩

theorem comparisonsWith_isOk {base e : Expr} (hbase : base.isPrintable = true)
    (he : e.isPrintable = true) : ∃ cs, comparisonsWith base e = .ok cs := by
  induction e using Expr.guardInduction with
  | or l r ihl ihr =>
    simp only [Expr.isPrintable, Bool.and_eq_true] at he
    obtain ⟨left, hleft⟩ := ihl he.1.2
    obtain ⟨right, hright⟩ := ihr he.2
    refine ⟨left ++ right, ?_⟩
    simp only [comparisonsWith, beq_self_eq_true, if_true, hleft, hright, bind_ok_eq, pure_eq_ok]
  | binary l op r =>
    simp only [Expr.isPrintable, Bool.and_eq_true] at he
    obtain ⟨bl, hbl⟩ := Expr.same_isOk he.1 hbase
    obtain ⟨br, hbr⟩ := Expr.same_isOk he.2 hbase
    simp only [comparisonsWith]
    cases Expr.isEqualityOperator op with
    | false => exact ⟨[], rfl⟩
    | true =>
      simp only [if_true, hbl, hbr, bind_ok_eq]
      cases bl <;> cases br <;> exact ⟨_, rfl⟩
  | other e hnone => exact ⟨[], hnone.comparisons base⟩

/-- The values of comparisons are parts of the guard. -/
theorem comparisonsWith_isPrintable {base e : Expr} {cs : List Comparison} {c : Comparison}
    (he : e.isPrintable = true) (h : comparisonsWith base e = .ok cs) (hc : c ∈ cs) :
    c.value.isPrintable = true := by
  obtain rfl := comparisonsWith_eq h
  obtain ⟨d, hd, hdc⟩ := List.mem_filterMap.mp hc
  have hprint := Expr.isPrintable_of_mem_disjuncts he hd
  obtain ⟨_, hcmp⟩ := Expr.comparison?_eq_some hdc
  cases hcmp with
  | left =>
    simp only [Expr.isPrintable, Bool.and_eq_true] at hprint
    exact hprint.2
  | right =>
    simp only [Expr.isPrintable, Bool.and_eq_true] at hprint
    exact hprint.1

/-! ## Chains -/

/-- Every guard of the tree is there, and `P` holds of it. -/
def DecisionTree.Guarded (P : Expr → Prop) : DecisionTree → Prop
  | .leaf _ => True
  | .onYes guard t | .onNo guard t => (∃ e, guard = some e ∧ P e) ∧ t.Guarded P
  | .fork guard y n => (∃ e, guard = some e ∧ P e) ∧ y.Guarded P ∧ n.Guarded P

namespace DecisionTree.Guarded

variable {P : Expr → Prop} {t part : DecisionTree}

theorem imp {Q : Expr → Prop} (hPQ : ∀ e, P e → Q e) (h : t.Guarded P) : t.Guarded Q := by
  induction t with
  | leaf a => trivial
  | onYes guard t ih | onNo guard t ih =>
    obtain ⟨⟨e, hguard, he⟩, h⟩ := h
    exact ⟨⟨e, hguard, hPQ e he⟩, ih h⟩
  | fork guard y n ihy ihn =>
    obtain ⟨⟨e, hguard, he⟩, hy, hn⟩ := h
    exact ⟨⟨e, hguard, hPQ e he⟩, ihy hy, ihn hn⟩

theorem of_mem_nodes (h : t.Guarded P) (hpart : part ∈ t.nodes) : part.Guarded P := by
  induction t with
  | leaf a => cases List.mem_singleton.mp hpart; exact h
  | onYes guard t ih | onNo guard t ih =>
    rcases List.mem_cons.mp hpart with rfl | hpart
    · exact h
    · exact ih h.2 hpart
  | fork guard y n ihy ihn =>
    rcases List.mem_cons.mp hpart with rfl | hpart
    · exact h
    · rcases List.mem_append.mp hpart with hpart | hpart
      · exact ihy h.2.1 hpart
      · exact ihn h.2.2 hpart

theorem of_mem_guards (h : t.Guarded P) {e : Expr} (he : some e ∈ t.guards) : P e := by
  induction t with
  | leaf a => cases he
  | onYes guard t ih | onNo guard t ih =>
    obtain ⟨⟨e', rfl, hP⟩, ht⟩ := h
    rcases List.mem_cons.mp he with heq | he
    · cases heq; exact hP
    · exact ih ht he
  | fork guard y n ihy ihn =>
    obtain ⟨⟨e', rfl, hP⟩, hy, hn⟩ := h
    rcases List.mem_cons.mp he with heq | he
    · cases heq; exact hP
    · rcases List.mem_append.mp he with he | he
      · exact ihy hy he
      · exact ihn hn he

theorem of_mem_spine (h : t.Guarded P) {e : Expr} (he : some e ∈ t.spine) : P e :=
  h.of_mem_guards (t.spine_subset_guards he)

end DecisionTree.Guarded

theorem testsBase_isOk {base : Expr} {g : Option Expr} (hbase : base.isPrintable = true)
    (hg : ∀ e, g = some e → e.isPrintable = true) : ∃ b, testsBase base g = .ok b := by
  obtain ⟨bases, hbases, hprint⟩ :
      ∃ bases, guardBases g = .ok bases ∧ ∀ c ∈ bases, c.isPrintable = true := by
    cases g with
    | none => exact ⟨[], rfl, List.forall_mem_nil _⟩
    | some e =>
      obtain ⟨bases, hbases⟩ := comparisonBases_isOk (hg e rfl)
      exact ⟨bases, hbases, fun c hc => comparisonBases_isPrintable (hg e rfl) hbases hc⟩
  obtain ⟨found, hfound⟩ := Expr.findSame_isOk hbase hprint
  exact ⟨found.isSome, by simp only [testsBase, hbases, hfound, bind_ok_eq]; rfl⟩

end CondUnfold
