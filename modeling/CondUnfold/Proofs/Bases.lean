import CondUnfold.Proofs.Printable
import Mathlib.Data.List.Forall2

/-!
# The bases of a guard

What may be the subject of a switch is said by the parts of an expression (`Expr.isBase_iff`). The
bases of a disjunction are found by intersecting those of its sides, and only the one on the left is
kept; the comparisons with a base are collected by another rule, which passes over a disjunct that
compares something else. For a base of the guard the two agree: no disjunct is passed over
(`comparisonBases_sound`).
-/

namespace CondUnfold

open Except

namespace Expr

/-- An expression that may be the subject of a switch. It is not a literal; nothing in it calls,
deletes or awaits; and no source text in it is kept as it is, since that might do so. -/
structure Subject (e : Expr) : Prop where
  notLiteral : ∀ text, e ≠ .literal text
  noCall : ∀ callee args optional, ¬ (Expr.call callee args optional).PartOf e
  noRaw : ∀ text precedence kind, ¬ (Expr.raw text precedence kind).PartOf e
  noDelete : ∀ arg, ¬ (Expr.unary "delete" arg).PartOf e
  noAwait : ∀ arg, ¬ (Expr.unary "await" arg).PartOf e

theorem isLiteral_eq_false {e : Expr} : e.isLiteral = false ↔ ∀ text, e ≠ .literal text := by
  cases e <;> simp [isLiteral]

theorem isBase_iff {e : Expr} : e.isBase = true ↔ e.Subject := by
  have hbase : e.isBase = true ↔ (∀ text, e ≠ .literal text) ∧
      ∀ part : Expr, part.PartOf e → part.isEffectful = false := by
    simp only [isBase, Bool.and_eq_true, Bool.not_eq_true', isLiteral_eq_false, List.any_eq_false,
      mem_walk, Bool.not_eq_true]
  rw [hbase]
  constructor
  · rintro ⟨hliteral, hquiet⟩
    refine ⟨hliteral, ?_, ?_, ?_, ?_⟩
    · intro callee args optional hpart
      cases hquiet _ hpart
    · intro text precedence kind hpart
      cases hquiet _ hpart
    · intro arg hpart
      cases hquiet _ hpart
    · intro arg hpart
      cases hquiet _ hpart
  · intro h
    refine ⟨h.notLiteral, ?_⟩
    intro part hpart
    cases part with
    | call callee args optional => exact absurd hpart (h.noCall callee args optional)
    | raw text precedence kind => exact absurd hpart (h.noRaw text precedence kind)
    | unary op arg =>
      have hdelete : op ≠ "delete" := by
        rintro rfl
        exact h.noDelete arg hpart
      have hawait : op ≠ "await" := by
        rintro rfl
        exact h.noAwait arg hpart
      simp [isEffectful, hdelete, hawait]
    | _ => rfl

/-- Where every disjunct compares the base, the disjuncts and the comparisons belong together one by
one. -/
theorem forall₂_comparison? {base : Expr} {ds : List Expr} (h : ∀ d ∈ ds, base.ComparesBase d) :
    List.Forall₂ (fun d c => isEqualityOperator c.op = true ∧ base.Compares c.op c.value d) ds
      (ds.filterMap (comparison? base)) := by
  induction ds with
  | nil => exact .nil
  | cons d ds ih =>
    obtain ⟨hd, hds⟩ := List.forall_mem_cons.mp h
    obtain ⟨c, hc⟩ := Option.isSome_iff_exists.mp (comparison?_isSome.mpr hd)
    rw [List.filterMap_cons_some hc]
    exact .cons (comparison?_eq_some hc) (ih hds)

end Expr

/-- **What is found of the bases of a guard is sound.** A base may be the subject of a switch, and
every disjunct of the guard is a comparison of the base by `==` or `===`. The comparisons that are
collected with the base are one for each disjunct, from left to right, and have the other side of
the disjunct for their value. -/
theorem comparisonBases_sound {e : Expr} (he : e.isPrintable = true) :
    ∃ bases, comparisonBases e = .ok bases ∧ ∀ b ∈ bases,
      b.isBase = true ∧ (∀ d ∈ e.disjuncts, b.ComparesBase d) ∧
      ∃ cs, comparisonsWith b e = .ok cs ∧
        List.Forall₂ (fun d c => Expr.isEqualityOperator c.op = true ∧ b.Compares c.op c.value d)
          e.disjuncts cs := by
  obtain ⟨bases, hbases⟩ := comparisonBases_isOk he
  refine ⟨bases, hbases, ?_⟩
  intro b hb
  have hprint := comparisonBases_isPrintable he hbases hb
  have hself : b.Alike b := Expr.alike_iff.mpr ⟨hprint, hprint, rfl⟩
  have hcompares : ∀ d ∈ e.disjuncts, b.ComparesBase d := by
    intro d hd
    exact comparisonBases_compares hbases hb hself hd
  obtain ⟨cs, hcs⟩ := comparisonsWith_isOk hprint he
  refine ⟨comparisonBases_isBase hbases hb, hcompares, cs, hcs, ?_⟩
  rw [comparisonsWith_eq hcs]
  exact Expr.forall₂_comparison? hcompares

namespace MixedSides

open Sample (kind act)

def last : Expr := .name "last"
def next : Expr := act "next"

/-- `kind === last || (2 == kind || next() === kind)` -/
def guard : Expr :=
  .logical (.binary kind "===" last) "||"
    (.logical (.binary (.literal "2") "==" kind) "||" (.binary next "===" kind))

def comparisons : List Comparison := [⟨"===", last⟩, ⟨"==", .literal "2"⟩, ⟨"===", next⟩]

/-- Of the two bases on the left only `kind` is one on the right as well. It stands on either side of
the comparisons, and each of them gives its other side. -/
theorem guard_bases_sound :
    comparisonBases guard = .ok [kind] ∧ comparisonsWith kind guard = .ok comparisons ∧
      kind.isBase = true ∧
      List.Forall₂ (fun d c => kind.Compares c.op c.value d) guard.disjuncts comparisons := by
  have hleft : comparisonBases (.binary kind "===" last) = .ok [kind, last] := by
    simp [kind, last, comparisonBases, Expr.isEqualityOperator]
  have htwo : comparisonBases (.binary (.literal "2") "==" kind) = .ok [kind] := by
    simp [kind, comparisonBases, Expr.isEqualityOperator]
  have hnext : comparisonBases (.binary next "===" kind) = .ok [kind] := by
    simp [kind, next, act, comparisonBases, Expr.isEqualityOperator]
  have hguard : comparisonBases guard = .ok [kind] := by
    rw [guard, comparisonBases, hleft, comparisonBases, htwo, hnext]
    rfl
  obtain ⟨bases, hbases, hsound⟩ := comparisonBases_sound (e := guard) rfl
  cases hguard.symm.trans hbases
  obtain ⟨hbase, _, cs, hcs, hpairs⟩ := hsound kind List.mem_cons_self
  have hcomparisons : comparisonsWith kind guard = .ok comparisons := rfl
  cases hcomparisons.symm.trans hcs
  exact ⟨hguard, hcomparisons, hbase, hpairs.imp fun _ _ h => h.2⟩

end MixedSides
end CondUnfold
