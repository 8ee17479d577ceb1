import CondUnfold.Proofs.SwitchArms

/-!
# Looking for a switch does not fail

If all guards of a tree are there and can be written, then there is a switch or there is none
(`SwitchMaker.trySwitch_isOk`). While arms are collected a chain may still be refused, which is no
failure (`Unfailing`).
-/

namespace CondUnfold

open Except

theorem findBase_isOk (threshold : Int) {t : DecisionTree} {bs : List Expr}
    (hbs : ∀ b ∈ bs, b.isPrintable = true) (ht : t.Guarded (·.isPrintable = true)) :
    ∃ r, findBase threshold t bs = .ok r := by
  induction bs with
  | nil => exact ⟨none, rfl⟩
  | cons b bs ih =>
    obtain ⟨hb, hbs⟩ := List.forall_mem_cons.mp hbs
    obtain ⟨d, hd⟩ := chainDepth_isOk hb (fun _ he => ht.of_mem_guards he) 0
    simp only [findBase, hd, bind_ok_eq]
    split
    next => exact ⟨some b, rfl⟩
    next => exact ih hbs

/-! ## Arms -/

/-- Collecting may be refused, but does not fail. -/
def Unfailing {α : Type} (x : Except Stop α) : Prop := ∀ e, x ≠ .error (.failed e)

theorem Unfailing.bind {α β : Type} {x : Except Stop α} {f : α → Except Stop β}
    (hx : Unfailing x) (hf : ∀ a, x = .ok a → Unfailing (f a)) : Unfailing (x >>= f) := by
  intro e h
  cases x with
  | error stop => cases h; exact hx e rfl
  | ok a => exact hf a rfl e h

theorem unfailing_ok {α : Type} (a : α) : Unfailing (.ok a) := nofun

theorem unfailing_refused {α : Type} (reason : Refusal.Reason) :
    Unfailing (.error (.refused reason) : Except Stop α) := nofun

theorem textOf_eq_ok {e : Expr} (he : e.isPrintable = true) :
    Stop.textOf (some e) = .ok e.text := by
  simp only [Stop.textOf, Expr.render_of_isPrintable he, mapError_ok]

theorem checkGuard_unfailing {base e : Expr} {cs : List Comparison}
    (hbase : base.isPrintable = true) (he : e.isPrintable = true)
    (hcs : ∀ c ∈ cs, c.value.isPrintable = true) : Unfailing (checkGuard base (some e) cs) := by
  cases hempty : cs.isEmpty with
  | true =>
    simp only [checkGuard, hempty, if_true, textOf_eq_ok he, bind_ok_eq]
    exact unfailing_refused _
  | false =>
    cases hfind : cs.find? (·.op == "==") with
    | none =>
      simp only [checkGuard, hempty, hfind, Bool.false_eq_true, if_false]
      exact unfailing_ok ()
    | some c =>
      have hc := hcs c (List.mem_of_find?_eq_some hfind)
      simp only [checkGuard, hempty, hfind, Bool.false_eq_true, if_false, textOf_eq_ok hbase,
        textOf_eq_ok hc, bind_ok_eq]
      exact unfailing_refused _

theorem guardArms_unfailing {strict : Bool} {yes : Option DecisionTree} {cs : List Comparison}
    (hcs : ∀ c ∈ cs, c.value.isPrintable = true) : Unfailing (guardArms strict yes cs) := by
  induction cs using guardArms.induct strict yes with
  | case1 => exact unfailing_ok []
  | case2 c hyes =>
    simp only [guardArms, hyes]
    exact unfailing_ok _
  | case3 c t hyes hnested =>
    simp only [guardArms, hyes, hnested, if_true, textOf_eq_ok (hcs c List.mem_cons_self),
      bind_ok_eq]
    exact unfailing_refused _
  | case4 c t hyes hsingle =>
    simp only [guardArms, hyes, hsingle]
    exact unfailing_ok _
  | case5 c cs hne ih =>
    simp only [guardArms]
    exact (ih fun c hc => hcs c (List.mem_cons_of_mem _ hc)).bind fun rest _ => unfailing_ok _

theorem armsOfGuard_unfailing {strict : Bool} {base e : Expr} {yes : Option DecisionTree}
    (hbase : base.isPrintable = true) (he : e.isPrintable = true) :
    Unfailing (armsOfGuard strict base (some e) yes) := by
  obtain ⟨cs, hcs⟩ := comparisonsWith_isOk hbase he
  have hvalues := fun c hc => comparisonsWith_isPrintable (c := c) he hcs hc
  simp only [armsOfGuard, guardComparisons, hcs, mapError_ok, bind_ok_eq]
  cases strict with
  | false => exact guardArms_unfailing hvalues
  | true =>
    exact (checkGuard_unfailing hbase he hvalues).bind fun _ _ => guardArms_unfailing hvalues

theorem collectArms_unfailing (strict : Bool) {base : Expr} (hbase : base.isPrintable = true)
    {t : DecisionTree} (ht : t.Guarded (·.isPrintable = true)) :
    Unfailing (collectArms strict base t) := by
  induction t with
  | leaf a => exact unfailing_ok _
  | onYes guard y _ =>
    obtain ⟨⟨e, rfl, he⟩, _⟩ := ht
    exact armsOfGuard_unfailing hbase he
  | onNo guard n ih =>
    obtain ⟨⟨e, rfl, he⟩, ht⟩ := ht
    exact (armsOfGuard_unfailing hbase he).bind fun _ _ => (ih ht).bind fun _ _ => unfailing_ok _
  | fork guard y n _ ih =>
    obtain ⟨⟨e, rfl, he⟩, _, ht⟩ := ht
    exact (armsOfGuard_unfailing hbase he).bind fun _ _ => (ih ht).bind fun _ _ => unfailing_ok _

/-- **Looking for a switch does not fail where all guards can be written.** -/
theorem SwitchMaker.trySwitch_isOk (m : SwitchMaker) (place : Place) {t : DecisionTree}
    (ht : t.Guarded (·.isPrintable = true)) : ∃ r, m.trySwitch place t = .ok r := by
  have hroot : t.isLeaf = true ∨ ∃ e, t.condition = some e ∧ e.isPrintable = true := by
    cases t with
    | leaf a => exact .inl rfl
    | onYes | onNo | fork => exact .inr ht.1
  obtain hleaf | ⟨e, hcond, he⟩ := hroot
  · exact ⟨(none, m), by simp only [trySwitch, hleaf, if_true, pure_eq_ok]⟩
  · obtain ⟨bases, hbases⟩ := comparisonBases_isOk he
    have hprint := fun b hb => comparisonBases_isPrintable (b := b) he hbases hb
    obtain ⟨found, hfound⟩ := findBase_isOk m.threshold hprint ht
    unfold trySwitch
    split
    next => exact ⟨_, rfl⟩
    next =>
      simp only [hcond, guardBases, hbases, bind_ok_eq]
      cases bases with
      | nil => exact ⟨_, rfl⟩
      | cons first others =>
        simp only [hfound, bind_ok_eq]
        cases found with
        | none =>
          simp only [Expr.render_of_isPrintable (hprint first List.mem_cons_self), bind_ok_eq]
          exact ⟨_, rfl⟩
        | some base =>
          have hbase := hprint base (findBase_eq_some hfound).1
          have harms := collectArms_unfailing m.strict hbase ht
          simp only [Expr.render_of_isPrintable hbase, bind_ok_eq]
          cases hcollect : collectArms m.strict base t with
          | ok arms => exact ⟨_, rfl⟩
          | error stop =>
            cases stop with
            | failed e => exact absurd hcollect (harms e)
            | refused reason => exact ⟨_, rfl⟩

end CondUnfold
