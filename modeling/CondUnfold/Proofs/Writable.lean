import CondUnfold.Proofs.EarlyReturn
import CondUnfold.Proofs.Emission
import CondUnfold.Proofs.IfChain

/-!
# Statements that can be written

If every slot of a statement is filled with an expression that has a text, then writing the
statement succeeds (`Stmt.renderLines_isOk`), since a slot without a text is the only cause of
failure. The statements for an expression that has a text are of this kind (`filled_of_ifChain`,
`filled_of_guardedReturns`), a switch among them included.
-/

namespace CondUnfold

open Except

/-! ## Filled slots -/

/-- Every slot holds an expression that has a text. -/
def Filled (slots : List (Option Expr)) : Prop :=
  ∀ slot ∈ slots, ∃ e, slot = some e ∧ e.isPrintable = true

@[simp] theorem filled_nil : Filled [] := nofun

@[simp] theorem filled_cons {slot : Option Expr} {slots : List (Option Expr)} :
    Filled (slot :: slots) ↔ (∃ e, slot = some e ∧ e.isPrintable = true) ∧ Filled slots :=
  List.forall_mem_cons

@[simp] theorem filled_append {slots slots' : List (Option Expr)} :
    Filled (slots ++ slots') ↔ Filled slots ∧ Filled slots' :=
  List.forall_mem_append

theorem armSlots_append (arms arms' : List (Arm Stmt)) :
    armSlots (arms ++ arms') = armSlots arms ++ armSlots arms' := by
  induction arms with
  | nil => rfl
  | cons a arms ih =>
    simp only [List.cons_append, armSlots, ih, List.append_assoc]

/-! ## Writing -/

theorem checkSlots_of_filled {slots : List (Option Expr)} (h : Filled slots) :
    checkSlots slots = .ok () := by
  induction slots with
  | nil => rfl
  | cons slot slots ih =>
    obtain ⟨⟨e, rfl, he⟩, hslots⟩ := filled_cons.mp h
    rw [checkSlots, slotText, Expr.render_of_isPrintable he]
    exact ih hslots

namespace Stmt

/-- **Writing succeeds where every slot is filled.** -/
theorem renderLines_isOk (layout : Layout) {body : List Stmt} (h : Filled (slotsOf body)) :
    ∃ lines, Stmt.renderLines layout body = .ok lines ∧ ∀ l ∈ lines, layout.IsLine l := by
  obtain ⟨outcome, lines, hlines, houtcome, hshape⟩ := emitAll_portable body layout
  rw [checkSlots_of_filled h] at houtcome
  cases outcome with
  | error e => cases houtcome
  | ok _ => exact ⟨lines, renderLines_of_emits hlines, hshape⟩

end Stmt

/-! ## The statements of unfolding -/

/-- The guards and actions of a tree. -/
def DecisionTree.slots : DecisionTree → List (Option Expr)
  | .leaf action => [action]
  | .onYes guard t | .onNo guard t => guard :: t.slots
  | .fork guard y n => guard :: (y.slots ++ n.slots)

theorem DecisionTree.filled_condition {t : DecisionTree} (h : Filled t.slots) :
    ∃ e, t.condition = some e ∧ e.isPrintable = true := by
  cases t <;> exact (filled_cons.mp h).1

theorem DecisionTree.filled_ofExpr (descend : Bool) {e : Expr} (h : e.isPrintable = true) :
    Filled (ofExpr descend e).slots := by
  fun_induction ofExpr descend e with
  | case1 t y n ihy ihn =>
    simp only [Expr.isPrintable, Bool.and_eq_true] at h
    simp only [slots, filled_cons, filled_append]
    exact ⟨⟨t, rfl, h.1.1⟩, ihy h.1.2, ihn h.2⟩
  | case2 l op r _ _ ih | case3 l op r _ _ _ ih =>
    simp only [Expr.isPrintable, Bool.and_eq_true] at h
    simp only [slots, filled_cons]
    exact ⟨⟨l, rfl, h.1.2⟩, ih h.2⟩
  | case4 l op r _ _ _ _ ih =>
    simp only [Expr.isPrintable, Bool.and_eq_true] at h
    simp only [slots, filled_cons]
    exact ⟨⟨l.looseNullCheck, rfl, by simpa [Expr.looseNullCheck, Expr.isPrintable] using h.1.2⟩,
      ih h.2⟩
  | case5 | case6 | case7 =>
    simp only [slots, filled_cons]
    exact ⟨⟨_, rfl, h⟩, filled_nil⟩

theorem filled_caseArms {body : List Stmt} (hbody : Filled (slotsOf body)) {cs : List Comparison}
    (hcs : ∀ c ∈ cs, c.value.isPrintable = true) : Filled (armSlots (caseArms body cs)) := by
  fun_induction caseArms body cs with
  | case1 => exact filled_nil
  | case2 c => simpa [armSlots] using ⟨hcs c List.mem_cons_self, hbody⟩
  | case3 c cs _ ih =>
    obtain ⟨hc, hcs⟩ := List.forall_mem_cons.mp hcs
    simpa [armSlots, slotsOf] using ⟨hc, ih hcs⟩

theorem filled_actionBody {action : Option Expr}
    (h : ∃ e, action = some e ∧ e.isPrintable = true) : Filled (slotsOf (actionBody action)) := by
  simpa [actionBody, slotsOf, Stmt.slots] using h

theorem filled_caseBody (strict : Bool) {yes : Option DecisionTree}
    (h : ∀ t, yes = some t → Filled t.slots) : Filled (slotsOf (caseBody strict yes)) := by
  cases yes with
  | none => cases strict <;> exact filled_nil
  | some t => exact filled_actionBody (DecisionTree.filled_condition (h t rfl))

theorem isPrintable_of_mem_comparisonsIn {base : Expr} (hbase : base.isPrintable = true)
    {guard : Option Expr} (hguard : ∃ e, guard = some e ∧ e.isPrintable = true) {c : Comparison}
    (hc : c ∈ comparisonsIn base guard) : c.value.isPrintable = true := by
  obtain ⟨e, rfl, he⟩ := hguard
  obtain ⟨cs, hcs⟩ := comparisonsWith_isOk hbase he
  obtain rfl : cs = comparisonsIn base (some e) := comparisonsWith_eq hcs
  exact comparisonsWith_isPrintable he hcs hc

theorem filled_chainArms (strict : Bool) {base : Expr} (hbase : base.isPrintable = true)
    {t : DecisionTree} (ht : Filled t.slots) : Filled (armSlots (t.chainArms strict base)) := by
  have hcases : ∀ guard yes, (∃ e, guard = some e ∧ e.isPrintable = true) →
      (∀ y, yes = some y → Filled y.slots) →
      Filled (armSlots (caseArms (caseBody strict yes) (comparisonsIn base guard))) :=
    fun guard yes hguard hyes => filled_caseArms (filled_caseBody strict hyes)
      fun c hc => isPrintable_of_mem_comparisonsIn hbase hguard hc
  induction t with
  | leaf a => simpa [DecisionTree.chainArms, armSlots] using filled_actionBody (filled_cons.mp ht).1
  | onYes guard y _ =>
    rw [DecisionTree.slots, filled_cons] at ht
    exact hcases guard (some y) ht.1 (by rintro _ ⟨⟩; exact ht.2)
  | onNo guard n ih =>
    rw [DecisionTree.slots, filled_cons] at ht
    rw [DecisionTree.chainArms, armSlots_append, filled_append]
    exact ⟨hcases guard none ht.1 (fun y hy => by cases hy), ih ht.2⟩
  | fork guard y n _ ih =>
    rw [DecisionTree.slots, filled_cons, filled_append] at ht
    rw [DecisionTree.chainArms, armSlots_append, filled_append]
    exact ⟨hcases guard (some y) ht.1 (by rintro _ ⟨⟩; exact ht.2.1), ih ht.2.2⟩

namespace DecisionTree

theorem filled_switch? {maker maker' : Option SwitchMaker} {place : Place} {t : DecisionTree}
    {s : Stmt} (ht : Filled t.slots) (h : switch? maker place t = .ok (some s, maker')) :
    Filled s.slots := by
  obtain ⟨m, m', base, arms, rfl, rfl, hfound⟩ := switch?_found h
  have hswitch := (SwitchMaker.trySwitch_cases hfound).2 base arms rfl
  obtain ⟨text, htext⟩ := hswitch.printable
  have hbase : base.isPrintable = true := (Expr.alike_iff.mp ⟨text, htext, htext⟩).1
  simp only [Stmt.slots, filled_cons, (collectArms_eq hswitch.collected).1]
  exact ⟨⟨base, rfl, hbase⟩, filled_chainArms m.strict hbase ht⟩

theorem filled_attachElse {guard : Option Expr} {yes no : List Stmt}
    (hguard : ∃ e, guard = some e ∧ e.isPrintable = true) (hyes : Filled (slotsOf yes))
    (hno : Filled (slotsOf no)) : Filled (attachElse guard yes no).slots := by
  unfold attachElse
  split <;> simp_all [Stmt.slots, slotsOf]

/-- **The statements of a tree whose guards and actions have a text can be written.** -/
theorem filled_of_ifChain {t : DecisionTree} {place : Place} {maker maker' : Option SwitchMaker}
    {body : List Stmt} (ht : Filled t.slots) (h : t.ifChain place maker = .ok (body, maker')) :
    Filled (slotsOf body) := by
  revert ht
  refine ifChain_induction (P := fun t body => Filled t.slots → Filled (slotsOf body))
    ?switch ?idle ?act ?onYes ?onNo ?fork (.refl maker) h
  case switch =>
    intro maker₁ maker₂ place t s _ hfound ht
    simpa [slotsOf] using filled_switch? ht hfound
  case idle =>
    intro _
    exact filled_nil
  case act =>
    intro e ht
    exact ht
  case onYes =>
    intro guard y yes ih ht
    rw [slots, filled_cons] at ht
    simpa [slotsOf, Stmt.slots] using ⟨ht.1, ih ht.2⟩
  case onNo =>
    intro guard n no ih ht
    rw [slots, filled_cons] at ht
    obtain ⟨⟨g, rfl, hg⟩, hn⟩ := ht
    simpa [slotsOf, Stmt.slots, Expr.negate, Expr.isPrintable] using ⟨hg, ih hn⟩
  case fork =>
    intro guard y n yes no ihy ihn ht
    rw [slots, filled_cons, filled_append] at ht
    simpa [slotsOf] using filled_attachElse ht.1 (ihy ht.2.1) (ihn ht.2.2)

end DecisionTree

theorem filled_of_guardedReturns {e : Expr} {body : List Stmt} (h : GuardedReturns e body)
    (he : e.isPrintable = true) : Filled (slotsOf body) := by
  induction h with
  | cond _ _ ihy ihn =>
    simp only [Expr.isPrintable, Bool.and_eq_true] at he
    simp only [slotsOf, Stmt.slots, List.cons_append, filled_cons, filled_append]
    exact ⟨⟨_, rfl, he.1.1⟩, ihy he.1.2, ihn he.2⟩
  | whole _ => simpa [slotsOf, Stmt.slots] using he

end CondUnfold
