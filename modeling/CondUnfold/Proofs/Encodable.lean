import CondUnfold.Proofs.NodeExpr
import CondUnfold.Proofs.Replacements
import CondUnfold.Proofs.SwitchShape

/-!
# Edits that can be encoded

Each line that takes the place of a statement is a text behind some steps of indentation. So an edit
can be made if no surrogate stands in the indent of the layout. It can be made only then: a statement
that was found branches (`Node.triggers_branch`), and something in the branch is written one step
further in (`Trigger.rewrite?_headIndents`). This holds of every edit of a pass, so that a surrogate in
the indent fails the pass unless there is nothing to edit (`edits_cases`).
-/

namespace CondUnfold

open Except

/-! ## Lines without surrogates -/

theorem isPlain_copies (n : Nat) {t : WideText} (h : t.IsPlain) : (copies n t).IsPlain := by
  induction n with
  | zero => exact List.forall_mem_nil _
  | succ n ih => exact WideText.isPlain_append.mpr ⟨h, ih⟩

theorem Layout.IsLine.isPlain {layout : Layout} {l : WideText} (h : layout.IsLine l)
    (hindent : layout.indent.IsPlain) : l.IsPlain := by
  obtain ⟨n, text, rfl⟩ := h
  exact WideText.isPlain_append.mpr ⟨isPlain_copies n hindent, WideText.isPlain_ofString text⟩

theorem isPlain_joinLines {lines : List WideText} :
    (joinLines lines).IsPlain ↔ ∀ l ∈ lines, l.IsPlain := by
  induction lines with
  | nil => simp [joinLines, WideText.IsPlain]
  | cons l lines ih =>
    by_cases hne : lines = []
    · simp only [hne, joinLines_singleton, List.forall_mem_singleton]
    · simp only [joinLines_cons hne, WideText.isPlain_append, WideText.isPlain_ofString, ih,
        and_true, List.forall_mem_cons]

/-- A margin without surrogates brings none into a fragment. -/
theorem isPlain_indentFragment {lines : List WideText} {margin : WideText}
    (hmargin : margin.IsPlain) (h : ∀ l ∈ lines, l.IsPlain) :
    (indentFragment lines margin).IsPlain := by
  cases lines with
  | nil => exact List.forall_mem_nil _
  | cons first rest =>
    obtain ⟨hfirst, hrest⟩ := List.forall_mem_cons.mp h
    refine isPlain_joinLines.mpr (List.forall_mem_cons.mpr ⟨hfirst, List.forall_mem_map.mpr ?_⟩)
    intro l hl
    split
    · exact hrest l hl
    · exact WideText.isPlain_append.mpr ⟨hmargin, hrest l hl⟩

/-- A surrogate in a line stays in the fragment. -/
theorem isPlain_of_indentFragment {lines : List WideText} {margin : WideText}
    (h : (indentFragment lines margin).IsPlain) : ∀ l ∈ lines, l.IsPlain := by
  cases lines with
  | nil => exact List.forall_mem_nil _
  | cons first rest =>
    obtain ⟨hfirst, hrest⟩ := List.forall_mem_cons.mp (isPlain_joinLines.mp h)
    refine List.forall_mem_cons.mpr ⟨hfirst, fun l hl => ?_⟩
    have hl := List.forall_mem_map.mp hrest l hl
    split at hl
    · exact hl
    · exact (WideText.isPlain_append.mp hl).2

/-! ## Work that writes further in -/

namespace Writing

variable {α β : Type} {slots slots' : List (Option Expr)} {k : Nat}

/-- The work fails as checking the slots fails, as `Portable` work does. If the slots have a text, then
one of the lines that are added has at least `k` steps of indentation, beside those of the level. -/
def Reaches (slots : List (Option Expr)) (k : Nat) (x : Writing α) : Prop :=
  ∀ layout, ∃ outcome lines, Emits layout x outcome lines ∧
    outcome.map (fun _ => ()) = checkSlots slots ∧
    (checkSlots slots = .ok () → ∃ rest, copies k layout.indent ++ rest ∈ lines)

theorem reaches_line (text : String) : (line text).Reaches [] 0 :=
  fun _ => ⟨.ok (), _, emits_line text, rfl, fun _ => ⟨_, List.mem_singleton_self _⟩⟩

theorem reaches_statement (text : String) : (statement text).Reaches [] 0 :=
  fun _ => ⟨.ok (), _, emits_statement text, rfl, fun _ => ⟨_, List.mem_singleton_self _⟩⟩

theorem Reaches.bind {x : Writing α} {f : α → Writing β} (hx : x.Reaches slots k)
    (hf : ∀ a, (f a).Portable slots') : (x >>= f).Reaches (slots ++ slots') k := by
  intro layout
  obtain ⟨outcome, lines, hlines, houtcome, hreaches⟩ := hx layout
  rw [checkSlots_append, ← houtcome]
  cases outcome with
  | error e => exact ⟨.error e, lines, hlines.fail, rfl, nofun⟩
  | ok a =>
    obtain ⟨outcome, lines', hlines', houtcome', -⟩ := hf a layout
    obtain ⟨rest, hrest⟩ := hreaches houtcome.symm
    exact ⟨outcome, lines ++ lines', hlines.bind hlines', houtcome',
      fun _ => ⟨rest, List.mem_append_left _ hrest⟩⟩

theorem Portable.reaches {x : Writing α} {f : α → Writing β} (hx : x.Portable slots)
    (hf : ∀ a, (f a).Reaches slots' k) : (x >>= f).Reaches (slots ++ slots') k := by
  intro layout
  obtain ⟨outcome, lines, hlines, houtcome, -⟩ := hx layout
  rw [checkSlots_append, ← houtcome]
  cases outcome with
  | error e => exact ⟨.error e, lines, hlines.fail, rfl, nofun⟩
  | ok a =>
    obtain ⟨outcome, lines', hlines', houtcome', hreaches⟩ := hf a layout
    refine ⟨outcome, lines ++ lines', hlines.bind hlines', houtcome', fun h => ?_⟩
    obtain ⟨rest, hrest⟩ := hreaches h
    exact ⟨rest, List.mem_append_right _ hrest⟩

theorem Reaches.indented {body : Writing Unit} (h : body.Reaches slots k) :
    (Writing.indented body).Reaches slots (k + 1) := by
  intro layout
  obtain ⟨outcome, lines, hlines, houtcome, hreaches⟩ := h layout
  refine ⟨outcome, _, hlines.indented, houtcome, fun h => ?_⟩
  obtain ⟨rest, hrest⟩ := hreaches h
  refine ⟨rest, ?_⟩
  rw [copies_succ, List.append_assoc]
  exact List.mem_map_of_mem hrest

theorem Reaches.bind_line {x : Writing Unit} (h : x.Reaches slots k) (text : String) :
    Reaches slots k (do x; line text) := by
  simpa using h.bind fun _ => portable_line text

end Writing

open Writing

namespace Stmt

/-- A branch of the statement is not empty, so that something is written one step further in. -/
def Indents : Stmt → Prop
  | .ifThen _ (.block body) | .ifElse _ (.block body) _ => body ≠ []
  | .switch _ arms => arms ≠ []
  | _ => False

theorem Indents.branches {s : Stmt} (h : s.Indents) : s.isIf = true ∨ s.isSwitch = true := by
  cases s with
  | ifThen | ifElse => exact .inl rfl
  | switch => exact .inr rfl
  | _ => cases h

theorem emitLabel_reaches (label : Option Expr) :
    (emitLabel label).Reaches (label.map some).toList 0 := by
  cases label with
  | none => exact reaches_line "default:"
  | some e =>
    rw [emitLabel]
    exact (portable_textOf (some e)).reaches fun _ => reaches_line _

theorem emitAs_braced_portable (s : Stmt) : (s.emitAs .braced).Portable s.slots := by
  rw [← slotsAs_braced]
  exact s.emitAs_portable .braced

/-- Every statement leaves a line. -/
theorem emit_reaches (s : Stmt) : s.emit.Reaches s.slots 0 := by
  rw [emit]
  cases s with
  | action e =>
    rw [emitAs]
    exact (portable_textOf e).reaches fun _ => reaches_statement _
  | ret value =>
    cases value with
    | none => rw [emitAs]; exact reaches_statement _
    | some e =>
      rw [emitAs]
      exact (portable_textOf (some e)).reaches fun _ => reaches_statement _
  | brk => rw [emitAs]; exact reaches_statement _
  | block body =>
    rw [emitAs, if_neg (by decide)]
    exact (reaches_line _).bind fun _ => (emitAll_portable body).indented.bind_line _
  | ifThen test body =>
    rw [emitAs]
    exact (portable_textOf test).reaches fun _ => (reaches_line _).bind fun _ =>
      body.emitAs_braced_portable.indented.bind_line _
  | ifElse test body other =>
    rw [emitAs]
    exact (portable_textOf test).reaches fun _ => (reaches_line _).bind fun _ =>
      body.emitAs_braced_portable.indented.bind fun _ =>
        portable_else (other.emitAs_portable .tail) (other.emitAs_portable .braced)
  | switch subject arms =>
    rw [emitAs]
    exact (portable_textOf _).reaches fun _ => (reaches_line _).bind fun _ =>
      (emitArms_portable arms).indented.bind_line _
  | arm a =>
    obtain ⟨label, body⟩ := a
    rw [emitAs]
    exact (emitLabel_reaches label).bind fun _ => (emitAll_portable body).indented

theorem emitAll_reaches {body : List Stmt} (h : body ≠ []) :
    (emitAll body).Reaches (slotsOf body) 0 := by
  cases body with
  | nil => exact absurd rfl h
  | cons s rest => exact s.emit_reaches.bind fun _ => emitAll_portable rest

theorem emitArms_reaches {arms : List (Arm Stmt)} (h : arms ≠ []) :
    (emitArms arms).Reaches (armSlots arms) 0 := by
  cases arms with
  | nil => exact absurd rfl h
  | cons a rest =>
    obtain ⟨label, body⟩ := a
    rw [emitArms, armSlots, List.append_assoc]
    exact (emitLabel_reaches label).bind fun _ => (emitAll_portable body).indented.bind fun _ =>
      emitArms_portable rest

/-- **What stands in a branch is written one step further in.** -/
theorem Indents.reaches {s : Stmt} (h : s.Indents) : s.emit.Reaches s.slots 1 := by
  rw [emit]
  cases s with
  | ifThen test body =>
    cases body with
    | block body =>
      rw [emitAs, emitAs, if_pos rfl]
      exact (portable_textOf test).reaches fun _ => (portable_line _).reaches fun _ =>
        (emitAll_reaches h).indented.bind_line _
    | _ => cases h
  | ifElse test body other =>
    cases body with
    | block body =>
      rw [emitAs, emitAs, if_pos rfl]
      exact (portable_textOf test).reaches fun _ => (portable_line _).reaches fun _ =>
        (emitAll_reaches h).indented.bind fun _ =>
          portable_else (other.emitAs_portable .tail) (other.emitAs_portable .braced)
    | _ => cases h
  | switch subject arms =>
    rw [emitAs]
    exact (portable_textOf _).reaches fun _ => (portable_line _).reaches fun _ =>
      (emitArms_reaches h).indented.bind_line _
  | _ => cases h

/-- The first of the statements has a branch that is not empty. -/
def HeadIndents (body : List Stmt) : Prop := ∃ first rest, body = first :: rest ∧ first.Indents

theorem renderLines_of_headIndents (layout : Layout) {body : List Stmt} (h : HeadIndents body)
    (hfilled : Filled (slotsOf body)) :
    ∃ lines, Stmt.renderLines layout body = .ok lines ∧ ∃ rest, layout.indent ++ rest ∈ lines := by
  obtain ⟨first, rest, rfl, hfirst⟩ := h
  obtain ⟨outcome, lines, hlines, houtcome, hreaches⟩ :=
    (hfirst.reaches.bind fun _ => emitAll_portable rest) layout
  have hslots : checkSlots (first.slots ++ slotsOf rest) = .ok () := checkSlots_of_filled hfilled
  rw [hslots] at houtcome
  cases outcome with
  | error e => cases houtcome
  | ok _ =>
    obtain ⟨text, htext⟩ := hreaches hslots
    rw [copies_succ, List.append_assoc] at htext
    exact ⟨lines, renderLines_of_emits hlines, _, htext⟩

end Stmt

/-! ## Edits of sites -/

namespace Site

variable {site : Site} {layout : Layout} {body : List Stmt}

/-- An edit puts the encoding of a text in the place of the statement. -/
theorem edit_eq_ok {items : List Item} {e : Edit} :
    site.edit layout items = .ok e ↔ ∃ text, site.replacement layout items = .ok (.ofString text) ∧
      e = ⟨site.start, site.stop, Utf8.encode text⟩ := by
  constructor
  · intro h
    obtain ⟨replacement, hreplacement, h⟩ := bind_eq_ok.mp h
    split at h
    next text htext =>
      cases h
      obtain ⟨s, rfl⟩ := (WideText.exists_text?_iff.mp ⟨text, htext⟩).exists_eq
      cases (WideText.text?_ofString s).symm.trans htext
      exact ⟨text, hreplacement, rfl⟩
    next => cases h
  · rintro ⟨text, htext, rfl⟩
    rw [edit, htext, bind_ok_eq, WideText.text?_ofString]
    rfl

theorem edit_of_not_isPlain {items : List Item} {replacement : WideText}
    (hreplacement : site.replacement layout items = .ok replacement)
    (h : ¬ replacement.IsPlain) : site.edit layout items = .error .notEncodable := by
  rw [edit, hreplacement, bind_ok_eq]
  cases htext : replacement.text? with
  | none => rfl
  | some text => exact absurd (WideText.exists_text?_iff.mp ⟨text, htext⟩) h

theorem edit_isOk (hsite : site.indent.IsPlain) (hindent : layout.indent.IsPlain)
    (hfilled : Filled (slotsOf body)) : ∃ e, site.edit layout (body.map .stmt) = .ok e := by
  obtain ⟨lines, hlines, hshape⟩ := Stmt.renderLines_isOk layout hfilled
  have hplain : ∀ l ∈ lines, l.IsPlain := fun l hl => (hshape l hl).isPlain hindent
  obtain ⟨replacement, hreplacement, htext⟩ : ∃ replacement,
      site.replacement layout (body.map .stmt) = .ok replacement ∧ replacement.IsPlain := by
    rw [replacement, ← Stmt.renderLines, hlines, bind_ok_eq]
    split
    · refine ⟨_, rfl, ?_⟩
      have hinner := WideText.isPlain_append.mpr ⟨hsite, hindent⟩
      simp only [WideText.isPlain_append, WideText.isPlain_ofString, hsite, hindent,
        isPlain_indentFragment hinner hplain, and_self]
    · exact ⟨_, rfl, isPlain_indentFragment hsite hplain⟩
  obtain ⟨text, rfl⟩ := htext.exists_eq
  exact ⟨_, edit_eq_ok.mpr ⟨text, hreplacement, rfl⟩⟩

/-- A surrogate in the indent comes into what is written one step further in. -/
theorem edit_of_surrogate (hindent : ¬ layout.indent.IsPlain) (hhead : Stmt.HeadIndents body)
    (hfilled : Filled (slotsOf body)) :
    site.edit layout (body.map .stmt) = .error .notEncodable := by
  obtain ⟨lines, hlines, rest, hline⟩ := Stmt.renderLines_of_headIndents layout hhead hfilled
  have hfragment (margin : WideText) : ¬ (indentFragment lines margin).IsPlain := fun h =>
    hindent (WideText.isPlain_append.mp (isPlain_of_indentFragment h _ hline)).1
  obtain ⟨replacement, hreplacement, htext⟩ : ∃ replacement,
      site.replacement layout (body.map .stmt) = .ok replacement ∧ ¬ replacement.IsPlain := by
    rw [replacement, ← Stmt.renderLines, hlines, bind_ok_eq]
    split
    · refine ⟨_, rfl, ?_⟩
      simp only [WideText.isPlain_append, hfragment, and_false, false_and, not_false_iff]
    · exact ⟨_, rfl, hfragment _⟩
  exact edit_of_not_isPlain hreplacement htext

end Site

/-! ## Statements that branch -/

/-- Is the expression one of `a && b`, `a || b` and `a ?? b`? -/
def Expr.isShortCircuit : Expr → Bool
  | .logical _ op _ => isLogicalOperator op
  | _ => false

namespace DecisionTree

theorem isLeaf_ofExpr_cond (descend : Bool) {e : Expr} (h : e.isConditional = true) :
    (ofExpr descend e).isLeaf = false := by
  cases e with
  | cond => rfl
  | _ => cases h

theorem isLeaf_ofExpr_logical {e : Expr} (h : e.isShortCircuit = true) :
    (ofExpr true e).isLeaf = false := by
  cases e with
  | logical l op r => rcases Expr.logical_cases h with rfl | rfl | rfl <;> rfl
  | _ => cases h

theorem ifChain_ne_nil {t : DecisionTree} (ht : Filled t.slots) {place : Place}
    {maker maker' : Option SwitchMaker} {body : List Stmt}
    (h : t.ifChain place maker = .ok (body, maker')) : body ≠ [] := by
  revert ht
  refine ifChain_induction (P := fun t body => Filled t.slots → body ≠ [])
    ?switch ?idle ?act ?onYes ?onNo ?fork (.refl maker) h
  case idle =>
    intro ht
    obtain ⟨⟨_, hnone, _⟩, _⟩ := filled_cons.mp ht
    cases hnone
  all_goals
    intros
    exact List.cons_ne_nil _ _

theorem indents_of_switch? {maker maker' : Option SwitchMaker} {place : Place} {t : DecisionTree}
    {s : Stmt} (h : switch? maker place t = .ok (some s, maker')) : s.Indents := by
  obtain ⟨m, m', base, arms, rfl, rfl, hfound⟩ := switch?_found h
  obtain ⟨a, ha, _⟩ := ((SwitchMaker.trySwitch_cases hfound).2 base arms rfl).wellFormed.labelled
  exact List.ne_nil_of_mem ha

theorem indents_attachElse (guard : Option Expr) {yes : List Stmt} (no : List Stmt)
    (h : yes ≠ []) : (attachElse guard yes no).Indents := by
  unfold attachElse
  split <;> exact h

/-- **A tree that branches becomes an `if` or a `switch`, with something in its branches.** -/
theorem ifChain_indents {t : DecisionTree} (ht : Filled t.slots) (hleaf : t.isLeaf = false)
    {place : Place} {maker maker' : Option SwitchMaker} {body : List Stmt}
    (h : t.ifChain place maker = .ok (body, maker')) : ∃ s, body = [s] ∧ s.Indents := by
  obtain ⟨s, hfound, rfl⟩ | ⟨maker₁, _, h⟩ := ifChain_cases h
  · exact ⟨s, rfl, indents_of_switch? hfound⟩
  · cases t with
    | leaf action => cases hleaf
    | onYes guard y | onNo guard y =>
      obtain ⟨⟨yes, maker₂⟩, hyes, h⟩ := bind_eq_ok.mp h
      cases h
      exact ⟨_, rfl, ifChain_ne_nil (filled_cons.mp ht).2 hyes⟩
    | fork guard y n =>
      obtain ⟨⟨no, maker₂⟩, _, h⟩ := bind_eq_ok.mp h
      obtain ⟨⟨yes, maker₃⟩, hyes, h⟩ := bind_eq_ok.mp h
      cases h
      have hy : Filled y.slots := (filled_append.mp (filled_cons.mp ht).2).1
      exact ⟨_, rfl, indents_attachElse guard no (ifChain_ne_nil hy hyes)⟩

end DecisionTree

theorem GuardedReturns.ne_nil {e : Expr} {body : List Stmt} (h : GuardedReturns e body) :
    body ≠ [] := by
  cases h <;> exact List.cons_ne_nil _ _

theorem GuardedReturns.headIndents {e : Expr} {body : List Stmt} (h : GuardedReturns e body)
    (he : e.isConditional = true) : Stmt.HeadIndents body := by
  cases h with
  | cond hyes _ => exact ⟨_, _, rfl, hyes.ne_nil⟩
  | whole hwhole => cases hwhole.symm.trans he

namespace Node

variable {source : Bytes} {n : Node} {e : Expr}

theorem toExpr_ternary (hkind : n.kind = "ternary_expression") (h : n.toExpr source = .ok e) :
    e.isConditional = true := by
  rw [toExpr_eq, assemble, hkind] at h
  obtain ⟨test, _, h⟩ := bind_eq_ok.mp h
  obtain ⟨yes, _, h⟩ := bind_eq_ok.mp h
  obtain ⟨no, _, h⟩ := bind_eq_ok.mp h
  cases h
  rfl

theorem toExpr_logical (hlogical : n.isLogical = true) (h : n.toExpr source = .ok e) :
    e.isShortCircuit = true := by
  rw [isLogical, Bool.and_eq_true, beq_iff_eq] at hlogical
  obtain ⟨hkind, hop⟩ := hlogical
  cases hc : n.child? "operator" with
  | none => rw [hc] at hop; cases hop
  | some c =>
    rw [hc, Option.any_some] at hop
    rw [toExpr_eq, assemble, hkind] at h
    simp only [part_of_child? hc, bind_ok_eq] at h
    obtain ⟨left, _, h⟩ := bind_eq_ok.mp h
    obtain ⟨right, _, h⟩ := bind_eq_ok.mp h
    rw [if_pos hop] at h
    cases h
    exact hop

/-- **A statement that was found has an expression of the form that its kind tells.** -/
theorem triggers_branch {root : Node} {ts : List Trigger} (hts : root.triggers source = .ok ts)
    {t : Trigger} (ht : t ∈ ts) :
    t.kind = .logical ∧ t.expr.isShortCircuit = true ∨
      t.kind ≠ .logical ∧ t.expr.isConditional = true := by
  obtain ⟨v, _, m, htrigger, he, _⟩ := triggers_found hts ht
  obtain ⟨_, ⟨hkind, hm⟩ | ⟨hkind, hm⟩⟩ := trigger?_eq_some htrigger
  · exact .inl ⟨hkind, toExpr_logical hm he⟩
  · exact .inr ⟨hkind, toExpr_ternary hm he⟩

end Node

variable {o : Options} {root : Node} {source : Bytes} {ts : List Trigger}

/-- **What takes the place of a statement that was found begins with a branch.** -/
theorem Trigger.rewrite?_headIndents (hts : root.triggers source = .ok ts) {t : Trigger}
    (ht : t ∈ ts) {r : Replacement} (hr : t.rewrite? o = some r) : Stmt.HeadIndents r.body := by
  have hform := Node.triggers_branch hts ht
  have hprintable := Node.triggers_isPrintable hts ht
  by_cases hret : t.kind = .ret
  · obtain ⟨body, hreturns, hruns⟩ := unfold_return_runs o hret
    rw [rewrite?, hruns.outcome] at hr
    dsimp only at hr
    split at hr
    next =>
      cases hr
      rcases hform with ⟨hkind, _⟩ | ⟨_, hcond⟩
      · cases hret.symm.trans hkind
      · exact hreturns.headIndents hcond
    next => cases hr
  · obtain ⟨body, maker, hbody, hruns⟩ := unfold_action_runs o hret hprintable
    rw [rewrite?, hruns.outcome] at hr
    cases hr
    have hleaf : (DecisionTree.ofExpr true t.expr).isLeaf = false := by
      rcases hform with ⟨_, hlogical⟩ | ⟨_, hcond⟩
      · exact DecisionTree.isLeaf_ofExpr_logical hlogical
      · exact DecisionTree.isLeaf_ofExpr_cond true hcond
    obtain ⟨s, hs, hindents⟩ :=
      DecisionTree.ifChain_indents (DecisionTree.filled_ofExpr true hprintable) hleaf hbody
    exact ⟨s, [], hs, hindents⟩

/-! ## The edits of a pass -/

theorem edits_eq_nil_iff {picked : List Replacement} {layout : Layout} {edits : List Edit}
    (h : picked.mapM (·.edit layout) = .ok edits) : edits = [] ↔ picked = [] := by
  have hlength := congrArg List.length (mapM_eq_ok.mp h)
  rw [List.length_map, List.length_map] at hlength
  rw [← List.length_eq_zero_iff, ← List.length_eq_zero_iff, hlength]

/-- **A statement that was found can be edited exactly if the indent has no surrogate in it.** -/
theorem takeOutermost_edit (hts : root.triggers source = .ok ts) {covered : Int} {r : Replacement}
    (hr : r ∈ takeOutermost o covered ts) :
    if o.layout.indent.IsPlain then ∃ e, r.edit o.layout = .ok e
    else r.edit o.layout = .error .notEncodable := by
  obtain ⟨hfound, hrewrite, hfilled⟩ :=
    takeOutermost_mem (fun _ ht => Node.triggers_isPrintable hts ht) hr
  split
  next hindent =>
    obtain ⟨v, _, _, _, _, hsite⟩ := Node.triggers_found hts hfound
    refine Site.edit_isOk ?_ hindent hfilled
    rw [hsite]
    exact WideText.isPlain_ofString _
  next hindent =>
    exact Site.edit_of_surrogate hindent (Trigger.rewrite?_headIndents hts hfound hrewrite) hfilled

/-- **All edits of a pass can be made, or the first one fails**: they can if there is nothing to edit
or no surrogate stands in the indent. -/
theorem edits_cases (hts : root.triggers source = .ok ts) (covered : Int) :
    (∃ edits, (takeOutermost o covered ts).mapM (·.edit o.layout) = .ok edits ∧
      (takeOutermost o covered ts = [] ∨ o.layout.indent.IsPlain)) ∨
    (takeOutermost o covered ts).mapM (·.edit o.layout) = .error .notEncodable ∧
      takeOutermost o covered ts ≠ [] ∧ ¬ o.layout.indent.IsPlain := by
  have hedit (r : Replacement) (hr : r ∈ takeOutermost o covered ts) := takeOutermost_edit hts hr
  by_cases hindent : o.layout.indent.IsPlain
  · simp only [if_pos hindent] at hedit
    obtain ⟨edits, hedits⟩ := mapM_isOk hedit
    exact .inl ⟨edits, hedits, .inr hindent⟩
  · simp only [if_neg hindent] at hedit
    cases htaken : takeOutermost o covered ts with
    | nil => exact .inl ⟨[], rfl, .inl rfl⟩
    | cons r rest =>
      refine .inr ⟨?_, List.cons_ne_nil r rest, hindent⟩
      rw [List.mapM_cons, hedit r (htaken ▸ List.mem_cons_self)]
      rfl

/-- **How a pass over a tree without a defect ends.** -/
theorem passEdits_ends (o : Options) {p : Progress} (hcheck : root.check p.source = .ok ())
    (hts : root.triggers p.source = .ok ts) :
    ∃ events, Log.Quiet events ∧
      ((∃ edits, (takeOutermost o (-1) ts).mapM (·.edit o.layout) = .ok edits ∧
          (takeOutermost o (-1) ts = [] ∨ o.layout.indent.IsPlain) ∧
          (passEdits o root p).Runs (.ok (edits,
            (takeOutermost o (-1) ts).foldl (fun report r => r.enter report) p.report)) events) ∨
        takeOutermost o (-1) ts ≠ [] ∧ ¬ o.layout.indent.IsPlain ∧
          (passEdits o root p).Runs (.error .notEncodable) events) := by
  obtain ⟨events, hruns, hquiet⟩ := passEdits_runs o hcheck hts
  refine ⟨events, hquiet, ?_⟩
  obtain ⟨edits, hedits, hplain⟩ | ⟨hedits, hne, hplain⟩ := edits_cases (o := o) hts (-1)
  · rw [hedits] at hruns
    exact .inl ⟨edits, hedits, hplain, hruns⟩
  · rw [hedits] at hruns
    exact .inr ⟨hne, hplain, hruns⟩

end CondUnfold
