import CondUnfold.Proofs.Progress
import CondUnfold.Syntax.Lexeme

/-!
# Where a replacement ends

What takes the place of a statement ends in the brace of an `if`, of a `switch` or of a block, or in a
`return`. The span of the statement includes its semicolon. So where the layout has no semicolons and
the replacement is a run of guarded returns outside of a block, nothing divides the last of the returned
expressions from what stands behind the span, and the two may be read as one word. This is the only
case (`Trigger.replacement_fuses_iff`).
-/

namespace CondUnfold

open Except

/-! ## The last line -/

namespace Writing

variable {α β : Type} {slots : List (Option Expr)} {tail : Layout → String}

/-- If the work succeeds, then the last line is `tail` behind a margin. -/
def Ends (tail : Layout → String) (x : Writing α) : Prop :=
  ∀ w a, (x.run w).1 = .ok a →
    ∃ front margin, (x.run w).2.lines = front ++ [margin ++ .ofString (tail w.layout)]

theorem ends_line (text : String) : Ends (fun _ => text) (line text) :=
  fun w _ _ => ⟨w.lines, _, rfl⟩

/-- A simple statement as the layout has it. -/
def statementText (text : String) (layout : Layout) : String :=
  if layout.semicolons then text ++ ";" else text

theorem ends_statement (text : String) : Ends (statementText text) (statement text) :=
  fun w _ _ => ⟨w.lines, _, rfl⟩

/-- The last line is that of the last work. -/
theorem Portable.ends {x : Writing α} {f : α → Writing β} (hx : x.Portable slots)
    (hf : ∀ w a, (x.run w).1 = .ok a → (f a).Ends tail) : (x >>= f).Ends tail := by
  intro w b h
  rw [run_bind] at h ⊢
  cases hout : (x.run w).1 with
  | error e => rw [hout] at h; cases h
  | ok a =>
    rw [hout] at h
    rw [← hx.layout_eq w]
    exact hf w a hout (x.run w).2 b h

theorem textOf_eq_text {e : Expr} {w : Writer} {text : String}
    (h : ((textOf (some e)).run w).1 = .ok text) : text = e.text := by
  cases hrender : e.render with
  | error error => simp only [textOf, hrender] at h; cases h
  | ok text' =>
    simp only [textOf, hrender] at h
    cases h
    unfold Expr.render at hrender
    split at hrender
    next => cases hrender; rfl
    next => cases hrender

end Writing

open Writing

namespace Stmt

theorem ends_head {form : Form} {test : Option Expr} {rest : Writing Unit} {tail : Layout → String}
    (hrest : rest.Ends tail) :
    Ends tail (do
      if form ≠ .tail then
        let text ← textOf test
        line (ifHead text)
      rest) := by
  simp only
  split
  · exact (portable_textOf test).ends fun _ _ _ => (portable_line _).ends fun _ _ _ => hrest
  · exact hrest

/-- An `if` and a `switch` end in a brace. -/
theorem ends_brace : (s : Stmt) → (form : Form) → s.isIf = true ∨ s.isSwitch = true →
    (s.emitAs form).Ends fun _ => blockEnd
  | .ifThen test body, form, _ => by
    rw [emitAs]
    exact ends_head ((body.emitAs_portable .braced).indented.ends fun _ _ _ => ends_line _)
  | .ifElse test body other, form, _ => by
    rw [emitAs]
    refine ends_head ((body.emitAs_portable .braced).indented.ends fun _ _ _ => ?_)
    split
    next test' htest =>
      exact (portable_textOf test').ends fun _ _ _ => (portable_line _).ends fun _ _ _ =>
        other.ends_brace .tail (.inl (by rw [isIf, htest]; rfl))
    next =>
      exact (portable_line _).ends fun _ _ _ =>
        (other.emitAs_portable .braced).indented.ends fun _ _ _ => ends_line _
  | .switch subject arms, form, _ => by
    rw [emitAs]
    exact (portable_textOf _).ends fun _ _ _ => (portable_line _).ends fun _ _ _ =>
      (emitArms_portable arms).indented.ends fun _ _ _ => ends_line _
  | .action _, _, h | .ret _, _, h | .brk, _, h | .block _, _, h | .arm _, _, h => by
    rcases h with h | h <;> cases h

end Stmt

/-- The arm of a conditional that its text ends with. -/
def Expr.lastArm : Expr → Expr
  | .cond _ _ n => n.lastArm
  | e => e

theorem GuardedReturns.ends {e : Expr} {body : List Stmt} (h : GuardedReturns e body) :
    (Stmt.emitAll body).Ends (statementText ("return " ++ e.lastArm.text)) := by
  induction h with
  | @cond y yes n no t _ _ _ ih =>
    rw [Stmt.emitAll, Expr.lastArm]
    exact (Stmt.emitAs_portable .whole _).ends fun _ _ _ => ih
  | @whole e he =>
    have harm : e.lastArm = e := by
      cases e with
      | cond => cases he
      | _ => rfl
    rw [Stmt.emitAll_singleton, harm, Stmt.emitAs]
    refine (portable_textOf _).ends fun w text htext => ?_
    rw [textOf_eq_text htext]
    exact ends_statement _

/-! ## The last character -/

theorem getLast?_indentFragment (front : List WideText) (margin margin' : WideText)
    {tail : WideText} (htail : tail ≠ []) :
    (indentFragment (front ++ [margin ++ tail]) margin').getLast? = tail.getLast? := by
  cases front with
  | nil =>
    rw [List.nil_append, indentFragment, List.map_nil, joinLines_singleton,
      List.getLast?_append_of_ne_nil _ htail]
  | cons first rest =>
    have hline : (margin ++ tail).isEmpty = false :=
      List.isEmpty_eq_false_iff.mpr (List.append_ne_nil_of_right_ne_nil margin htail)
    rw [List.cons_append, indentFragment, List.map_append, List.map_singleton, hline,
      if_neg Bool.false_ne_true, ← List.cons_append, joinLines_concat (List.cons_ne_nil _ _),
      ← List.append_assoc margin', ← List.append_assoc, List.getLast?_append_of_ne_nil _ htail]

/-- The replacement ends where its last line ends, unless it is put into a block. -/
theorem Site.replacement_ends (site : Site) (layout : Layout) {body : List Stmt}
    {tail : Layout → String} (hends : (Stmt.emitAll body).Ends tail) (htail : tail layout ≠ "")
    (hbody : Filled (slotsOf body)) :
    ∃ text, site.replacement layout (body.map .stmt) = .ok text ∧ text.getLast? =
      (WideText.ofString (if site.needsBlock then blockEnd else tail layout)).getLast? := by
  obtain ⟨a, ha⟩ := (Stmt.emitAll_portable body).exists_ok (checkSlots_of_filled hbody) { layout }
  obtain ⟨front, margin, hlines⟩ := hends { layout } a ha
  have hrender : Item.renderLines layout (body.map .stmt) =
      .ok (front ++ [margin ++ .ofString (tail layout)]) := by
    rw [Item.renderLines, Stmt.forM_emit]
    generalize (Stmt.emitAll body).run { layout } = outcome at ha hlines ⊢
    obtain ⟨result, w⟩ := outcome
    cases ha
    exact congrArg Except.ok hlines
  rw [Site.replacement, hrender, bind_ok_eq]
  split
  · exact ⟨_, rfl, List.getLast?_append_of_ne_nil _ (by decide)⟩
  · exact ⟨_, rfl, getLast?_indentFragment front margin site.indent (WideText.ofString_ne_nil htail)⟩

/-! ## Statements that were found -/

/-- The letters and digits of ASCII, `_` and `$`. -/
def isNameSign (c : Char) : Bool := c.isAlphanum || c == '_' || c == '$'

/-- A word at the end of the text goes on in the bytes behind it. The text may end in any character
of an identifier; behind it, the first byte is a sign by itself. -/
def Fuses (text : WideText) (behind : Bytes) : Prop :=
  (∃ c, text.getLast? = some (.char c) ∧ Lexeme.isIdentifierChar c = true) ∧
    ∃ b ∈ behind.head?, isNameSign (Char.ofNat b.toNat) = true

theorem not_fuses_of_getLast? {text : WideText} {behind : Bytes} {c : Char}
    (hc : text.getLast? = some (.char c)) (hsign : Lexeme.isIdentifierChar c = false) :
    ¬ Fuses text behind := by
  rintro ⟨⟨c', hc', hsign'⟩, -⟩
  cases hc.symm.trans hc'
  cases hsign.symm.trans hsign'

theorem fuses_return {text : String} {behind : Bytes} :
    Fuses (.ofString ("return " ++ text)) behind ↔ Fuses (.ofString text) behind := by
  by_cases hempty : text = ""
  · subst hempty
    have hspace : (WideText.ofString ("return " ++ "")).getLast? = some (.char ' ') := by decide
    refine iff_of_false (not_fuses_of_getLast? hspace (by decide)) ?_
    rintro ⟨⟨c, ⟨⟩, -⟩, -⟩
  · rw [Fuses, WideText.ofString_append,
      List.getLast?_append_of_ne_nil _ (WideText.ofString_ne_nil hempty)]
    rfl

namespace Trigger

variable {o : Options} {root : Node} {source : Bytes} {ts : List Trigger} {t : Trigger}
  {r : Replacement}

/-- Neither a semicolon nor a brace comes behind the last of the returned expressions. -/
def EndsOpen (t : Trigger) (layout : Layout) : Prop :=
  t.kind = .ret ∧ layout.semicolons = false ∧ t.site.needsBlock = false

instance (t : Trigger) (layout : Layout) : Decidable (t.EndsOpen layout) :=
  inferInstanceAs (Decidable (_ ∧ _))

/-- The last line of what takes the place of a statement. -/
def ending (t : Trigger) (layout : Layout) : String :=
  if t.kind = .ret then statementText ("return " ++ t.expr.lastArm.text) layout else blockEnd

theorem unfold_ends (hts : root.triggers source = .ok ts) (ht : t ∈ ts)
    (hr : (t.unfold o).outcome.1 = .ok (some r)) :
    (Stmt.emitAll r.body).Ends t.ending ∧ Filled (slotsOf r.body) := by
  have hprintable := Node.triggers_isPrintable hts ht
  obtain ⟨_, _, _, hfilled⟩ := unfolds_rewrite? o hprintable
  refine ⟨?_, (hfilled r (by rw [rewrite?, hr])).2⟩
  by_cases hret : t.kind = .ret
  · have hending : t.ending = statementText ("return " ++ t.expr.lastArm.text) :=
      funext fun _ => if_pos hret
    obtain ⟨body, hreturns, hruns⟩ := unfold_return_runs o hret
    rw [hruns.outcome] at hr
    split at hr
    next => cases hr; rw [hending]; exact hreturns.ends
    next => cases hr
  · have hending : t.ending = fun _ => blockEnd := funext fun _ => if_neg hret
    have hleaf : (DecisionTree.ofExpr true t.expr).isLeaf = false := by
      rcases Node.triggers_branch hts ht with ⟨_, hlogical⟩ | ⟨_, hcond⟩
      · exact DecisionTree.isLeaf_ofExpr_logical hlogical
      · exact DecisionTree.isLeaf_ofExpr_cond true hcond
    obtain ⟨body, maker, hbody, hruns⟩ := unfold_action_runs o hret hprintable
    rw [hruns.outcome] at hr
    cases hr
    obtain ⟨s, rfl, hs⟩ :=
      DecisionTree.ifChain_indents (DecisionTree.filled_ofExpr true hprintable) hleaf hbody
    rw [hending, Stmt.emitAll_singleton]
    exact s.ends_brace .whole hs.branches

theorem ending_ne_empty (t : Trigger) (layout : Layout) : t.ending layout ≠ "" := by
  unfold ending statementText
  split
  · split <;> simp
  · decide

/-- The replacement ends in the last returned expression, or else in a semicolon or a brace. -/
theorem getLast?_ending (t : Trigger) (layout : Layout) :
    (t.EndsOpen layout ∧ t.ending layout = "return " ++ t.expr.lastArm.text) ∨
      ¬ t.EndsOpen layout ∧
        (WideText.ofString (if t.site.needsBlock then blockEnd else t.ending layout)).getLast? ∈
          [some (.char ';'), some (.char '\x7d')] := by
  unfold EndsOpen ending statementText
  by_cases hret : t.kind = .ret
  · cases hsemicolons : layout.semicolons with
    | true =>
      refine .inr ⟨by simp, ?_⟩
      rw [if_pos hret, if_pos rfl]
      split
      · decide
      · rw [WideText.ofString_append, List.getLast?_append_of_ne_nil _ (by decide)]
        decide
    | false =>
      cases hblock : t.site.needsBlock with
      | true =>
        rw [if_pos rfl]
        exact .inr ⟨by simp, by decide⟩
      | false => exact .inl ⟨⟨hret, rfl, rfl⟩, by rw [if_pos hret]; rfl⟩
  · refine .inr ⟨fun h => hret h.1, ?_⟩
    rw [if_neg hret]
    split <;> decide

/-- **When a replacement fuses with what stands behind the statement.** It does so only in a layout
without semicolons, for a statement outside of a block that returns, if the last of the returned
expressions and the source behind the statement make one word. In all other cases it ends in a semicolon
or a brace. -/
theorem replacement_fuses_iff (hts : root.triggers source = .ok ts) (ht : t ∈ ts)
    (hr : (t.unfold o).outcome.1 = .ok (some r)) (layout : Layout) :
    ∃ text, t.site.replacement layout (r.body.map .stmt) = .ok text ∧
      (Fuses text (sliceFrom source t.site.stop) ↔ t.EndsOpen layout ∧
        Fuses (.ofString t.expr.lastArm.text) (sliceFrom source t.site.stop)) ∧
      (¬ t.EndsOpen layout → text.getLast? ∈ [some (.char ';'), some (.char '\x7d')]) := by
  obtain ⟨hends, hfilled⟩ := unfold_ends hts ht hr
  obtain ⟨text, htext, hlast⟩ :=
    t.site.replacement_ends layout hends (t.ending_ne_empty layout) hfilled
  refine ⟨text, htext, ?_⟩
  rcases t.getLast?_ending layout with ⟨hopen, hending⟩ | ⟨hclosed, hending⟩
  · refine ⟨?_, fun hclosed => absurd hopen hclosed⟩
    have hsame : text.getLast? =
        (WideText.ofString ("return " ++ t.expr.lastArm.text)).getLast? := by
      rw [hlast, hopen.2.2, ← hending]
      rfl
    rw [and_iff_right hopen, Fuses, hsame]
    exact fuses_return
  · rw [← hlast] at hending
    refine ⟨iff_of_false ?_ fun h => hclosed h.1, fun _ => hending⟩
    simp only [List.mem_cons, List.not_mem_nil, or_false] at hending
    rcases hending with hending | hending
    · exact not_fuses_of_getLast? hending (by decide)
    · exact not_fuses_of_getLast? hending (by decide)

end Trigger

namespace MinifiedCase

open Sample

def source : Bytes :=
  Utf8.encode (switchHead "x" ++ "case 1:return a?b:c?d:e;case 2:f();" ++ blockEnd)

def arms : Node :=
  node "ternary_expression" 26 35 [part "condition" (word 26), part "consequence" (word 28),
    part "alternative" (node "ternary_expression" 30 35
      [part "condition" (word 30), part "consequence" (word 32), part "alternative" (word 34)])]

def root : Node :=
  node "program" 0 48 [node "switch_statement" 0 48 [node "switch_body" 11 48
    [node "switch_case" 12 36 [node "return_statement" 19 36 [arms]]]]]

/-- A layout without semicolons. -/
def bare : Layout := { semicolons := false }

def fragment : String :=
  ifHead "a" ++ "\n  return b\n" ++ blockEnd ++ "\n" ++ ifHead "c" ++ "\n  return d\n" ++ blockEnd ++
    "\nreturn e"

/-- What takes the place of the statement in this layout, and the source with it in place. -/
def replaced (o : Options) (t : Trigger) : Option (WideText × Bytes) := do
  let r ← (t.unfold o).outcome.1.toOption.bind id
  let text ← (t.site.replacement bare (r.body.map .stmt)).toOption
  let result ← (t.site.splice bare (r.body.map .stmt) source).toOption
  return (text, result)

theorem exists_replacement : ∃ t r, root.triggers source = .ok [t] ∧
    (t.unfold {}).outcome.1 = .ok (some r) ∧ t.site.stop = 36 ∧
    t.site.replacement bare (r.body.map .stmt) = .ok (.ofString fragment) ∧
    t.site.splice bare (r.body.map .stmt) source =
      .ok (Utf8.encode (switchHead "x" ++ "case 1:" ++ fragment ++ "case 2:f();" ++ blockEnd)) := by
  have hfound : (root.triggers source).toOption.map (·.map fun t => (t.site.stop, replaced {} t)) =
      some [(36, some (.ofString fragment, Utf8.encode
        (switchHead "x" ++ "case 1:" ++ fragment ++ "case 2:f();" ++ blockEnd)))] := by
    decide +kernel
  obtain ⟨ts, hts, hfound⟩ := exists_ok_of_toOption hfound
  obtain ⟨t, rfl, ht⟩ := List.map_eq_singleton_iff.mp hfound
  obtain ⟨hstop, hreplaced⟩ := Prod.mk.inj ht
  obtain ⟨r, hr, hreplaced⟩ := Option.bind_eq_some_iff.mp hreplaced
  obtain ⟨r?, hr?, rfl⟩ := Option.bind_eq_some_iff.mp hr
  obtain ⟨text, hreplacement, hreplaced⟩ := Option.bind_eq_some_iff.mp hreplaced
  obtain ⟨result, hsplice, hreplaced⟩ := Option.bind_eq_some_iff.mp hreplaced
  obtain ⟨rfl, rfl⟩ := Prod.mk.inj (Option.some.inj hreplaced)
  exact ⟨t, r, hts, eq_ok_of_toOption hr?, hstop, eq_ok_of_toOption hreplacement,
    eq_ok_of_toOption hsplice⟩

/-- In a layout with semicolons the replacement ends in one. -/
theorem replacement_with_semicolons : ∃ t r text, root.triggers source = .ok [t] ∧
    (t.unfold {}).outcome.1 = .ok (some r) ∧
    t.site.replacement {} (r.body.map .stmt) = .ok text ∧
    text.getLast? ∈ [some (.char ';'), some (.char '\x7d')] ∧
    ¬ Fuses text (sliceFrom source t.site.stop) := by
  obtain ⟨t, r, hts, hr, -⟩ := exists_replacement
  obtain ⟨text, htext, hfuses, hclosed⟩ :=
    Trigger.replacement_fuses_iff hts List.mem_cons_self hr {}
  have hnot : ¬ t.EndsOpen {} := fun h => Bool.noConfusion h.2.1
  exact ⟨t, r, text, hts, hr, htext, hclosed hnot, fun h => hnot (hfuses.mp h).1⟩

/-- Without semicolons the last returned name and the word of the next label become one word. -/
theorem splice_makes_one_word : ∃ t r text, root.triggers source = .ok [t] ∧
    (t.unfold {}).outcome.1 = .ok (some r) ∧
    (sliceBefore source t.site.stop).getLast? = some ';'.toUInt8 ∧
    t.site.replacement bare (r.body.map .stmt) = .ok text ∧
    Fuses text (sliceFrom source t.site.stop) ∧
    t.site.splice bare (r.body.map .stmt) source =
      .ok (Utf8.encode (switchHead "x" ++ "case 1:" ++ ifHead "a" ++ "\n  return b\n" ++ blockEnd ++
        "\n" ++ ifHead "c" ++ "\n  return d\n" ++ blockEnd ++ "\nreturn ecase 2:f();" ++
        blockEnd)) := by
  obtain ⟨t, r, hts, hr, hstop, hreplacement, hsplice⟩ := exists_replacement
  refine ⟨t, r, .ofString fragment, hts, hr, ?_, hreplacement, ?_,
    hsplice.trans (congrArg Except.ok (by decide +kernel))⟩
  · rw [hstop]
    decide +kernel
  · rw [hstop]
    exact ⟨⟨'e', by decide +kernel, by decide⟩, 'c'.toUInt8, by decide +kernel, by decide +kernel⟩

end MinifiedCase

end CondUnfold
