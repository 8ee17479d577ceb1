import CondUnfold.Edit
import CondUnfold.Proofs.Fallible

/-!
# Writing at any level of indentation

What a statement writes does not depend on where it is written: at any level and behind any lines it
adds the same lines, each behind the margin of the level, and how it ends is told by the slots of
the statement (`Stmt.emitAs_portable`). Where a slot has no text, the lines before it stay and the
level is given back (`Stmt.emit_at_any_level`). So the lines of a block are those of its statements,
one step further in, between two braces (`Stmt.renderLines_block`). A replacement that is put into a
block is made in another way, by joining texts; the two agree (`Site.replacement_eq_block`).
-/

namespace CondUnfold

open Except

/-! ## Slots -/

mutual

/-- The slots for expressions in a statement. A `return` without a value and a `default` have
none. -/
def Stmt.slots : Stmt → List (Option Expr)
  | .action e => [e]
  | .ret none | .brk => []
  | .ret (some e) => [some e]
  | .block body => slotsOf body
  | .ifThen test body => test :: body.slots
  | .ifElse test body other => test :: (body.slots ++ other.slots)
  | .switch subject arms => some subject :: armSlots arms
  | .arm ⟨label, body⟩ => (label.map some).toList ++ slotsOf body

/-- The slots in the statements of a list. -/
def slotsOf : List Stmt → List (Option Expr)
  | [] => []
  | s :: body => s.slots ++ slotsOf body

/-- The slots in arms. -/
def armSlots : List (Arm Stmt) → List (Option Expr)
  | [] => []
  | ⟨label, body⟩ :: arms => (label.map some).toList ++ slotsOf body ++ armSlots arms

end

/-- The text of what stands in a slot. -/
def slotText : Option Expr → Except Error String
  | none => .error .noExpression
  | some e => e.render

/-- Have all slots a text? If not, the first one without it tells the cause. -/
def checkSlots : List (Option Expr) → Except Error Unit
  | [] => .ok ()
  | slot :: slots => do
    let _ ← slotText slot
    checkSlots slots

theorem checkSlots_append (slots slots' : List (Option Expr)) :
    checkSlots (slots ++ slots') = checkSlots slots >>= fun _ => checkSlots slots' := by
  induction slots with
  | nil => rfl
  | cons slot slots ih =>
    rw [List.cons_append, checkSlots, checkSlots]
    cases slotText slot with
    | error e => rfl
    | ok text => exact ih

theorem slotText_ne_indentUnderflow (slot : Option Expr) :
    slotText slot ≠ .error .indentUnderflow := by
  cases slot with
  | none => exact fun h => by cases h
  | some e =>
    rw [slotText, Expr.render]
    split <;> exact fun h => by cases h

/-- No slot is to blame for a level that cannot be given back. -/
theorem checkSlots_ne_indentUnderflow (slots : List (Option Expr)) :
    checkSlots slots ≠ .error .indentUnderflow := by
  induction slots with
  | nil => exact fun h => by cases h
  | cons slot slots ih =>
    have hslot := slotText_ne_indentUnderflow slot
    rw [checkSlots]
    cases hx : slotText slot with
    | error e => exact fun h => hslot (by rw [hx]; cases h; rfl)
    | ok text => exact ih

/-! ## Lines that do not depend on their place -/

theorem copies_succ (n : Nat) (t : WideText) : copies (n + 1) t = t ++ copies n t := rfl

theorem copies_succ_back (n : Nat) (t : WideText) : copies (n + 1) t = copies n t ++ t := by
  rw [copies, List.replicate_succ', List.flatten_append, List.flatten_singleton]
  rfl

theorem map_copies_zero (t : WideText) (lines : List WideText) :
    lines.map (copies 0 t ++ ·) = lines :=
  List.map_id lines

/-- A line is made of some steps of indentation and a text behind them. -/
def Layout.IsLine (layout : Layout) (l : WideText) : Prop :=
  ∃ n text, l = copies n layout.indent ++ .ofString text

theorem Layout.isLine_ofString (layout : Layout) (text : String) :
    layout.IsLine (.ofString text) :=
  ⟨0, text, rfl⟩

theorem Layout.IsLine.indent {layout : Layout} {l : WideText} (h : layout.IsLine l) :
    layout.IsLine (layout.indent ++ l) := by
  obtain ⟨n, text, rfl⟩ := h
  exact ⟨n + 1, text, by rw [copies_succ, List.append_assoc]⟩

namespace Writing

variable {α β : Type} {layout : Layout} {lines lines' : List WideText}

/-- At any level and behind any lines, the work ends with `outcome`, is back at its level, and has
added `lines`, each behind the margin of the level. -/
def Emits (layout : Layout) (x : Writing α) (outcome : Except Error α) (lines : List WideText) :
    Prop :=
  ∀ level before, x.run ⟨layout, level, before⟩ =
    (outcome, ⟨layout, level, before ++ lines.map (copies level layout.indent ++ ·)⟩)

theorem emits_pure (a : α) : Emits layout (pure a) (.ok a) [] := by
  intro level before
  rw [List.map_nil, List.append_nil]
  rfl

theorem emits_line (text : String) : Emits layout (line text) (.ok ()) [.ofString text] :=
  fun _ _ => rfl

theorem emits_statement (text : String) : Emits layout (statement text) (.ok ())
    [.ofString (if layout.semicolons then text ++ ";" else text)] :=
  fun _ _ => rfl

theorem run_bind (x : Writing α) (f : α → Writing β) (w : Writer) :
    (x >>= f).run w = ExceptT.bindCont f (x.run w).1 (x.run w).2 := rfl

theorem Emits.bind {x : Writing α} {f : α → Writing β} {a : α} {outcome : Except Error β}
    (hx : Emits layout x (.ok a) lines) (hf : Emits layout (f a) outcome lines') :
    Emits layout (x >>= f) outcome (lines ++ lines') := by
  intro level before
  rw [run_bind, hx, List.map_append, ← List.append_assoc]
  exact hf level _

/-- Work that fails keeps the lines that were added before. -/
theorem Emits.fail {x : Writing α} {f : α → Writing β} {e : Error}
    (hx : Emits layout x (.error e) lines) : Emits layout (x >>= f) (.error e) lines := by
  intro level before
  rw [run_bind, hx]
  rfl

/-- One level further in, each line has one step of indentation more. -/
theorem Emits.indented {body : Writing Unit} {outcome : Except Error Unit}
    (h : Emits layout body outcome lines) :
    Emits layout (Writing.indented body) outcome (lines.map (layout.indent ++ ·)) := by
  intro level before
  have hbody : body.run (Writer.indent ⟨layout, level, before⟩) = (outcome, ⟨layout, level + 1,
      before ++ (lines.map (layout.indent ++ ·)).map (copies level layout.indent ++ ·)⟩) := by
    rw [Writer.indent, h (level + 1) before, List.map_map]
    simp only [copies_succ_back, List.append_assoc, Function.comp_def]
  change Writing.indented body _ = _
  rw [Writing.indented, hbody]
  rfl

/-- The work adds the same lines wherever it is carried out and ends in the same way: it succeeds if
the slots have a text, and else fails for the first one that has none. -/
def Portable (slots : List (Option Expr)) (x : Writing α) : Prop :=
  ∀ layout, ∃ outcome lines, Emits layout x outcome lines ∧
    outcome.map (fun _ => ()) = checkSlots slots ∧ ∀ l ∈ lines, layout.IsLine l

theorem Portable.layout_eq {x : Writing α} {slots : List (Option Expr)} (hx : x.Portable slots)
    (w : Writer) : (x.run w).2.layout = w.layout := by
  obtain ⟨outcome, lines, hlines, -⟩ := hx w.layout
  rw [hlines w.level w.lines]

theorem Portable.exists_ok {x : Writing α} {slots : List (Option Expr)} (hx : x.Portable slots)
    (h : checkSlots slots = .ok ()) (w : Writer) : ∃ a, (x.run w).1 = .ok a := by
  obtain ⟨outcome, lines, hlines, houtcome, -⟩ := hx w.layout
  rw [hlines w.level w.lines]
  cases outcome with
  | error e => cases houtcome.trans h
  | ok a => exact ⟨a, rfl⟩

theorem portable_pure (a : α) : Portable [] (pure a) :=
  fun _ => ⟨.ok a, [], emits_pure a, rfl, List.forall_mem_nil _⟩

theorem portable_line (text : String) : Portable [] (line text) :=
  fun layout => ⟨.ok (), _, emits_line text, rfl,
    List.forall_mem_singleton.mpr (layout.isLine_ofString text)⟩

theorem portable_statement (text : String) : Portable [] (statement text) :=
  fun layout => ⟨.ok (), _, emits_statement text, rfl,
    List.forall_mem_singleton.mpr (layout.isLine_ofString _)⟩

theorem portable_textOf (slot : Option Expr) : Portable [slot] (textOf slot) := by
  intro layout
  refine ⟨slotText slot, [], fun _ _ => ?_, ?_, List.forall_mem_nil _⟩
  · rw [List.map_nil, List.append_nil]
    cases slot with
    | none => rfl
    | some e => cases h : e.render <;> simp only [textOf, slotText, h] <;> rfl
  · rw [checkSlots]
    cases slotText slot <;> rfl

theorem Portable.bind {x : Writing α} {f : α → Writing β} {slots slots' : List (Option Expr)}
    (hx : x.Portable slots) (hf : ∀ a, (f a).Portable slots') :
    (x >>= f).Portable (slots ++ slots') := by
  intro layout
  obtain ⟨outcome, lines, hlines, houtcome, hshape⟩ := hx layout
  rw [checkSlots_append, ← houtcome]
  cases outcome with
  | error e => exact ⟨.error e, lines, hlines.fail, rfl, hshape⟩
  | ok a =>
    obtain ⟨outcome, lines', hlines', houtcome, hshape'⟩ := hf a layout
    exact ⟨outcome, lines ++ lines', hlines.bind hlines', houtcome,
      List.forall_mem_append.mpr ⟨hshape, hshape'⟩⟩

theorem Portable.indented {body : Writing Unit} {slots : List (Option Expr)}
    (h : body.Portable slots) : (Writing.indented body).Portable slots := by
  intro layout
  obtain ⟨outcome, lines, hlines, houtcome, hshape⟩ := h layout
  exact ⟨outcome, _, hlines.indented, houtcome,
    List.forall_mem_map.mpr fun l hl => (hshape l hl).indent⟩

/-- A line behind some work. -/
theorem Portable.bind_line {x : Writing Unit} {slots : List (Option Expr)} (h : x.Portable slots)
    (text : String) : Portable slots (do x; line text) := by
  simpa using h.bind fun _ => portable_line text

end Writing

open Writing

/-! ## Statements -/

namespace Stmt

/-- The slots of a statement that are written in a form. The test of an `if` whose first line is
there has been written with that line. -/
def slotsAs (form : Form) (s : Stmt) : List (Option Expr) :=
  if form = .tail ∧ s.isIf = true then s.slots.tail else s.slots

theorem slotsAs_of_ne_tail {form : Form} (h : form ≠ .tail) (s : Stmt) : s.slotsAs form = s.slots :=
  if_neg fun h' => h h'.1

theorem slotsAs_whole (s : Stmt) : s.slotsAs .whole = s.slots := slotsAs_of_ne_tail (by decide) s

theorem slotsAs_braced (s : Stmt) : s.slotsAs .braced = s.slots := slotsAs_of_ne_tail (by decide) s

theorem slotsAs_of_test?_eq_none {s : Stmt} (h : s.test? = none) (form : Form) :
    s.slotsAs form = s.slots := by
  rw [slotsAs, isIf, h, if_neg]
  exact fun h' => Bool.false_ne_true h'.2

theorem slots_of_test? {s : Stmt} {test : Option Expr} (h : s.test? = some test) :
    s.slots = test :: s.slotsAs .tail := by
  cases s with
  | ifThen | ifElse => cases h; rfl
  | _ => cases h

theorem portable_head {form : Form} {s : Stmt} {test : Option Expr} {rest : Writing Unit}
    (hs : s.test? = some test) (hrest : rest.Portable (s.slotsAs .tail)) :
    Portable (s.slotsAs form) (do
      if form ≠ .tail then
        let text ← textOf test
        line (ifHead text)
      rest) := by
  simp only
  split
  next hform =>
    rw [slotsAs_of_ne_tail hform, slots_of_test? hs]
    exact (portable_textOf test).bind fun _ => (portable_line _).bind fun _ => hrest
  next hform =>
    obtain rfl : form = .tail := Decidable.not_not.mp hform
    exact hrest

/-- What follows the body of an `if` that has an `else`. -/
theorem portable_else {other : Stmt} (htail : (other.emitAs .tail).Portable (other.slotsAs .tail))
    (hbraced : (other.emitAs .braced).Portable (other.slotsAs .braced)) :
    Portable other.slots (match other.test? with
      | some test => do
        let text ← textOf test
        line (elseIfHead text)
        other.emitAs .tail
      | none => do
        line elseHead
        indented (other.emitAs .braced)
        line blockEnd) := by
  rw [slotsAs_braced] at hbraced
  split
  next htest =>
    rw [slots_of_test? htest]
    exact (portable_textOf _).bind fun _ => (portable_line _).bind fun _ => htail
  next => exact (portable_line _).bind fun _ => hbraced.indented.bind_line _

mutual

/-- **A statement adds the same lines wherever it is written.** -/
theorem emitAs_portable (form : Form) : (s : Stmt) → (s.emitAs form).Portable (s.slotsAs form)
  | .action e => by
    rw [emitAs, slotsAs_of_test?_eq_none rfl]
    exact (portable_textOf e).bind fun _ => portable_statement _
  | .ret none => by
    rw [emitAs, slotsAs_of_test?_eq_none rfl]
    exact portable_statement "return"
  | .ret (some e) => by
    rw [emitAs, slotsAs_of_test?_eq_none rfl]
    exact (portable_textOf (some e)).bind fun _ => portable_statement _
  | .brk => by
    rw [emitAs, slotsAs_of_test?_eq_none rfl]
    exact portable_statement "break"
  | .block body => by
    rw [emitAs, slotsAs_of_test?_eq_none rfl]
    split
    · exact emitAll_portable body
    · exact (portable_line _).bind fun _ => (emitAll_portable body).indented.bind_line _
  | .ifThen test body => by
    have hbody := body.emitAs_portable .braced
    rw [slotsAs_braced] at hbody
    rw [emitAs]
    exact portable_head rfl (hbody.indented.bind_line _)
  | .ifElse test body other => by
    have hbody := body.emitAs_portable .braced
    rw [slotsAs_braced] at hbody
    rw [emitAs]
    exact portable_head rfl (hbody.indented.bind fun _ =>
      portable_else (other.emitAs_portable .tail) (other.emitAs_portable .braced))
  | .switch subject arms => by
    rw [emitAs, slotsAs_of_test?_eq_none rfl]
    exact (portable_textOf _).bind fun _ => (portable_line _).bind fun _ =>
      (emitArms_portable arms).indented.bind_line _
  | .arm ⟨label, body⟩ => by
    rw [emitAs, slotsAs_of_test?_eq_none rfl]
    exact (emitLabel_portable label).bind fun _ => (emitAll_portable body).indented

theorem emitAll_portable : (body : List Stmt) → (emitAll body).Portable (slotsOf body)
  | [] => portable_pure ()
  | s :: body => by
    rw [emitAll, slotsOf, ← slotsAs_whole]
    exact (s.emitAs_portable .whole).bind fun _ => emitAll_portable body

theorem emitArms_portable : (arms : List (Arm Stmt)) → (emitArms arms).Portable (armSlots arms)
  | [] => portable_pure ()
  | ⟨label, body⟩ :: arms => by
    rw [emitArms, armSlots, List.append_assoc]
    exact (emitLabel_portable label).bind fun _ => (emitAll_portable body).indented.bind fun _ =>
      emitArms_portable arms

theorem emitLabel_portable :
    (label : Option Expr) → (emitLabel label).Portable (label.map some).toList
  | none => portable_line "default:"
  | some e => by
    rw [emitLabel]
    exact (portable_textOf (some e)).bind fun _ => portable_line _

end

theorem emitAll_singleton (s : Stmt) : emitAll [s] = s.emitAs .whole := by
  rw [emitAll, emitAll, bind_pure_unit]

theorem forM_emit (body : List Stmt) : (body.map Item.stmt).forM Item.emit = emitAll body := by
  induction body with
  | nil => rfl
  | cons s body ih =>
    rw [emitAll, ← ih]
    rfl

variable {layout : Layout} {body : List Stmt} {lines : List WideText}

theorem renderLines_of_emits (h : Emits layout (emitAll body) (.ok ()) lines) :
    Stmt.renderLines layout body = .ok lines := by
  rw [Stmt.renderLines, Item.renderLines, forM_emit, h 0 [], map_copies_zero]
  rfl

/-- The lines from an empty writer are those that are added anywhere. -/
theorem emits_of_renderLines (h : Stmt.renderLines layout body = .ok lines) :
    Emits layout (emitAll body) (.ok ()) lines := by
  obtain ⟨outcome, lines', hlines, -⟩ := emitAll_portable body layout
  cases outcome with
  | ok _ =>
    cases (renderLines_of_emits hlines).symm.trans h
    exact hlines
  | error e =>
    -- work that fails anywhere fails from an empty writer as well
    rw [Stmt.renderLines, Item.renderLines, forM_emit, hlines 0 []] at h
    cases h

/-- The lines of a block are those of its statements one step further in, between two braces. -/
theorem renderLines_block (h : Stmt.renderLines layout body = .ok lines) :
    Stmt.renderLines layout [.block body] =
      .ok (.ofString blockHead ::
        (lines.map (layout.indent ++ ·) ++ [.ofString blockEnd])) := by
  apply renderLines_of_emits
  rw [emitAll_singleton, emitAs, if_neg (by decide)]
  exact (emits_line _).bind ((emits_of_renderLines h).indented.bind (emits_line _))

/-- **A statement is written alike at every level and behind any lines.** It adds the lines that it
adds to an empty writer, each behind the margin of the level, and the level is as before. So it is
also if the text of an expression is missing midway, which is the only cause of failure. -/
theorem emit_at_any_level (s : Stmt) (layout : Layout) (level : Nat)
    (before : List WideText) :
    ∃ outcome added, s.emit.run ⟨layout, 0, []⟩ = (outcome, ⟨layout, 0, added⟩) ∧
      s.emit.run ⟨layout, level, before⟩ =
        (outcome, ⟨layout, level, before ++ added.map (copies level layout.indent ++ ·)⟩) ∧
      outcome = checkSlots s.slots ∧ outcome ≠ .error .indentUnderflow := by
  obtain ⟨outcome, added, hadded, houtcome, -⟩ := s.emitAs_portable .whole layout
  have hslots : outcome = checkSlots s.slots := by
    rw [← slotsAs_whole, ← houtcome]
    cases outcome <;> rfl
  refine ⟨outcome, added, ?_, hadded level before, hslots, ?_⟩
  · rw [emit, hadded 0 [], map_copies_zero, List.nil_append]
  · rw [hslots]
    exact checkSlots_ne_indentUnderflow s.slots

end Stmt

namespace HalfWritten

def layout : Layout := { indent := "\t" }

/-- A switch in which an action has an operator that cannot be written, three levels in. -/
def stmt : Stmt :=
  .switch (.name "a") [⟨some (.literal "1"), [.ifThen (some (.name "b")) (.block
    [.action (some (.name "c")), .action (some (.logical (.name "d") "^^" (.name "e")))])]⟩]

/-- The lines before the action are kept, and the level is that of the switch again. -/
theorem emit_stops_at_action :
    stmt.emit.run ⟨layout, 0, []⟩ = (.error .unknownOperator,
      ⟨layout, 0, [switchHead "a", "\tcase 1:", "\t\t" ++ ifHead "b", "\t\t\tc;"]⟩) ∧
    stmt.emit.run ⟨layout, 2, ["start();"]⟩ = (.error .unknownOperator, ⟨layout, 2, ["start();",
      "\t\t" ++ switchHead "a", "\t\t\tcase 1:", "\t\t\t\t" ++ ifHead "b", "\t\t\t\t\tc;"]⟩) := by
  have hempty : stmt.emit.run ⟨layout, 0, []⟩ = (.error .unknownOperator,
      ⟨layout, 0, [switchHead "a", "\tcase 1:", "\t\t" ++ ifHead "b", "\t\t\tc;"]⟩) := by
    rfl
  obtain ⟨outcome, added, hrun, hrun', -⟩ := stmt.emit_at_any_level layout 2 ["start();"]
  cases hrun.symm.trans hempty
  exact ⟨hempty, hrun'⟩

end HalfWritten

/-! ## Blocks -/

@[simp] theorem joinLines_singleton (l : WideText) : joinLines [l] = l :=
  List.intercalate_singleton

theorem joinLines_cons {l : WideText} {lines : List WideText} (h : lines ≠ []) :
    joinLines (l :: lines) = l ++ .ofString "\n" ++ joinLines lines :=
  List.intercalate_cons_of_ne_nil h

theorem joinLines_cons_append (margin l : WideText) (lines : List WideText) :
    joinLines ((margin ++ l) :: lines) = margin ++ joinLines (l :: lines) := by
  cases lines with
  | nil => simp only [joinLines_singleton]
  | cons _ _ => simp only [joinLines_cons (List.cons_ne_nil _ _), List.append_assoc]

theorem joinLines_concat {l : WideText} {lines : List WideText} (h : lines ≠ []) :
    joinLines (lines ++ [l]) = joinLines lines ++ .ofString "\n" ++ l := by
  induction lines with
  | nil => exact absurd rfl h
  | cons first rest ih =>
    rw [List.cons_append, joinLines_cons (List.concat_ne_nil _ _)]
    by_cases hrest : rest = []
    · simp only [hrest, List.nil_append, joinLines_singleton]
    · simp only [ih hrest, joinLines_cons hrest, List.append_assoc]

/-- Where no line is empty, all of them but the first get the margin. -/
theorem indentFragment_cons {first : WideText} {rest : List WideText} (h : ∀ l ∈ rest, l ≠ [])
    (margin : WideText) :
    indentFragment (first :: rest) margin = joinLines (first :: rest.map (margin ++ ·)) := by
  have hmap : (rest.map fun l => if l.isEmpty then l else margin ++ l) =
      rest.map (margin ++ ·) :=
    List.map_congr_left fun l hl => if_neg (by simpa using h l hl)
  rw [indentFragment, hmap]

/-- Behind a margin for the first line, all lines have theirs. -/
theorem margin_append_indentFragment {lines : List WideText} (hne : lines ≠ [])
    (h : ∀ l ∈ lines, l ≠ []) (margin : WideText) :
    margin ++ indentFragment lines margin = joinLines (lines.map (margin ++ ·)) := by
  cases lines with
  | nil => exact absurd rfl hne
  | cons first rest =>
    rw [indentFragment_cons (List.forall_mem_cons.mp h).2, List.map_cons, joinLines_cons_append]

/-- Lines between braces as a text. -/
theorem indentFragment_braces {lines : List WideText} (hne : lines ≠ []) (h : ∀ l ∈ lines, l ≠ [])
    (step margin : WideText) :
    indentFragment (.ofString blockHead :: (lines.map (step ++ ·) ++ [.ofString blockEnd])) margin =
      .ofString (blockHead ++ "\n") ++ (margin ++ step) ++ indentFragment lines (margin ++ step) ++
        .ofString "\n" ++ margin ++ .ofString blockEnd := by
  have hfull : ∀ l ∈ lines.map (step ++ ·) ++ [.ofString blockEnd], l ≠ [] := by
    refine List.forall_mem_append.mpr
      ⟨List.forall_mem_map.mpr fun l hl => ?_, List.forall_mem_singleton.mpr (by decide)⟩
    exact List.append_ne_nil_of_right_ne_nil step (h l hl)
  have hmargins : (lines.map (step ++ ·)).map (margin ++ ·) =
      lines.map ((margin ++ step) ++ ·) := by
    simp only [List.map_map, Function.comp_def, List.append_assoc]
  have hmap_ne : lines.map ((margin ++ step) ++ ·) ≠ [] := by simpa using hne
  calc indentFragment (.ofString blockHead :: (lines.map (step ++ ·) ++ [.ofString blockEnd])) margin
      = joinLines (.ofString blockHead ::
          (lines.map ((margin ++ step) ++ ·) ++ [margin ++ .ofString blockEnd])) := by
        rw [indentFragment_cons hfull, List.map_append, hmargins, List.map_singleton]
    _ = .ofString blockHead ++ .ofString "\n" ++ (joinLines (lines.map ((margin ++ step) ++ ·)) ++
          .ofString "\n" ++ (margin ++ .ofString blockEnd)) := by
        rw [joinLines_cons (List.append_ne_nil_of_left_ne_nil hmap_ne _), joinLines_concat hmap_ne]
    _ = .ofString blockHead ++ .ofString "\n" ++ ((margin ++ step) ++
          indentFragment lines (margin ++ step) ++ .ofString "\n" ++
          (margin ++ .ofString blockEnd)) := by
        rw [margin_append_indentFragment hne h]
    _ = _ := by
        rw [WideText.ofString_append]
        simp only [List.append_assoc]

/-- **A replacement in a block is the block as it is written.** If the statements have lines, and
none of the lines is empty, then what takes the place of a statement that needs a block is what a
block with the statements would be; this holds whatever the margin and the layout are. -/
theorem Site.replacement_eq_block (site : Site) (hblock : site.needsBlock = true) (layout : Layout)
    {body : List Stmt} {lines : List WideText} (hlines : Stmt.renderLines layout body = .ok lines)
    (hne : lines ≠ []) (hfull : ∀ l ∈ lines, l ≠ []) :
    ∃ blockLines, Stmt.renderLines layout [.block body] = .ok blockLines ∧
      site.replacement layout (body.map .stmt) = .ok (indentFragment blockLines site.indent) := by
  refine ⟨_, Stmt.renderLines_block hlines, ?_⟩
  rw [Stmt.renderLines] at hlines
  rw [Site.replacement, hlines, bind_ok_eq, if_pos hblock, indentFragment_braces hne hfull]
  rfl

namespace LoopBody

/-- The body of a loop that is indented by a tab. -/
def site : Site := { start := 9, stop := 30, indent := "\t", needsBlock := true }

def layout : Layout := { indent := "    ", semicolons := false }

/-- A template literal goes over two lines. -/
def body : List Stmt :=
  [.ifThen (some (.name "ready")) (.block [.action (some (.raw "`a\n  b`" 18 "template_string"))]),
    .ret none]

/-- The second line of the literal keeps its own indentation, whatever stands around it. -/
theorem replacement_eq_block_body :
    Stmt.renderLines layout body = .ok [ifHead "ready", "    `a\n  b`", blockEnd, "return"] ∧
    ∃ blockLines, Stmt.renderLines layout [.block body] = .ok blockLines ∧
      site.replacement layout (body.map .stmt) = .ok (indentFragment blockLines site.indent) ∧
      indentFragment blockLines site.indent = blockHead ++ "\n\t    " ++ ifHead "ready" ++
        "\n\t        `a\n  b`\n\t    " ++ blockEnd ++ "\n\t    return\n\t" ++ blockEnd := by
  have hlines : Stmt.renderLines layout body =
      .ok [ifHead "ready", "    `a\n  b`", blockEnd, "return"] :=
    eq_ok_of_toOption (by decide +kernel)
  obtain ⟨blockLines, hblock, hreplacement⟩ :=
    site.replacement_eq_block rfl layout hlines (List.cons_ne_nil _ _) (by decide)
  refine ⟨hlines, blockLines, hblock, hreplacement, ?_⟩
  cases (Stmt.renderLines_block hlines).symm.trans hblock
  decide +kernel

end LoopBody
end CondUnfold
