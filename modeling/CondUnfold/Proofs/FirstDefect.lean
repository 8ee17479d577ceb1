import CondUnfold.Proofs.Samples
import CondUnfold.Proofs.Walk

/-!
# The defect that is reported

The search for a defect keeps a list of pending nodes and passes over every node that counts as
sound. In a tree that tells truly which of its nodes have a defect below them, there is nothing to
find where the search does not look (`Node.WellMarked.hasError_iff`). So what it finds is the first
defect of a walk through all nodes of the tree (`Node.firstDefect_eq_find?`).
-/

namespace CondUnfold

namespace Node

theorem size_lt_of_mem_children {n c : Node} (h : c ∈ n.children) : c.size < n.size := by
  rw [size_eq n]
  exact Nat.lt_succ_of_le (size_le_sizes h)

/-! ## Marks that tell the truth -/

/-- Each node counts as defective exactly if it is a defect itself or has a child that counts as
defective. -/
def WellMarked (root : Node) : Prop :=
  ∀ n ∈ root.preorder,
    n.hasError = true ↔ n.kind = "ERROR" ∨ n.missing = true ∨ ∃ c ∈ n.children, c.hasError = true

instance : DecidablePred WellMarked := fun root =>
  inferInstanceAs (Decidable (∀ n ∈ root.preorder, _ ↔ _))

theorem isDefect_iff {n : Node} : n.isDefect = true ↔ n.kind = "ERROR" ∨ n.missing = true := by
  rw [isDefect, Bool.or_eq_true, beq_iff_eq]

namespace WellMarked

variable {n c : Node}

theorem child (h : n.WellMarked) (hc : c ∈ n.children) : c.WellMarked :=
  fun m hm => h m (mem_preorder_of_child hc hm)

theorem hasError_step (h : n.WellMarked) :
    n.hasError = true ↔ n.isDefect = true ∨ ∃ c ∈ n.children, c.hasError = true := by
  have hself : n ∈ n.preorder := by
    rw [preorder_eq]
    exact List.mem_cons_self
  rw [h n hself, isDefect_iff, or_assoc]

/-- **A node counts as defective exactly if there is a defect in its tree.** -/
theorem hasError_iff {n : Node} (h : n.WellMarked) :
    n.hasError = true ↔ ∃ m ∈ n.preorder, m.isDefect = true := by
  rw [h.hasError_step, preorder_eq]
  constructor
  · rintro (hn | ⟨c, hc, herror⟩)
    · exact ⟨n, List.mem_cons_self, hn⟩
    · obtain ⟨m, hm, hdefect⟩ := (h.child hc).hasError_iff.mp herror
      exact ⟨m, List.mem_cons_of_mem n (List.mem_flatMap_of_mem hc hm), hdefect⟩
  · rintro ⟨m, hm, hdefect⟩
    rcases List.mem_cons.mp hm with rfl | hm
    · exact .inl hdefect
    · obtain ⟨c, hc, hm⟩ := List.mem_flatMap.mp hm
      exact .inr ⟨c, hc, (h.child hc).hasError_iff.mpr ⟨m, hm, hdefect⟩⟩
termination_by n.size
decreasing_by all_goals exact size_lt_of_mem_children hc

theorem find?_eq_none (h : n.WellMarked) (herror : n.hasError = false) :
    n.preorder.find? isDefect = none := by
  rw [List.find?_eq_none]
  intro m hm hdefect
  rw [h.hasError_iff.mpr ⟨m, hm, hdefect⟩] at herror
  cases herror

end WellMarked

/-! ## The search -/

/-- **The search finds the first defect of the whole walk**, though it leaves out what counts as
sound. -/
theorem firstDefect_eq_find? {pending : List Node} (h : ∀ n ∈ pending, n.WellMarked) :
    firstDefect pending = (pending.flatMap preorder).find? isDefect := by
  fun_induction firstDefect pending with
  | case1 => rfl
  | case2 n pending hdefect =>
    rw [List.flatMap_cons, preorder_eq, List.cons_append, List.find?_cons_of_pos hdefect]
  | case3 n pending hdefect herror ih =>
    obtain ⟨hn, hpending⟩ := List.forall_mem_cons.mp h
    rw [ih (List.forall_mem_append.mpr ⟨fun c hc => hn.child hc, hpending⟩), List.flatMap_append,
      List.flatMap_cons, preorder_eq n, List.cons_append, List.find?_cons_of_neg hdefect]
  | case4 n pending _ herror ih =>
    -- what is passed over has no defect, so that nothing is lost
    obtain ⟨hn, hpending⟩ := List.forall_mem_cons.mp h
    rw [ih hpending, List.flatMap_cons, List.find?_append,
      hn.find?_eq_none (by simpa using herror), Option.none_or]

/-- What is reported of a defect: a token that is not there, or a stretch that has no place, with
line and column counted from one. -/
def fault (n : Node) (source : Bytes) : Error :=
  .malformed (if n.missing then .missingToken else .stray) ((pointOf source n.start).1 + 1)
    ((pointOf source n.start).2 + 1)

variable {root : Node}

theorem check_of_none (h : root.WellMarked) (source : Bytes)
    (hnone : root.preorder.find? isDefect = none) : root.check source = .ok () := by
  have hsound : ¬ root.hasError = true := by
    rw [h.hasError_iff]
    rintro ⟨m, hm, hdefect⟩
    exact List.find?_eq_none.mp hnone m hm hdefect
  rw [check, if_neg hsound]

theorem check_of_some (h : root.WellMarked) (source : Bytes) {n : Node}
    (hsome : root.preorder.find? isDefect = some n) :
    root.check source = .error (n.fault source) := by
  have herror : root.hasError = true :=
    h.hasError_iff.mpr ⟨n, List.mem_of_find?_eq_some hsome, List.find?_some hsome⟩
  have hfirst : firstDefect [root] = some n := by
    rw [firstDefect_eq_find? (List.forall_mem_singleton.mpr h), List.flatMap_singleton, hsome]
  rw [check, if_pos herror, hfirst]
  rfl

/-- **The first defect of the tree is reported.** Let each node of a tree count as defective exactly
if it is an error, is missing, or has a child that counts as defective. Then the tree is refused
exactly if there is an error or a missing node anywhere in it. The refusal names the line and column
at which the first such node of the walk through all nodes begins, and says whether this node is
missing. -/
theorem check_reports_first_defect (h : root.WellMarked) (source : Bytes) :
    ((∃ d line column, root.check source = .error (.malformed d line column)) ↔
      ∃ n ∈ root.preorder, n.kind = "ERROR" ∨ n.missing = true) ∧
    ∀ e, root.check source = .error e →
      ∃ (before : List Node) (n : Node) (after : List Node) (d : Defect),
        root.preorder = before ++ n :: after ∧
        (∀ m ∈ before, ¬ (m.kind = "ERROR" ∨ m.missing = true)) ∧
        (n.kind = "ERROR" ∨ n.missing = true) ∧
        e = .malformed d ((pointOf source n.start).1 + 1) ((pointOf source n.start).2 + 1) ∧
        d.message = if n.missing then "missing token" else "syntax error" := by
  simp only [← isDefect_iff]
  -- whether there is a first defect decides both parts
  cases hfind : root.preorder.find? isDefect with
  | none =>
    have hcheck := check_of_none h source hfind
    rw [hcheck]
    refine ⟨⟨?_, ?_⟩, fun e he => by cases he⟩
    · rintro ⟨_, _, _, ⟨⟩⟩
    · rintro ⟨n, hn, hdefect⟩
      exact absurd hdefect (List.find?_eq_none.mp hfind n hn)
  | some n =>
    have hcheck := check_of_some h source hfind
    rw [hcheck]
    refine ⟨⟨fun _ => ⟨n, List.mem_of_find?_eq_some hfind, List.find?_some hfind⟩,
      fun _ => ⟨_, _, _, rfl⟩⟩, ?_⟩
    rintro e ⟨⟩
    obtain ⟨hdefect, before, after, hsplit, hbefore⟩ := List.find?_eq_some_iff_append.mp hfind
    refine ⟨before, n, after, _, hsplit, fun m hm => by simpa using hbefore m hm, hdefect, rfl, ?_⟩
    cases n.missing <;> rfl

end Node

namespace UnclosedCall

open Sample

def text : Bytes := Utf8.encode "f();\ng(a;\n%"

/-- The statement `f();` is marked as sound, `g(a;` lacks a parenthesis, and `%` is an error. -/
def root : Node where
  kind := "program"
  start := 0
  stop := 11
  mark := some true
  children :=
    [{ node "expression_statement" 0 4
        [call (word 0) 3 [token "(" 1 2, token ")" 2 3], token ";" 3 4] with mark := some false },
      node "expression_statement" 5 9
        [call (word 5) 8 [token "(" 6 7, word 7, { token ")" 8 8 with missing := true }],
          token ";" 8 9],
      node "ERROR" 10 11]

/-- The parenthesis that is missing on the second line comes before the error on the third one. -/
theorem check_root_reports_first_defect :
    root.WellMarked ∧ root.check text = .error (.malformed .missingToken 2 4) ∧
    (∃ n ∈ root.preorder, n.kind = "ERROR" ∨ n.missing = true) ∧
    ∃ (before : List Node) (n : Node) (after : List Node),
      root.preorder = before ++ n :: after ∧
      (∀ m ∈ before, ¬ (m.kind = "ERROR" ∨ m.missing = true)) ∧
      (n.kind = "ERROR" ∨ n.missing = true) ∧ pointOf text n.start = (1, 3) ∧
      Defect.missingToken.message = if n.missing then "missing token" else "syntax error" := by
  have hroot : root.WellMarked := by decide +kernel
  have hcheck : root.check text = .error (.malformed .missingToken 2 4) :=
    Node.check_of_some hroot text rfl
  obtain ⟨hrefused, hfirst⟩ := Node.check_reports_first_defect hroot text
  obtain ⟨before, n, after, d, hsplit, hbefore, hn, herror, hmessage⟩ := hfirst _ hcheck
  obtain ⟨rfl, hline, hcolumn⟩ := Error.malformed.inj herror
  exact ⟨hroot, hcheck, hrefused.mp ⟨_, _, _, hcheck⟩, before, n, after, hsplit, hbefore, hn,
    Prod.ext (Nat.succ.inj hline).symm (Nat.succ.inj hcolumn).symm, hmessage⟩

end UnclosedCall
end CondUnfold
