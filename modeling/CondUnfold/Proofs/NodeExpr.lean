import CondUnfold.Proofs.Fallible
import CondUnfold.Syntax.ToExpr

/-!
# The expression of a node, kind by kind

A node is read after all of its children, whatever its kind. Seen from the node, its expression is
computed from those children that its kind asks for, and each kind has an equation that says how
(`toExpr_conditional`, `toExpr_member`, `toExpr_call` and others). Parentheses around one expression
leave no trace (`toExpr_unwrap`).
-/

namespace CondUnfold.Node

open Except

variable {source : Bytes} {n : Node}

theorem toExpr_eq (source : Bytes) (n : Node) :
    n.toExpr source = assemble source n (readAll source n.children) := by
  cases n
  rw [toExpr, read]

/-- With its kind put in place, the expression of a node can be computed. -/
theorem toExpr_of_kind {kind : String} (hkind : n.kind = kind) :
    n.toExpr source = assemble source { n with kind } (readAll source n.children) := by
  rw [toExpr_eq, ← hkind]
  rfl

theorem readAll_eq_map (source : Bytes) (ns : List Node) :
    readAll source ns = ns.map fun n => ⟨n, read source n⟩ := by
  induction ns with
  | nil => rfl
  | cons n ns ih => rw [readAll, ih, List.map_cons]

/-- Work on the first child with the given role. -/
def withChild {α : Type} (n : Node) (role : String) (work : Node → Except Error α) :
    Except Error α :=
  match n.child? role with
  | some c => work c
  | none => .error .missingChild

theorem part_eq (source : Bytes) (n : Node) (role : String) :
    part (readAll source n.children) role = n.withChild role fun c => .ok ⟨c, read source c⟩ := by
  have hfind : (readAll source n.children).find? (·.node.role == some role) =
      (n.child? role).map fun c => ⟨c, read source c⟩ := by
    rw [readAll_eq_map, List.find?_map]
    rfl
  rw [part, hfind, withChild]
  cases n.child? role with
  | none => rfl
  | some c => rfl

theorem part_of_child? {role : String} {c : Node} (h : n.child? role = some c) :
    part (readAll source n.children) role = .ok ⟨c, read source c⟩ := by
  rw [part_eq, withChild, h]

theorem partExpr_eq (source : Bytes) (n : Node) (role : String) :
    partExpr (readAll source n.children) role = n.withChild role (toExpr source) := by
  rw [partExpr, part_eq, withChild, withChild]
  cases n.child? role with
  | none => rfl
  | some c => rfl

theorem operandParts_eq (source : Bytes) (n : Node) :
    operandParts (readAll source n.children) = n.operands.map fun m => ⟨m, read source m⟩ := by
  rw [readAll_eq_map, operandParts, List.filter_map, operands, namedChildren, List.filter_filter]
  congr 2
  funext m
  exact Bool.and_comm _ _

theorem items_eq (source : Bytes) (n : Node) :
    (read source n).items = n.operands.mapM (toExpr source) := by
  have hitems : (read source n).items =
      (operandParts (readAll source n.children)).mapM (·.reading.expr) := by
    cases n
    rw [read]
  rw [hitems, operandParts_eq, List.mapM_map]
  rfl

theorem withChild_bind {α β : Type} (source : Bytes) (n : Node) (role : String)
    (work : Node → Except Error α) (f : α → Except Error β) :
    n.withChild role work >>= f =
      part (readAll source n.children) role >>= fun p => work p.node >>= f := by
  rw [part_eq, withChild, withChild]
  cases n.child? role with
  | none => rfl
  | some c => rfl

theorem toExpr_conditional (hkind : n.kind = "ternary_expression") :
    n.toExpr source = do
      let test ← n.withChild "condition" (toExpr source)
      let yes ← n.withChild "consequence" (toExpr source)
      let no ← n.withChild "alternative" (toExpr source)
      return .cond test yes no := by
  simp only [← partExpr_eq]
  exact toExpr_of_kind hkind

theorem toExpr_binary (hkind : n.kind = "binary_expression") :
    n.toExpr source = do
      let op ← n.withChild "operator" fun c => .ok c.kind
      let left ← n.withChild "left" (toExpr source)
      let right ← n.withChild "right" (toExpr source)
      return if Expr.isLogicalOperator op then .logical left op right else .binary left op right := by
  simp only [withChild_bind source n "operator", ← partExpr_eq]
  exact toExpr_of_kind hkind

theorem toExpr_unary (hkind : n.kind = "unary_expression") :
    n.toExpr source = do
      let op ← n.withChild "operator" fun c => .ok c.kind
      return .unary op (← n.withChild "argument" (toExpr source)) := by
  simp only [withChild_bind source n "operator", ← partExpr_eq]
  exact toExpr_of_kind hkind

theorem toExpr_sequence (hkind : n.kind = "sequence_expression") :
    n.toExpr source = do
      return .sequence (← flatItems (n.operands.map fun m => ⟨m, read source m⟩)) := by
  rw [← operandParts_eq]
  exact toExpr_of_kind hkind

theorem toExpr_member (hkind : n.kind = "member_expression") :
    n.toExpr source = do
      let target ← n.withChild "object" (toExpr source)
      let property ← n.withChild "property" (text · source)
      return .member target property n.hasOptionalChain := by
  simp only [withChild_bind source n "property", ← partExpr_eq]
  exact toExpr_of_kind hkind

theorem toExpr_subscript (hkind : n.kind = "subscript_expression") :
    n.toExpr source = do
      let target ← n.withChild "object" (toExpr source)
      let index ← n.withChild "index" (toExpr source)
      return .index target index n.hasOptionalChain := by
  simp only [← partExpr_eq]
  exact toExpr_of_kind hkind

/-- Does the node call something with a list of arguments? The other calls are tagged templates. -/
def hasArguments (n : Node) : Bool := (n.child? "arguments").any (·.kind == "arguments")

theorem toExpr_call {args : Node} (hkind : n.kind = "call_expression")
    (hargs : n.child? "arguments" = some args) (hlist : args.kind = "arguments") :
    n.toExpr source = do
      let callee ← n.withChild "function" (toExpr source)
      return .call callee (← args.operands.mapM (toExpr source)) n.hasOptionalChain := by
  rw [toExpr_eq, assemble, hkind]
  simp only [part_of_child? hargs, hlist, beq_self_eq_true, if_true, partExpr_eq, items_eq]

theorem toExpr_tagged (hkind : n.kind = "call_expression") (hargs : n.hasArguments = false) :
    n.toExpr source = raw source n := by
  rw [toExpr_eq, assemble, hkind]
  rw [hasArguments] at hargs
  simp only [part_eq, withChild]
  cases h : n.child? "arguments" with
  | none => rfl
  | some args =>
    rw [h, Option.any_some] at hargs
    simp only [hargs, Bool.false_eq_true, if_false]

theorem toExpr_group {m : Node} (hkind : n.kind = "parenthesized_expression")
    (hoperands : n.operands = [m]) : n.toExpr source = m.toExpr source := by
  rw [toExpr_eq, assemble, hkind]
  simp only [operandParts_eq, hoperands, List.map_cons, List.map_nil]
  rfl

/-- Parentheses around other than one expression hold a sequence. -/
theorem toExpr_groups (hkind : n.kind = "parenthesized_expression")
    (hoperands : n.operands.length ≠ 1) :
    n.toExpr source = do return .sequence (← n.operands.mapM (toExpr source)) := by
  rw [toExpr_eq, assemble, hkind]
  simp only [operandParts_eq]
  split
  next p hp =>
    have hlength := congrArg List.length hp
    rw [List.length_map] at hlength
    exact absurd hlength hoperands
  next => rw [List.mapM_map]; rfl

theorem unwrap_group {m : Node} (hkind : n.kind = "parenthesized_expression")
    (hoperands : n.operands = [m]) : n.unwrap = m.unwrap := by
  rw [unwrap, if_pos (beq_iff_eq.mpr hkind)]
  split
  next h => cases hoperands.symm.trans h; rfl
  next h => exact absurd hoperands (h m)

theorem unwrap_of_ne (hkind : n.kind ≠ "parenthesized_expression") : n.unwrap = n := by
  rw [unwrap, if_neg fun h => hkind (eq_of_beq h)]

theorem toExpr_unwrap (source : Bytes) (n : Node) : n.unwrap.toExpr source = n.toExpr source := by
  fun_induction unwrap n with
  | case1 n hkind m hoperands ih => rw [ih, toExpr_group (eq_of_beq hkind) hoperands]
  | case2 => rfl
  | case3 => rfl

/-- The role of a node is a matter of its parent. -/
theorem toExpr_setRole (source : Bytes) (n : Node) (role : Option String) :
    { n with role }.toExpr source = n.toExpr source := by
  rw [toExpr_eq, toExpr_eq]
  rfl

end CondUnfold.Node
