import CondUnfold.Expr
import CondUnfold.Syntax.Node

/-! The nodes of an expression: the walk with a list of pending expressions visits an expression and
then the nodes of its parts, one part after another. The same holds of the walk through the named
nodes of a syntax tree, while `Node.preorder` has mere tokens as well. -/

namespace CondUnfold.Expr

theorem walkPending_append (es fs : List Expr) :
    walkPending (es ++ fs) = walkPending es ++ walkPending fs := by
  induction es using walkPending.induct with
  | case1 => simp [walkPending]
  | case2 e pending ih =>
    rw [List.cons_append, walkPending, walkPending, ← List.append_assoc, ih, List.cons_append]

theorem walkPending_eq (es : List Expr) : walkPending es = es.flatMap walk := by
  induction es with
  | nil => simp [walkPending]
  | cons e es ih => rw [← List.singleton_append, walkPending_append, ih]; rfl

theorem walk_eq (e : Expr) : e.walk = e :: e.children.flatMap walk := by
  rw [walk, walkPending, List.append_nil, walkPending_eq]

/-- If no node has a property, then the expression has it not, and no node of a part has it. -/
theorem walk_any_eq_false {p : Expr → Bool} {e : Expr} (h : e.walk.any p = false) :
    p e = false ∧ ∀ part ∈ e.children, part.walk.any p = false := by
  rw [walk_eq, List.any_cons, Bool.or_eq_false_iff, List.any_flatMap] at h
  exact ⟨h.1, by simpa using h.2⟩

/-- `part.PartOf e` says that `part` is `e` or stands somewhere in it. -/
inductive PartOf (part : Expr) : Expr → Prop where
  | self : PartOf part part
  | inside {e child : Expr} : child ∈ e.children → PartOf part child → PartOf part e

theorem mem_walkPending {part : Expr} {es : List Expr} :
    part ∈ walkPending es ↔ ∃ e ∈ es, part.PartOf e := by
  induction es using walkPending.induct with
  | case1 => simp [walkPending]
  | case2 e pending ih =>
    rw [walkPending, List.mem_cons, ih]
    constructor
    · rintro (rfl | ⟨f, hf, hpart⟩)
      · exact ⟨part, List.mem_cons_self, .self⟩
      · rcases List.mem_append.mp hf with hf | hf
        · exact ⟨e, List.mem_cons_self, .inside hf hpart⟩
        · exact ⟨f, List.mem_cons_of_mem e hf, hpart⟩
    · rintro ⟨f, hf, hpart⟩
      rcases List.mem_cons.mp hf with rfl | hf
      · cases hpart with
        | self => exact .inl rfl
        | inside hchild hpart => exact .inr ⟨_, List.mem_append_left pending hchild, hpart⟩
      · exact .inr ⟨f, List.mem_append_right e.children hf, hpart⟩

/-- **The walk visits the parts of an expression and nothing else.** -/
theorem mem_walk {part e : Expr} : part ∈ e.walk ↔ part.PartOf e := by
  rw [walk, mem_walkPending]
  simp only [List.mem_singleton, exists_eq_left]

end CondUnfold.Expr

namespace CondUnfold.Node

/-- The visits in a tree from the visit to its root on. -/
def Visit.walk (v : Visit) : List Visit := walkPending [v]

theorem walkPending_append (vs ws : List Visit) :
    walkPending (vs ++ ws) = walkPending vs ++ walkPending ws := by
  induction vs using walkPending.induct with
  | case1 => simp [walkPending]
  | case2 v pending ih =>
    rw [List.cons_append, walkPending, walkPending, ← List.append_assoc, ih, List.cons_append]

theorem walkPending_eq (vs : List Visit) : walkPending vs = vs.flatMap Visit.walk := by
  induction vs with
  | nil => simp [walkPending]
  | cons v vs ih => rw [← List.singleton_append, walkPending_append, ih]; rfl

theorem Visit.walk_eq (v : Visit) : v.walk = v :: v.below.flatMap Visit.walk := by
  rw [walk, walkPending, List.append_nil, walkPending_eq]

mutual

/-- The node and all nodes below it, each before its children, mere tokens included. -/
def preorder : Node → List Node
  | ⟨kind, start, stop, role, named, missing, mark, children⟩ =>
    ⟨kind, start, stop, role, named, missing, mark, children⟩ :: preorders children

/-- All nodes of a list of trees. -/
def preorders : List Node → List Node
  | [] => []
  | n :: ns => n.preorder ++ preorders ns

end

theorem preorders_eq (ns : List Node) : preorders ns = ns.flatMap preorder := by
  induction ns with
  | nil => rfl
  | cons n ns ih => rw [preorders, ih, List.flatMap_cons]

theorem preorder_eq (n : Node) : n.preorder = n :: n.children.flatMap preorder := by
  cases n
  rw [preorder, preorders_eq]

theorem mem_preorder_of_child {n c m : Node} (hc : c ∈ n.children) (hm : m ∈ c.preorder) :
    m ∈ n.preorder := by
  rw [preorder_eq]
  exact List.mem_cons_of_mem n (List.mem_flatMap_of_mem hc hm)

end CondUnfold.Node
