import CondUnfold.Bytes
import CondUnfold.Error

/-! Concrete syntax trees over a source, with their kinds, spans and roles. -/

namespace CondUnfold

/-- A node of a syntax tree. -/
structure Node where
  kind : String
  start : Nat
  stop : Nat
  /-- The part that the node plays in its parent. -/
  role : Option String := none
  /-- Is the node a construct of its own, and not a mere token such as `(`? -/
  named : Bool := true
  /-- Was the node put in for a token that the source lacks? -/
  missing : Bool := false
  /-- Whether the node counts as defective, where that is not told by its parts. -/
  mark : Option Bool := none
  children : List Node := []
deriving Repr, Inhabited

namespace Node

/-- Is the node itself a defect? -/
def isDefect (n : Node) : Bool := n.kind == "ERROR" || n.missing

mutual

/-- Is there a defect at the node or below it? -/
def hasError : Node → Bool
  | ⟨kind, _, _, _, _, missing, mark, children⟩ =>
    mark.getD (kind == "ERROR" || missing || anyHasError children)

/-- Is there a defect in one of the nodes? -/
def anyHasError : List Node → Bool
  | [] => false
  | n :: ns => n.hasError || anyHasError ns

end

mutual

/-- The number of nodes. -/
def size : Node → Nat
  | ⟨_, _, _, _, _, _, _, children⟩ => sizes children + 1

/-- The number of nodes of a list of trees. -/
def sizes : List Node → Nat
  | [] => 0
  | n :: ns => n.size + sizes ns

end

theorem size_eq (n : Node) : n.size = sizes n.children + 1 := by
  cases n
  simp [size]

theorem sizes_append (ns ms : List Node) : sizes (ns ++ ms) = sizes ns + sizes ms := by
  induction ns with
  | nil => simp [sizes]
  | cons n ns ih => simp [sizes, ih, Nat.add_assoc]

theorem sizes_filter_le (p : Node → Bool) (ns : List Node) : sizes (ns.filter p) ≤ sizes ns := by
  induction ns with
  | nil => simp
  | cons n ns ih =>
    rw [List.filter_cons]
    split <;> simp only [sizes] <;> omega

theorem size_le_sizes {n : Node} {ns : List Node} (h : n ∈ ns) : n.size ≤ sizes ns := by
  induction h with
  | head => simp only [sizes]; omega
  | tail _ _ ih => simp only [sizes]; omega

/-- The children that are constructs of their own. -/
def namedChildren (n : Node) : List Node := n.children.filter (·.named)

/-- The named children that are not comments. -/
def operands (n : Node) : List Node := n.namedChildren.filter (·.kind != "comment")

/-- The first child with the given role. -/
def child? (n : Node) (role : String) : Option Node := n.children.find? (·.role == some role)

theorem size_lt_of_mem_operands {n m : Node} (h : m ∈ n.operands) : m.size < n.size := by
  have hm : m ∈ n.children := (List.mem_filter.1 (List.mem_filter.1 h).1).1
  have := size_le_sizes hm
  rw [size_eq n]
  omega

/-- The node inside any number of parentheses around one expression. -/
def unwrap (n : Node) : Node :=
  if n.kind == "parenthesized_expression" then
    match _hn : n.operands with
    | [m] => m.unwrap
    | _ => n
  else n
termination_by n.size
decreasing_by exact size_lt_of_mem_operands (_hn ▸ List.mem_singleton_self m)

/-- The bytes of a node. -/
def bytes (n : Node) (source : Bytes) : Bytes := (source.drop n.start).take (n.stop - n.start)

/-- The text of a node. -/
def text (n : Node) (source : Bytes) : Except Error String :=
  match Utf8.decode? (n.bytes source) with
  | some s => .ok s
  | none => .error .notUtf8

/-- The first defect among pending nodes, in the order of the source. Only nodes that have a
defect below them are searched. -/
def firstDefect : List Node → Option Node
  | [] => none
  | n :: pending =>
    if n.isDefect then some n
    else if n.hasError then firstDefect (n.children ++ pending)
    else firstDefect pending
termination_by pending => sizes pending
decreasing_by
  · simp [sizes_append, sizes, size_eq n]
  · simp [sizes, size_eq n]

/-- Refuse a tree with a defect, at the position of the first one. -/
def check (root : Node) (source : Bytes) : Except Error Unit :=
  if root.hasError then
    match firstDefect [root] with
    | none => .error (.malformed .stray 1 1)
    | some n =>
      let (row, column) := pointOf source n.start
      .error (.malformed (if n.missing then .missingToken else .stray) (row + 1) (column + 1))
  else .ok ()

/-- A node with the kind of its parent. -/
structure Visit where
  parent : Option String
  node : Node
deriving Repr

/-- The visits to the named children of a node. -/
def Visit.below (v : Visit) : List Visit :=
  v.node.namedChildren.map fun n => ⟨some v.node.kind, n⟩

/-- The named nodes of pending trees, each before its children: the first pending node is visited
and its named children are put in front of the rest. -/
def walkPending : List Visit → List Visit
  | [] => []
  | v :: pending => v :: walkPending (v.below ++ pending)
termination_by pending => sizes (pending.map (·.node))
decreasing_by
  have : sizes (v.below.map (·.node)) ≤ sizes v.node.children := by
    simpa [Visit.below, namedChildren, Function.comp_def] using sizes_filter_le _ v.node.children
  simp only [List.map_append, List.map_cons, sizes_append, sizes, size_eq v.node]
  omega

/-- All visits in a tree. -/
def visits (root : Node) : List Visit := walkPending [⟨none, root⟩]

/-- The root and all named nodes below it, each before its children. -/
def walk (root : Node) : List Node := root.visits.map (·.node)

end Node
end CondUnfold
