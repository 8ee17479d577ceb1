import CondUnfold.Proofs.Walk

/-!
# Traversals in preorder

The walks through an expression and through a syntax tree keep a list of what is to be visited yet.
They come to an end after one round for each node (`Expr.length_walk`, `Node.length_walk_le`), and
what they visit is the preorder: a node, then its parts one after the other
(`Expr.walk_eq_preorder`, `Node.walk_eq`). A node is told from an equal one elsewhere by its
address. A traversal that visits a node and then its parts visits each address exactly once, and the
addresses in their lexicographic order (`inAddressOrder_of_preorder`).
-/

namespace CondUnfold

/-! ## Addresses -/

section Addresses

variable {α : Type} (parts : α → List α)

/-- What stands at an address below `x`. Each number of the address picks one of the parts. -/
def partAt (x : α) : List Nat → Option α
  | [] => some x
  | i :: address => (parts x)[i]?.bind fun part => partAt part address

theorem partAt_cons_eq_some {x y : α} {i : Nat} {address : List Nat} :
    partAt parts x (i :: address) = some y ↔
      ∃ part, (parts x)[i]? = some part ∧ partAt parts part address = some y :=
  Option.bind_eq_some_iff

/-- The visits are those to what stands at the addresses below `root`: each address is visited
once, and a smaller one before a larger one. -/
def InAddressOrder (root : α) (visited : List α) : Prop :=
  ∃ visits : List (List Nat × α), visits.map Prod.snd = visited ∧
    visits.Pairwise (fun v w => v.1 < w.1) ∧
    ∀ address x, (address, x) ∈ visits ↔ partAt parts root address = some x

variable {parts} {walk : α → List α}

/-- The visits to neighbours, where the first of them has the number `k`. -/
theorem exists_visits_of_siblings {xs : List α}
    (h : ∀ x ∈ xs, InAddressOrder parts x (walk x)) (k : Nat) :
    ∃ visits : List (List Nat × α), visits.map Prod.snd = xs.flatMap walk ∧
      visits.Pairwise (fun v w => v.1 < w.1) ∧
      ∀ address y, (address, y) ∈ visits ↔ ∃ i x rest, address = (k + i) :: rest ∧
        xs[i]? = some x ∧ partAt parts x rest = some y := by
  induction xs generalizing k with
  | nil => exact ⟨[], rfl, .nil, by simp⟩
  | cons x xs ih =>
    obtain ⟨hx, hxs⟩ := List.forall_mem_cons.mp h
    obtain ⟨first, hfirst, hsorted, hmem⟩ := hx
    obtain ⟨others, hothers, hsorted', hmem'⟩ := ih hxs (k + 1)
    refine ⟨first.map (fun v => (k :: v.1, v.2)) ++ others, ?_, ?_, ?_⟩
    · rw [List.map_append, List.map_map, hothers, List.flatMap_cons, ← hfirst]
      rfl
    · refine List.pairwise_append.mpr ⟨?_, hsorted', ?_⟩
      · exact List.pairwise_map.mpr (hsorted.imp fun h => List.cons_lt_cons_iff.mpr (.inr ⟨rfl, h⟩))
      · rintro _ hv ⟨address, y⟩ hw
        obtain ⟨v, -, rfl⟩ := List.mem_map.mp hv
        obtain ⟨i, _, rest, rfl, -, -⟩ := (hmem' address y).mp hw
        exact List.cons_lt_cons_iff.mpr (.inl (by omega))
    · intro address y
      rw [List.mem_append, hmem', List.mem_map]
      constructor
      · rintro (⟨⟨rest, z⟩, hv, ⟨⟩⟩ | ⟨i, x', rest, rfl, hi, hat⟩)
        · exact ⟨0, x, rest, rfl, rfl, (hmem rest z).mp hv⟩
        · exact ⟨i + 1, x', rest, by rw [Nat.add_assoc, Nat.add_comm 1], hi, hat⟩
      · rintro ⟨i, x', rest, rfl, hi, hat⟩
        cases i with
        | zero =>
          cases hi
          exact .inl ⟨(rest, y), (hmem rest y).mpr hat, rfl⟩
        | succ i => exact .inr ⟨i, x', rest, by rw [Nat.add_assoc, Nat.add_comm 1], hi, hat⟩

/-- One node more: the root has the empty address, which is the least one. -/
theorem InAddressOrder.cons_parts {root : α}
    (h : ∀ part ∈ parts root, InAddressOrder parts part (walk part)) :
    InAddressOrder parts root (root :: (parts root).flatMap walk) := by
  obtain ⟨visits, hvisits, hsorted, hmem⟩ := exists_visits_of_siblings h 0
  refine ⟨([], root) :: visits, by rw [List.map_cons, hvisits], ?_, ?_⟩
  · refine List.pairwise_cons.mpr ⟨?_, hsorted⟩
    rintro ⟨address, y⟩ hv
    obtain ⟨i, _, rest, rfl, -, -⟩ := (hmem address y).mp hv
    exact List.nil_lt_cons _ _
  · intro address y
    rw [List.mem_cons, hmem]
    cases address with
    | nil => simp [partAt, eq_comm]
    | cons i rest =>
      rw [partAt_cons_eq_some]
      constructor
      · rintro (h | ⟨j, x, _, h, hj, hat⟩)
        · cases h
        · cases h
          exact ⟨x, by rwa [Nat.zero_add], hat⟩
      · rintro ⟨x, hi, hat⟩
        exact .inr ⟨i, x, rest, by rw [Nat.zero_add], hi, hat⟩

theorem length_lt_of_mem_parts (hwalk : ∀ x, walk x = x :: (parts x).flatMap walk) {x part : α}
    (h : part ∈ parts x) : (walk part).length < (walk x).length := by
  rw [hwalk x, List.length_cons, List.flatMap_def]
  exact Nat.lt_succ_of_le (List.sublist_flatten_of_mem (List.mem_map_of_mem h)).length_le

/-- **A traversal that visits a node and then its parts visits each address once, in order.** -/
theorem inAddressOrder_of_preorder (hwalk : ∀ x, walk x = x :: (parts x).flatMap walk) (x : α) :
    InAddressOrder parts x (walk x) := by
  -- the walk through a part is shorter, so there is no infinite descent
  induction hlength : (walk x).length using Nat.strongRecOn generalizing x with
  | ind n ih =>
    rw [hwalk x]
    apply InAddressOrder.cons_parts
    intro part hpart
    exact ih _ (hlength ▸ length_lt_of_mem_parts hwalk hpart) part rfl

end Addresses

/-! ## Expressions -/

namespace Expr

mutual

/-- An expression and then the nodes of its parts, form by form. -/
def preorder : Expr → List Expr
  | .literal v => [.literal v]
  | .name n => [.name n]
  | .raw t p k => [.raw t p k]
  | .unary op e => .unary op e :: e.preorder
  | .binary l op r => .binary l op r :: (l.preorder ++ r.preorder)
  | .logical l op r => .logical l op r :: (l.preorder ++ r.preorder)
  | .cond t y n => .cond t y n :: (t.preorder ++ (y.preorder ++ n.preorder))
  | .call f args opt => .call f args opt :: (f.preorder ++ preorders args)
  | .member e p opt => .member e p opt :: e.preorder
  | .index e i opt => .index e i opt :: (e.preorder ++ i.preorder)
  | .sequence es => .sequence es :: preorders es

/-- The nodes of expressions, one expression after the other. -/
def preorders : List Expr → List Expr
  | [] => []
  | e :: es => e.preorder ++ preorders es

end

mutual

/-- **The walk with a list of pending expressions is the recursive preorder.** -/
theorem walk_eq_preorder : (e : Expr) → e.walk = e.preorder
  | .literal _ | .name _ | .raw .. => by rw [walk_eq]; rfl
  | .unary _ e => by rw [walk_eq, preorder, ← e.walk_eq_preorder]; simp [children]
  | .binary l _ r | .logical l _ r => by
    rw [walk_eq, preorder, ← l.walk_eq_preorder, ← r.walk_eq_preorder]
    simp [children]
  | .cond t y n => by
    rw [walk_eq, preorder, ← t.walk_eq_preorder, ← y.walk_eq_preorder, ← n.walk_eq_preorder]
    simp [children]
  | .call f args _ => by
    rw [walk_eq, preorder, ← f.walk_eq_preorder, ← flatMap_walk_eq_preorders args]
    simp [children]
  | .member e _ _ => by rw [walk_eq, preorder, ← e.walk_eq_preorder]; simp [children]
  | .index e i _ => by
    rw [walk_eq, preorder, ← e.walk_eq_preorder, ← i.walk_eq_preorder]
    simp [children]
  | .sequence es => by rw [walk_eq, preorder, ← flatMap_walk_eq_preorders es]; rfl

theorem flatMap_walk_eq_preorders : (es : List Expr) → es.flatMap walk = preorders es
  | [] => rfl
  | e :: es => by
    rw [List.flatMap_cons, preorders, e.walk_eq_preorder, flatMap_walk_eq_preorders es]

end

theorem length_walkPending (es : List Expr) : (walkPending es).length = sizes es := by
  induction es using walkPending.induct with
  | case1 => rw [walkPending]; rfl
  | case2 e pending ih =>
    rw [walkPending, List.length_cons, ih, sizes_append, sizes, size_eq_sizes_children e]
    omega

/-- The walk has one round for each node. -/
theorem length_walk (e : Expr) : e.walk.length = e.size := by
  rw [walk, length_walkPending, sizes, sizes, Nat.add_zero]

end Expr

/-! ## Syntax trees -/

namespace Node

/-- Which nodes are visited does not depend on what is known of the parents. -/
theorem map_node_walkPending {vs ws : List Visit} (h : vs.map (·.node) = ws.map (·.node)) :
    (walkPending vs).map (·.node) = (walkPending ws).map (·.node) := by
  induction vs using walkPending.induct generalizing ws with
  | case1 =>
    cases ws with
    | nil => rfl
    | cons => cases h
  | case2 v pending ih =>
    cases ws with
    | nil => cases h
    | cons w pending' =>
      obtain ⟨hnode, hpending⟩ : v.node = w.node ∧ _ := List.cons.inj h
      have hbelow : v.below.map (·.node) = w.below.map (·.node) := by
        simp only [Visit.below, List.map_map, Function.comp_def, hnode]
      have hrest : (walkPending (v.below ++ pending)).map (·.node) =
          (walkPending (w.below ++ pending')).map (·.node) :=
        ih (by rw [List.map_append, List.map_append, hbelow, hpending])
      rw [walkPending, walkPending, List.map_cons, List.map_cons, hnode, hrest]

theorem map_node_walk (v : Visit) : v.walk.map (·.node) = v.node.walk :=
  map_node_walkPending rfl

/-- **The walk visits the root and then the nodes of each named child.** -/
theorem walk_eq (root : Node) : root.walk = root :: root.namedChildren.flatMap walk := by
  calc root.walk = (Visit.walk ⟨none, root⟩).map (·.node) := rfl
    _ = root :: (Visit.below ⟨none, root⟩).flatMap fun v => v.walk.map (·.node) := by
      rw [Visit.walk_eq, List.map_cons, List.map_flatMap]
    _ = root :: root.namedChildren.flatMap walk := by
      simp only [map_node_walk, Visit.below, List.flatMap_map]

theorem length_walkPending_le (vs : List Visit) :
    (walkPending vs).length ≤ sizes (vs.map (·.node)) := by
  induction vs using walkPending.induct with
  | case1 => rw [walkPending]; exact Nat.le_refl 0
  | case2 v pending ih =>
    have hbelow : sizes (v.below.map (·.node)) ≤ sizes v.node.children := by
      simpa [Visit.below, namedChildren, Function.comp_def] using sizes_filter_le _ v.node.children
    rw [List.map_append, sizes_append] at ih
    rw [walkPending, List.length_cons, List.map_cons, sizes, size_eq v.node]
    omega

/-- The walk has at most one round for each node. -/
theorem length_walk_le (root : Node) : root.walk.length ≤ root.size := by
  have h := length_walkPending_le [⟨none, root⟩]
  rwa [List.map_singleton, sizes, sizes, Nat.add_zero, ← List.length_map] at h

end Node

/-- **The traversals end and follow the preorder.** The walk through an expression has one round for
each node. It visits the expression and then walks through its parts in order, and so it visits each
node once. The same holds of the walk through a syntax tree and the named children of its nodes. -/
theorem walks_in_preorder :
    (∀ e : Expr, e.walk = e.preorder ∧ e.walk = e :: e.children.flatMap Expr.walk ∧
      e.walk.length = e.size ∧ InAddressOrder Expr.children e e.walk) ∧
    ∀ root : Node, root.walk = root :: root.namedChildren.flatMap Node.walk ∧
      root.walk.length ≤ root.size ∧ InAddressOrder Node.namedChildren root root.walk :=
  ⟨fun e => ⟨e.walk_eq_preorder, e.walk_eq, e.length_walk,
      inAddressOrder_of_preorder Expr.walk_eq e⟩,
    fun root => ⟨root.walk_eq, root.length_walk_le,
      inAddressOrder_of_preorder Node.walk_eq root⟩⟩

end CondUnfold
