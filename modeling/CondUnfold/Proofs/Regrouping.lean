import CondUnfold.Expr.Text
import CondUnfold.Proofs.NodeExpr
import CondUnfold.Proofs.Samples

/-!
# Comments and parentheses

A node may be written in another way: with comments between its children, and with its operands in
further parentheses. `Regrouped` relates the node of one source to the node of another one that is
written so. Both have the same expression (`toExpr_ignores_grouping`). An operand of a sequence that is
a sequence itself stays as it is, since its items become items of the sequence around it, which those of
a sequence in parentheses do not.
-/

namespace CondUnfold.Node

open Except

/-! ## The relation -/

/-- Kinds of nodes all of whose named children are expressions. -/
def holdsItems (kind : String) : Bool :=
  kind == "sequence_expression" || kind == "parenthesized_expression" || kind == "arguments"

/-- The roles in which the children of a node are expressions. -/
def operandRoles : String → List String
  | "ternary_expression" => ["condition", "consequence", "alternative"]
  | "binary_expression" => ["left", "right"]
  | "unary_expression" => ["argument"]
  | "call_expression" => ["function"]
  | "member_expression" => ["object"]
  | "subscript_expression" => ["object", "index"]
  | _ => []

/-- Is the child of a node of the kind read as an expression? -/
def isOperandOf (kind : String) (c : Node) : Bool :=
  if holdsItems kind then c.named && c.kind != "comment"
  else c.role.any (operandRoles kind).contains

/-- Is the child of a node of the kind its list of arguments? -/
def isArgumentsOf (kind : String) (c : Node) : Bool :=
  kind == "call_expression" && c.role == some "arguments"

/-- Kinds of nodes that are read through their children, apart from calls. -/
def compositeKinds : List String :=
  ["parenthesized_expression", "ternary_expression", "binary_expression", "unary_expression",
    "member_expression", "subscript_expression", "sequence_expression"]

/-- Is the node read as a whole, for its text? -/
def isWhole (n : Node) : Bool :=
  if n.kind == "call_expression" then !n.hasArguments else !compositeKinds.contains n.kind

/-- The children of a node of kind `k`, with comments among them and with operands that are changed
according to `R`. -/
inductive Altered (source source' : Bytes) (R : Node → Node → Prop) :
    (k : String) → List Node → List Node → Prop where
  | nil {k : String} : Altered source source' R k [] []
  | comment {k : String} {c : Node} {cs ds : List Node} : c.kind = "comment" → c.role = none →
    Altered source source' R k cs ds → Altered source source' R k cs (c :: ds)
  | operand {k : String} {c d : Node} {cs ds : List Node} : isOperandOf k c = true →
    isOperandOf k d = true → d.role = c.role → R c d →
    (k = "sequence_expression" → c.kind = "sequence_expression" →
      d.kind = "sequence_expression") →
    Altered source source' R k cs ds → Altered source source' R k (c :: cs) (d :: ds)
  | arguments {k : String} {c d : Node} {cs ds : List Node} : isArgumentsOf k c = true →
    d.role = c.role → c.kind = "arguments" → d.kind = "arguments" →
    Altered source source' R "arguments" c.children d.children →
    Altered source source' R k cs ds → Altered source source' R k (c :: cs) (d :: ds)
  | other {k : String} {c d : Node} {cs ds : List Node} : isOperandOf k c = false →
    isArgumentsOf k c = false → d.role = c.role → d.named = c.named → d.kind = c.kind →
    d.text source' = c.text source →
    Altered source source' R k cs ds → Altered source source' R k (c :: cs) (d :: ds)

/-- The second node is the first one in another source, with comments among the children and with
operands in further parentheses. -/
inductive Regrouped (source source' : Bytes) : Node → Node → Prop where
  | whole : n.isWhole = true → m.isWhole = true → n.kind ≠ "optional_chain" → m.kind = n.kind →
    m.text source' = n.text source → Regrouped source source' n m
  | inside : n.isWhole = false → m.kind = n.kind →
    Altered source source' (Regrouped source source') n.kind n.children m.children →
    Regrouped source source' n m
  | wrap : Regrouped source source' n c → m.kind = "parenthesized_expression" →
    m.operands = [c] → Regrouped source source' n m

/-! ## What the children give -/

/-- The two nodes have the same expression, and they are no parts of syntax that a parent looks for. -/
structure ReadsAlike (source source' : Bytes) (n m : Node) : Prop where
  expr : m.toExpr source' = n.toExpr source
  noChain : n.kind ≠ "optional_chain" ∧ m.kind ≠ "optional_chain"
  kind : m.kind = n.kind ∨ m.kind = "parenthesized_expression"

variable {source source' : Bytes} {k role : String} {n m c d : Node} {cs ds : List Node}

theorem role_of_isOperandOf (hk : holdsItems k = false) :
    isOperandOf k c = true ↔ ∃ role ∈ operandRoles k, c.role = some role := by
  rw [isOperandOf, hk, if_neg Bool.false_ne_true, Option.any_eq_true]
  simp only [List.contains_iff_mem]
  exact ⟨fun ⟨role, h, hmem⟩ => ⟨role, hmem, h⟩, fun ⟨role, hmem, h⟩ => ⟨role, h, hmem⟩⟩

theorem role_of_isArgumentsOf (h : isArgumentsOf k c = true) : c.role = some "arguments" := by
  rw [isArgumentsOf, Bool.and_eq_true] at h
  exact eq_of_beq h.2

theorem arguments_not_mem_operandRoles (k : String) : "arguments" ∉ operandRoles k := by
  unfold operandRoles
  split <;> decide

/-- The first node in the role. -/
def inRole (role : String) (cs : List Node) : Option Node := cs.find? (·.role == some role)

theorem inRole_cons (role : String) (c : Node) (cs : List Node) :
    inRole role (c :: cs) = if c.role = some role then some c else inRole role cs := by
  rw [inRole, List.find?_cons]
  by_cases h : c.role = some role
  · simp [h]
  · rw [if_neg h, beq_eq_false_iff_ne.mpr h]
    rfl

theorem inRole_cons_of_ne (h : c.role ≠ some role) : inRole role (c :: cs) = inRole role cs := by
  rw [inRole_cons, if_neg h]

theorem inRole_cons_of_none (h : c.role = none) : inRole role (c :: cs) = inRole role cs :=
  inRole_cons_of_ne (by rw [h]; exact (Option.some_ne_none role).symm)

namespace Altered

/-- The first child in the role of an operand gives the same expression. -/
theorem inRole_operand (h : Altered source source' (ReadsAlike source source') k cs ds)
    (hk : holdsItems k = false) (hrole : role ∈ operandRoles k) :
    (inRole role ds).map (toExpr source') = (inRole role cs).map (toExpr source) := by
  induction h with
  | nil => rfl
  | comment _ hnone _ ih => rw [inRole_cons_of_none hnone, ih hk hrole]
  | operand _ _ hsame halike _ _ ih =>
    rw [inRole_cons, inRole_cons, hsame]
    split
    next => exact congrArg some halike.expr
    next => exact ih hk hrole
  | @arguments k c d cs ds hc hsame _ _ _ _ _ ih =>
    have hne : c.role ≠ some role := by
      rw [role_of_isArgumentsOf hc]
      rintro ⟨⟩
      exact arguments_not_mem_operandRoles k hrole
    rw [inRole_cons_of_ne hne, inRole_cons_of_ne (hsame ▸ hne), ih hk hrole]
  | @other k c d cs ds hc _ hsame _ _ _ _ ih =>
    have hne : c.role ≠ some role := fun hfound =>
      Bool.false_ne_true (hc.symm.trans ((role_of_isOperandOf hk).mpr ⟨role, hrole, hfound⟩))
    rw [inRole_cons_of_ne hne, inRole_cons_of_ne (hsame ▸ hne), ih hk hrole]

/-- The first child in any other role has the same kind and text. -/
theorem inRole_other {R : Node → Node → Prop} (h : Altered source source' R k cs ds)
    (hk : holdsItems k = false) (hrole : role ∉ operandRoles k) (hargs : role ≠ "arguments") :
    (inRole role ds).map (fun d => (d.kind, d.text source')) =
      (inRole role cs).map fun c => (c.kind, c.text source) := by
  induction h with
  | nil => rfl
  | comment _ hnone _ ih => rw [inRole_cons_of_none hnone, ih hk hrole]
  | @operand k c d cs ds hc _ hsame _ _ _ ih =>
    have hne : c.role ≠ some role := by
      intro hfound
      obtain ⟨role', hmem, hrole'⟩ := (role_of_isOperandOf hk).mp hc
      cases hrole'.symm.trans hfound
      exact hrole hmem
    rw [inRole_cons_of_ne hne, inRole_cons_of_ne (hsame ▸ hne), ih hk hrole]
  | @arguments k c d cs ds hc hsame _ _ _ _ _ ih =>
    have hne : c.role ≠ some role := by
      rw [role_of_isArgumentsOf hc]
      rintro ⟨⟩
      exact hargs rfl
    rw [inRole_cons_of_ne hne, inRole_cons_of_ne (hsame ▸ hne), ih hk hrole]
  | other _ _ hsame _ hkind htext _ ih =>
    rw [inRole_cons, inRole_cons, hsame]
    split
    next => exact congrArg some (Prod.ext hkind htext)
    next => exact ih hk hrole

/-- The list of arguments of a call is a list again. -/
theorem inRole_arguments {R : Node → Node → Prop} (h : Altered source source' R k cs ds)
    (hk : k = "call_expression") (hc : inRole "arguments" cs = some c) :
    ∃ d, inRole "arguments" ds = some d ∧ d.kind = "arguments" ∧
      Altered source source' R "arguments" c.children d.children := by
  induction h with
  | nil => cases hc
  | comment _ hnone _ ih =>
    rw [inRole_cons_of_none hnone]
    exact ih hk hc
  | @operand k c' d cs ds hc' _ hsame _ _ _ ih =>
    have hne : c'.role ≠ some "arguments" := by
      intro hfound
      obtain ⟨role, hmem, hrole⟩ := (role_of_isOperandOf (hk ▸ rfl)).mp hc'
      cases hrole.symm.trans hfound
      exact arguments_not_mem_operandRoles k hmem
    rw [inRole_cons_of_ne hne] at hc
    rw [inRole_cons_of_ne (hsame ▸ hne)]
    exact ih hk hc
  | @arguments k c' d cs ds hc' hsame _ hlist hchildren _ _ _ =>
    have hrole := role_of_isArgumentsOf hc'
    rw [inRole_cons, if_pos hrole] at hc
    cases hc
    exact ⟨d, by rw [inRole_cons, hsame, if_pos hrole], hlist, hchildren⟩
  | @other k c' d cs ds _ hc' hsame _ _ _ _ ih =>
    have hne : c'.role ≠ some "arguments" := by
      intro hfound
      rw [isArgumentsOf, hk, hfound] at hc'
      cases hc'
    rw [inRole_cons_of_ne hne] at hc
    rw [inRole_cons_of_ne (hsame ▸ hne)]
    exact ih hk hc

/-- Optional chains are neither put in nor lost. -/
theorem any_chain (h : Altered source source' (ReadsAlike source source') k cs ds) :
    ds.any (·.kind == "optional_chain") = cs.any (·.kind == "optional_chain") := by
  induction h with
  | nil => rfl
  | comment hkind _ _ ih => rw [List.any_cons, hkind, ih]; rfl
  | operand _ _ _ halike _ _ ih =>
    rw [List.any_cons, List.any_cons, beq_eq_false_iff_ne.mpr halike.noChain.1,
      beq_eq_false_iff_ne.mpr halike.noChain.2, ih]
  | arguments _ _ hkind hkind' _ _ _ ih => rw [List.any_cons, List.any_cons, hkind, hkind', ih]
  | other _ _ _ _ hkind _ _ ih => rw [List.any_cons, List.any_cons, hkind, ih]

/-- The items of a list give the same expressions, and those of a sequence are sequences where they
were. -/
theorem filter_items (h : Altered source source' (ReadsAlike source source') k cs ds)
    (hk : holdsItems k = true) :
    (ds.filter (isOperandOf k)).map (fun d => (d.toExpr source',
        k == "sequence_expression" && d.kind == "sequence_expression")) =
      (cs.filter (isOperandOf k)).map fun c => (c.toExpr source,
        k == "sequence_expression" && c.kind == "sequence_expression") := by
  have hitem (c : Node) : isOperandOf k c = (c.named && c.kind != "comment") := if_pos hk
  induction h with
  | nil => rfl
  | comment hkind _ _ ih =>
    rw [List.filter_cons_of_neg (by simp [hitem, hkind]), ih hk hitem]
  | @operand k c d cs ds hc hd _ halike hseq _ ih =>
    rw [List.filter_cons_of_pos hc, List.filter_cons_of_pos hd, List.map_cons, List.map_cons,
      ih hk hitem, halike.expr]
    congr 2
    by_cases hsequence : k = "sequence_expression"
    · -- a parenthesis is no sequence, so that a sequence comes from a sequence
      have hback : d.kind = "sequence_expression" → c.kind = "sequence_expression" := fun hd =>
        halike.kind.elim (fun hkind => hkind.symm.trans hd)
          fun hkind => absurd (hkind.symm.trans hd) (by decide)
      have hkind : (d.kind == "sequence_expression") = (c.kind == "sequence_expression") := by
        rw [Bool.eq_iff_iff, beq_iff_eq, beq_iff_eq]
        exact ⟨hback, hseq hsequence⟩
      rw [hkind]
    · rw [beq_eq_false_iff_ne.mpr hsequence, Bool.false_and, Bool.false_and]
  | arguments hc =>
    rw [isArgumentsOf, Bool.and_eq_true, beq_iff_eq] at hc
    rw [hc.1] at hk
    cases hk
  | @other k c d cs ds hc _ _ hnamed hkind _ _ ih =>
    have hd : isOperandOf k d = false := by rwa [hitem, hnamed, hkind, ← hitem]
    rw [List.filter_cons_of_neg (Bool.eq_false_iff.mp hd),
      List.filter_cons_of_neg (Bool.eq_false_iff.mp hc), ih hk hitem]

end Altered

/-! ## Reading -/

theorem withChild_eq {α : Type} {work work' : Node → Except Error α}
    (h : (inRole role m.children).map work' = (inRole role n.children).map work) :
    m.withChild role work' = n.withChild role work := by
  have hchild (k : Node) (work : Node → Except Error α) : k.withChild role work =
      ((inRole role k.children).map work).getD (.error .missingChild) := by
    rw [withChild, child?, ← inRole]
    cases inRole role k.children with
    | none => rfl
    | some c => rfl
  rw [hchild, hchild, h]

theorem operands_eq_filter (hk : holdsItems n.kind = true) :
    n.operands = n.children.filter (isOperandOf n.kind) := by
  rw [operands, namedChildren, List.filter_filter]
  congr 1
  funext c
  rw [isOperandOf, if_pos hk, Bool.and_comm]

theorem flatItems_eq {ps qs : List Part}
    (h : qs.map (fun q => (q.reading.expr, q.node.kind == "sequence_expression")) =
      ps.map fun p => (p.reading.expr, p.node.kind == "sequence_expression")) :
    flatItems qs = flatItems ps := by
  induction ps generalizing qs with
  | nil => rw [List.map_eq_nil_iff.mp h]
  | cons p ps ih =>
    obtain ⟨q, qs, rfl, hq, hqs⟩ := List.map_eq_cons_iff.mp h
    obtain ⟨hexpr, hkind⟩ := Prod.mk.inj hq
    rw [flatItems, flatItems, hexpr, ih hqs, hkind]

/-- The items of two lists give the same expressions. -/
theorem Altered.operands (hn : holdsItems n.kind = true) (hkind : m.kind = n.kind)
    (h : Altered source source' (ReadsAlike source source') n.kind n.children m.children) :
    m.operands.map (toExpr source') = n.operands.map (toExpr source) := by
  have hitems := congrArg (List.map Prod.fst) (h.filter_items hn)
  rw [List.map_map, List.map_map] at hitems
  rw [operands_eq_filter hn, operands_eq_filter (hkind ▸ hn), hkind]
  exact hitems

theorem mapM_toExpr (source : Bytes) (ns : List Node) :
    ns.mapM (toExpr source) = (ns.map (toExpr source)).mapM id := by
  rw [List.mapM_map]
  rfl

theorem Altered.toExpr_parenthesized (hk : n.kind = "parenthesized_expression")
    (hkind : m.kind = n.kind)
    (h : Altered source source' (ReadsAlike source source') n.kind n.children m.children) :
    m.toExpr source' = n.toExpr source := by
  have hitems := h.operands (by rw [hk]; rfl) hkind
  by_cases hone : n.operands.length = 1
  · obtain ⟨c, hc⟩ := List.length_eq_one_iff.mp hone
    rw [hc] at hitems
    obtain ⟨d, hd, hexpr⟩ := List.map_eq_singleton_iff.mp hitems
    rw [toExpr_group hk hc, toExpr_group (hkind.trans hk) hd, hexpr]
  · have hlength : m.operands.length = n.operands.length := by
      simpa only [List.length_map] using congrArg List.length hitems
    rw [toExpr_groups hk hone, toExpr_groups (hkind.trans hk) (hlength ▸ hone), mapM_toExpr,
      mapM_toExpr, hitems]

theorem Altered.toExpr_sequence (hk : n.kind = "sequence_expression") (hkind : m.kind = n.kind)
    (h : Altered source source' (ReadsAlike source source') n.kind n.children m.children) :
    m.toExpr source' = n.toExpr source := by
  have hholds : holdsItems n.kind = true := by rw [hk]; rfl
  have hitems : m.operands.map (fun d => (d.toExpr source', d.kind == "sequence_expression")) =
      n.operands.map fun c => (c.toExpr source, c.kind == "sequence_expression") := by
    rw [operands_eq_filter hholds, operands_eq_filter (hkind ▸ hholds), hkind]
    simpa only [hk, beq_self_eq_true, Bool.true_and] using h.filter_items hholds
  have hflat : flatItems (m.operands.map fun d => ⟨d, read source' d⟩) =
      flatItems (n.operands.map fun c => ⟨c, read source c⟩) := by
    apply flatItems_eq
    rw [List.map_map, List.map_map]
    exact hitems
  rw [Node.toExpr_sequence hk, Node.toExpr_sequence (hkind.trans hk), hflat]

/-- Every kind that is read through its children is read alike from children that are read alike. -/
theorem Altered.toExpr_eq (hn : n.isWhole = false) (hkind : m.kind = n.kind)
    (h : Altered source source' (ReadsAlike source source') n.kind n.children m.children) :
    m.toExpr source' = n.toExpr source := by
  have hchain : m.hasOptionalChain = n.hasOptionalChain := h.any_chain
  have hoperand {role : String} (hk : holdsItems n.kind = false)
      (hrole : role ∈ operandRoles n.kind) :
      m.withChild role (toExpr source') = n.withChild role (toExpr source) :=
    withChild_eq (h.inRole_operand hk hrole)
  have hother {α : Type} {role : String} (f : String × Except Error String → Except Error α)
      (hk : holdsItems n.kind = false) (hrole : role ∉ operandRoles n.kind)
      (hargs : role ≠ "arguments") :
      m.withChild role (fun d => f (d.kind, d.text source')) =
        n.withChild role fun c => f (c.kind, c.text source) := by
    have hmap := congrArg (Option.map f) (h.inRole_other hk hrole hargs)
    rw [Option.map_map, Option.map_map] at hmap
    exact withChild_eq hmap
  rw [isWhole] at hn
  split at hn
  next hcall =>
    have hcall := eq_of_beq hcall
    rw [Bool.not_eq_false', hasArguments, Option.any_eq_true] at hn
    obtain ⟨c, hc, hlist⟩ := hn
    obtain ⟨d, hd, hlist', hargs⟩ := h.inRole_arguments hcall hc
    have hlist := eq_of_beq hlist
    have hitems : d.operands.map (toExpr source') = c.operands.map (toExpr source) :=
      Altered.operands (by rw [hlist]; rfl) (hlist'.trans hlist.symm) (hlist.symm ▸ hargs)
    rw [toExpr_call hcall hc hlist, toExpr_call (hkind.trans hcall) hd hlist', hchain,
      hoperand (by rw [hcall]; rfl) (by rw [hcall]; decide), mapM_toExpr, mapM_toExpr, hitems]
  next =>
    rw [Bool.not_eq_false', List.contains_iff_mem] at hn
    simp only [compositeKinds, List.mem_cons, List.not_mem_nil, or_false] at hn
    rcases hn with hk | hk | hk | hk | hk | hk | hk
    · exact h.toExpr_parenthesized hk hkind
    · rw [toExpr_conditional hk, toExpr_conditional (hkind.trans hk)]
      rw [hk] at hoperand
      rw [hoperand rfl (by decide), hoperand rfl (by decide), hoperand rfl (by decide)]
    · rw [toExpr_binary hk, toExpr_binary (hkind.trans hk)]
      rw [hk] at hoperand hother
      rw [hoperand rfl (by decide), hoperand rfl (by decide),
        hother (fun p => .ok p.1) rfl (by decide) (by decide)]
    · rw [toExpr_unary hk, toExpr_unary (hkind.trans hk)]
      rw [hk] at hoperand hother
      rw [hoperand rfl (by decide), hother (fun p => .ok p.1) rfl (by decide) (by decide)]
    · rw [toExpr_member hk, toExpr_member (hkind.trans hk), hchain]
      rw [hk] at hoperand hother
      rw [hoperand rfl (by decide), hother Prod.snd rfl (by decide) (by decide)]
    · rw [toExpr_subscript hk, toExpr_subscript (hkind.trans hk), hchain]
      rw [hk] at hoperand
      rw [hoperand rfl (by decide), hoperand rfl (by decide)]
    · exact h.toExpr_sequence hk hkind

/-- Names, literals and constructs that are kept as raw text. -/
theorem toExpr_atom (hcall : n.kind ≠ "call_expression") (hk : n.kind ∉ compositeKinds) :
    n.toExpr source =
      if isNameKind n.kind then return .name (← n.text source)
      else if isLiteralKind n.kind then return .literal (← n.text source)
      else raw source n := by
  rw [toExpr_eq]
  unfold assemble
  split
  case h_5 hkind => exact absurd hkind hcall
  case h_9 => rfl
  all_goals
    next hkind => exact absurd (by rw [hkind]; decide) hk

theorem toExpr_whole (h : n.isWhole = true) (h' : m.isWhole = true) (hkind : m.kind = n.kind)
    (htext : m.text source' = n.text source) : m.toExpr source' = n.toExpr source := by
  have hraw : raw source' m = raw source n := by rw [raw, raw, htext, hkind]
  rw [isWhole] at h h'
  by_cases hcall : n.kind = "call_expression"
  · rw [if_pos (beq_iff_eq.mpr hcall), Bool.not_eq_true'] at h
    rw [if_pos (beq_iff_eq.mpr (hkind.trans hcall)), Bool.not_eq_true'] at h'
    rw [toExpr_tagged hcall h, toExpr_tagged (hkind.trans hcall) h', hraw]
  · rw [if_neg (by simpa using hcall), Bool.not_eq_true', List.contains_eq_mem,
      decide_eq_false_iff_not] at h
    rw [toExpr_atom hcall h, toExpr_atom (hkind ▸ hcall) (hkind ▸ h), hkind, htext, hraw]

theorem kind_ne_chain (hn : n.isWhole = false) : n.kind ≠ "optional_chain" := by
  intro hkind
  rw [isWhole, hkind] at hn
  cases hn

mutual

/-- A regrouped node is read alike. -/
theorem Regrouped.readsAlike {n m : Node} :
    Regrouped source source' n m → ReadsAlike source source' n m
  | .whole hn hm hchain hkind htext =>
    ⟨toExpr_whole hn hm hkind htext, ⟨hchain, hkind ▸ hchain⟩, .inl hkind⟩
  | .inside hn hkind h =>
    ⟨h.readsAlike.toExpr_eq hn hkind, ⟨kind_ne_chain hn, hkind ▸ kind_ne_chain hn⟩, .inl hkind⟩
  | .wrap h hkind hoperands =>
    ⟨(toExpr_group hkind hoperands).trans h.readsAlike.expr,
      ⟨h.readsAlike.noChain.1, hkind ▸ by decide⟩, .inr hkind⟩

theorem Altered.readsAlike {k : String} {cs ds : List Node} :
    Altered source source' (Regrouped source source') k cs ds →
      Altered source source' (ReadsAlike source source') k cs ds
  | .nil => .nil
  | .comment hkind hrole h => .comment hkind hrole h.readsAlike
  | .operand hc hd hrole hcd hseq h => .operand hc hd hrole hcd.readsAlike hseq h.readsAlike
  | .arguments hc hrole hlist hlist' hargs h =>
    .arguments hc hrole hlist hlist' hargs.readsAlike h.readsAlike
  | .other hc hargs hrole hnamed hkind htext h =>
    .other hc hargs hrole hnamed hkind htext h.readsAlike

end

/-- **Comments and further parentheses leave no trace in the expression of a node.** So do the
parentheses that end an optional chain. -/
theorem toExpr_ignores_grouping (h : Regrouped source source' n m) :
    m.toExpr source' = n.toExpr source ∧
      ∀ (bytes : Bytes) (k : Node), k.unwrap.toExpr bytes = k.toExpr bytes :=
  ⟨h.readsAlike.expr, toExpr_unwrap⟩

end CondUnfold.Node

namespace CondUnfold.CommentedCall

open Node
open Sample hiding kind

/-- The node of `(a)`. -/
def group (start : Nat) : Node :=
  node "parenthesized_expression" start (start + 3)
    [token "(" start (start + 1), word (start + 1), token ")" (start + 2) (start + 3)]

def source : Bytes := Utf8.encode "f(a,b)"
def plain : Node :=
  call (word 0) 6 [token "(" 1 2, word 2, token "," 3 4, word 4, token ")" 5 6]

def source' : Bytes := Utf8.encode "f(/**/(a),b)"
def commented : Node :=
  call (word 0) 12
    [token "(" 1 2, node "comment" 2 6, group 6, token "," 9 10, word 10, token ")" 11 12]

theorem text_eq_of_bytes {n m : Node} (h : m.bytes source' = n.bytes source) :
    m.text source' = n.text source := by
  rw [Node.text, Node.text, h]

theorem regrouped_word {n m : Node} (hn : n.kind = "identifier") (hm : m.kind = "identifier")
    (h : m.bytes source' = n.bytes source) : Regrouped source source' n m := by
  have hwhole {k : Node} (hk : k.kind = "identifier") : k.isWhole = true := by
    rw [isWhole, hk]
    rfl
  exact .whole (hwhole hn) (hwhole hm) (hn ▸ by decide) (hm.trans hn.symm) (text_eq_of_bytes h)

theorem regrouped : Regrouped source source' plain commented := by
  have hnot (h : "arguments" = "sequence_expression") : False := absurd h (by decide)
  refine .inside rfl rfl (.operand rfl rfl rfl (regrouped_word rfl rfl (by decide)) ?_
    (.arguments rfl rfl rfl rfl ?_ .nil))
  · exact fun h => absurd h (by decide)
  refine .other rfl rfl rfl rfl rfl (text_eq_of_bytes (by decide)) ?_
  refine .comment rfl rfl ?_
  refine .operand rfl rfl rfl (.wrap (regrouped_word rfl rfl (by decide)) rfl rfl)
    (fun h => (hnot h).elim) ?_
  refine .other rfl rfl rfl rfl rfl (text_eq_of_bytes (by decide)) ?_
  refine .operand rfl rfl rfl (regrouped_word rfl rfl (by decide)) (fun h => (hnot h).elim) ?_
  exact .other rfl rfl rfl rfl rfl (text_eq_of_bytes (by decide)) .nil

/-- A comment and parentheses in `f(a,b)` leave its expression as it is. -/
theorem toExpr_commented : Regrouped source source' plain commented ∧
    ∃ e, plain.toExpr source = .ok e ∧ commented.toExpr source' = .ok e ∧ e.text = "f(a, b)" ∧
      (group 6).unwrap.toExpr source' = (group 6).toExpr source' := by
  have htext : (plain.toExpr source).toOption.map Expr.text = some "f(a, b)" := by decide +kernel
  obtain ⟨e, he, htext⟩ := Except.exists_ok_of_toOption htext
  obtain ⟨hsame, hunwrap⟩ := toExpr_ignores_grouping regrouped
  exact ⟨regrouped, e, he, hsame.trans he, htext, hunwrap source' (group 6)⟩

end CondUnfold.CommentedCall
