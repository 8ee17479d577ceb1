import CondUnfold.Syntax.Node

/-! Patterns. An array, an object or a parameter list is first read as if it were an expression;
when an assignment or an arrow follows, it becomes a pattern. -/

namespace CondUnfold.Node

/-- Kinds that are patterns as they stand. -/
def isTargetKind (kind : String) : Bool :=
  kind == "identifier" || kind == "undefined" || kind == "member_expression" ||
    kind == "subscript_expression" || kind == "object_pattern" || kind == "array_pattern"

/-- The node with another kind and other children. -/
def recast (n : Node) (kind : String) (children : List Node) : Node := { n with kind, children }

/-- Is the node an assignment with `=` whose left side is not in parentheses? -/
def isDefault (n : Node) : Bool :=
  n.kind == "assignment_expression" && (n.child? "left").any (isTargetKind ·.kind)

mutual

/-- The node as a pattern. -/
def toPattern : Node → Option Node
  | ⟨kind, start, stop, role, named, missing, mark, children⟩ =>
    let n : Node := ⟨kind, start, stop, role, named, missing, mark, children⟩
    if isTargetKind kind then some n
    else if kind == "array" then (elementPatterns children).map (n.recast "array_pattern")
    else if kind == "object" then (fieldPatterns children).map (n.recast "object_pattern")
    else if kind == "spread_element" then (targetPatterns children).map (n.recast "rest_pattern")
    else none

/-- A node whose children all are patterns. -/
def targetPatterns : List Node → Option (List Node)
  | [] => some []
  | n :: ns => do
    let p ← toPattern n
    let ps ← targetPatterns ns
    return p :: ps

/-- Patterns, each of which may have a default value. -/
def elementPatterns : List Node → Option (List Node)
  | [] => some []
  | n :: ns => do
    let p ← if n.isDefault then some (n.recast "assignment_pattern" n.children) else toPattern n
    let ps ← elementPatterns ns
    return p :: ps

/-- The fields of an object pattern. -/
def fieldPatterns : List Node → Option (List Node)
  | [] => some []
  | ⟨kind, start, stop, role, named, missing, mark, children⟩ :: ns => do
    let n : Node := ⟨kind, start, stop, role, named, missing, mark, children⟩
    let p ←
      if kind == "shorthand_property_identifier" then
        some (n.recast "shorthand_property_identifier_pattern" children)
      else if kind == "object_assignment_pattern" then some n
      else if kind == "spread_element" then (targetPatterns children).map (n.recast "rest_pattern")
      else if kind == "pair" then (pairPatterns children).map (n.recast "pair_pattern")
      else none
    let ps ← fieldPatterns ns
    return p :: ps

/-- The key and the value of a field of an object pattern. -/
def pairPatterns : List Node → Option (List Node)
  | [] => some []
  | n :: ns => do
    let p ←
      if n.role == some "value" then
        if n.isDefault then some (n.recast "assignment_pattern" n.children) else toPattern n
      else some n
    let ps ← pairPatterns ns
    return p :: ps

end

/-- The items between parentheses as parameters; only the last place may be empty, behind a
comma or alone. -/
def parameters : List (Option Node) → Option (List Node)
  | [] => some []
  | [none] => some []
  | none :: _ => none
  | some n :: rest => do
    let p ← elementPatterns [n]
    let ps ← parameters rest
    return p ++ ps

mutual

/-- Has an object below the node, or the node itself, a default value without being a pattern? -/
def hasStrayDefault : Node → Bool
  | ⟨kind, _, _, _, _, _, _, children⟩ =>
    (kind == "object" && children.any (·.kind == "object_assignment_pattern")) ||
      anyStrayDefault children

/-- The same for a list of nodes. -/
def anyStrayDefault : List Node → Bool
  | [] => false
  | n :: ns => n.hasStrayDefault || anyStrayDefault ns

end

end CondUnfold.Node
