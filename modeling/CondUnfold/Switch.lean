import CondUnfold.Comparison
import CondUnfold.Event
import CondUnfold.Stmt

/-! Turning chains of comparisons into a switch. A decision tree whose guards compare one base
with values becomes `switch (base)` with an arm for each value. A strict maker refuses a chain for
which the switch might not do the same; a permissive one goes ahead. -/

namespace CondUnfold

/-- Where a decision tree stands: the tree that it is part of, and the way from its root. Two
places are the same node exactly if they are equal. -/
structure Place where
  root : Nat := 0
  path : List Side := []
deriving DecidableEq, Repr

namespace Place

/-- The place of a branch. -/
def step (p : Place) (s : Side) : Place := { p with path := p.path ++ [s] }

/-- Is `p` the place `q` or a place below it? -/
def within (p q : Place) : Bool := p.root == q.root && q.path.isPrefixOf p.path

end Place

/-- Why a chain cannot become a switch. The texts are those of the expressions concerned. -/
inductive Refusal.Reason where
  /-- A guard has no comparison with the base. -/
  | notCompared (guard : String)
  /-- A guard compares with `==`, where a switch would compare with `===`. -/
  | loose (base value : String)
  /-- What a guard guards is not a single action. -/
  | nested (value : String)
deriving DecidableEq, Repr

/-- The wording of a reason. -/
def Refusal.Reason.text : Refusal.Reason → String
  | .notCompared guard => "guard '" ++ guard ++ "' does not compare the base"
  | .loose base value => "'" ++ base ++ " == " ++ value ++ "' matches loosely"
  | .nested value => "case " ++ value ++ " guards a nested condition"

/-- A chain that was long enough but could not become a switch. -/
structure Refusal where
  base : String
  reason : Refusal.Reason
deriving DecidableEq, Repr

/-- A maker of switches: its settings, the places it has refused with the text of the base, the
refusals that it has reported, and its log. -/
structure SwitchMaker where
  threshold : Int := 3
  strict : Bool := true
  refused : List (Place × String) := []
  refusals : List Refusal := []
  log : Log := []
deriving DecidableEq, Repr

/-- Why collecting the arms stops. -/
inductive Stop where
  | failed (e : Error)
  | refused (reason : Refusal.Reason)
deriving DecidableEq, Repr

/-- The text of an expression, while collecting arms. -/
def Stop.textOf : Option Expr → Except Stop String
  | none => .error (.failed .noExpression)
  | some e => e.render.mapError .failed

/-- An action followed by `break`. -/
def actionBody (action : Option Expr) : List Stmt := [.action action, .brk]

/-- The conditions under which a strict maker goes on behind a guard with these comparisons. -/
def checkGuard (base : Expr) (guard : Option Expr) (comparisons : List Comparison) :
    Except Stop Unit := do
  if comparisons.isEmpty then
    throw (.refused (.notCompared (← Stop.textOf guard)))
  match comparisons.find? (·.op == "==") with
  | none => return ()
  | some c =>
    let b ← Stop.textOf (some base)
    let v ← Stop.textOf (some c.value)
    throw (.refused (.loose b v))

/-- The arms for the comparisons of one guard. All but the last fall through to the last, whose
body is the action behind the guard. -/
def guardArms (strict : Bool) (yes : Option DecisionTree) :
    List Comparison → Except Stop (List (Arm Stmt))
  | [] => return []
  | [c] =>
    match yes with
    | none => return [⟨some c.value, if strict then [.brk] else []⟩]
    | some t => do
      if strict && !t.isLeaf then
        throw (.refused (.nested (← Stop.textOf (some c.value))))
      return [⟨some c.value, actionBody t.condition⟩]
  | c :: cs => do
    let rest ← guardArms strict yes cs
    return ⟨some c.value, []⟩ :: rest

/-- The arms of one guard, after the conditions of a strict maker. -/
def armsOfGuard (strict : Bool) (base : Expr) (guard : Option Expr) (yes : Option DecisionTree) :
    Except Stop (List (Arm Stmt)) := do
  let comparisons ← (guardComparisons base guard).mapError .failed
  if strict then checkGuard base guard comparisons
  guardArms strict yes comparisons

/-- The arms of a chain: those of its guards down the branches for guards that fail, and a
`default` arm for the action at the end. -/
def collectArms (strict : Bool) (base : Expr) : DecisionTree → Except Stop (List (Arm Stmt))
  | .leaf action => return [⟨none, actionBody action⟩]
  | .onYes guard y => armsOfGuard strict base guard (some y)
  | .onNo guard n => do
    let arms ← armsOfGuard strict base guard none
    let rest ← collectArms strict base n
    return arms ++ rest
  | .fork guard y n => do
    let arms ← armsOfGuard strict base guard (some y)
    let rest ← collectArms strict base n
    return arms ++ rest

/-- The first candidate whose chain in `tree` has at least `threshold` guards. -/
def findBase (threshold : Int) (tree : DecisionTree) : List Expr → Except Error (Option Expr)
  | [] => .ok none
  | b :: bs => do
    if threshold ≤ (← chainDepth b tree 0) then return some b else findBase threshold tree bs

namespace SwitchMaker

/-- A maker with the given settings; a threshold below one counts as one. -/
def ofSettings (threshold : Int) (strict : Bool) : SwitchMaker :=
  { threshold := max 1 threshold, strict }

/-- Record that the chain at `place` is refused. A part of a chain that was refused on the same
base is not reported again. -/
def refuse (m : SwitchMaker) (place : Place) (base : String) (reason : Refusal.Reason) :
    SwitchMaker :=
  if m.refused.any fun r => r.2 == base && place.within r.1 then
    { m with log := m.log ++ [.tailRefused base reason.text] }
  else
    { m with
      refused := m.refused ++ [(place, base)]
      refusals := m.refusals ++ [⟨base, reason⟩]
      log := m.log ++ [.chainRefused base reason.text] }

/-- The subject and the arms of a switch for the tree at `place`, if there is one. -/
def trySwitch (m : SwitchMaker) (place : Place) (tree : DecisionTree) :
    Except Error (Option (Expr × List (Arm Stmt)) × SwitchMaker) := do
  if tree.isLeaf then return (none, m)
  match ← guardBases tree.condition with
  | [] => return (none, m)
  | first :: others =>
    match ← findBase m.threshold tree (first :: others) with
    | none =>
      let event := Event.chainTooShort (← first.render) m.threshold
      return (none, { m with log := m.log ++ [event] })
    | some base =>
      match collectArms m.strict base tree with
      | .ok arms =>
        let event := Event.switchMade (← base.render) arms.length
        return (some (base, arms), { m with log := m.log ++ [event] })
      | .error (.failed e) => throw e
      | .error (.refused reason) => return (none, m.refuse place (← base.render) reason)

end SwitchMaker
end CondUnfold
