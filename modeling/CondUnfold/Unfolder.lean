import CondUnfold.Options
import CondUnfold.Report
import CondUnfold.Trigger
import CondUnfold.Unfolding

/-! Unfolding whole sources. A pass parses the source, unfolds every statement that is not inside
another one that is unfolded, and puts the results in place. What lies inside an unfolded statement
is left to the next pass. -/

namespace CondUnfold

/-- The statements for an expression that stands as a statement, and the maker of switches after
it was asked. -/
def unfoldAction (o : Options) (e : Expr) : Except Error (List Stmt × Option SwitchMaker) :=
  (DecisionTree.ofExpr true e).ifChain {} o.maker

/-- The statements for an expression that is returned. A conditional without another one in its
arms stays as it is. Short-circuit expressions are kept whole, since their value is returned. -/
def unfoldReturn (e : Expr) : Option (List Stmt) :=
  if e.isNestedConditional then some (DecisionTree.ofExpr false e).earlyReturn else none

/-- Work that may fail and that keeps a log in any case. -/
abbrev Logged := ExceptT Error (StateM Log)

namespace Logged

/-- Add events to the log. -/
def tell (events : Log) : Logged Unit := modify (· ++ events)

/-- Carry out work from an empty log. -/
def outcome (work : Logged α) : Except Error α × Log := work.run []

end Logged

/-- A statement with what takes its place. -/
structure Replacement where
  trigger : Trigger
  /-- The depth of the decision tree. -/
  depth : Nat
  body : List Stmt
  refusals : List Refusal

namespace Replacement

/-- The kind of the replacement. -/
def kind (r : Replacement) : String :=
  if r.trigger.kind = .ret then Record.earlyReturn
  else
    match r.body with
    | [s] => if s.isSwitch then Record.switch else Record.ifChain
    | _ => Record.ifChain

/-- The record of the replacement. -/
def record (r : Replacement) : Record where
  kind := r.kind
  trigger := r.trigger.kind.name
  line := r.trigger.site.line
  statements := r.body.length
  depth := r.depth

/-- The refusals met on the way. -/
def notes (r : Replacement) : List RefusalNote :=
  r.refusals.map fun f => ⟨r.trigger.site.line, f.base, f.reason.text⟩

/-- The edit that puts the replacement in place. -/
def edit (r : Replacement) (layout : Layout) : Except Error Edit :=
  r.trigger.site.edit layout (r.body.map .stmt)

/-- Enter the replacement into a report. -/
def enter (r : Replacement) (report : Report) : Report :=
  r.notes.foldl Report.refuse (report.register r.record)

end Replacement

/-- The replacement of a statement, if it is to be replaced. -/
def Trigger.unfold (o : Options) (t : Trigger) : Logged (Option Replacement) := do
  match t.kind with
  | .ret =>
    return (unfoldReturn t.expr).map fun body =>
      ⟨t, (DecisionTree.ofExpr false t.expr).depth, body, []⟩
  | .conditional | .logical =>
    let (body, maker) ← unfoldAction o t.expr
    Logged.tell (maker.elim [] (·.log))
    let refusals := maker.elim [] (·.refusals)
    return some ⟨t, (DecisionTree.ofExpr true t.expr).depth, body, refusals⟩

/-- The replacements of statements that begin at or behind `covered`, each one covering its own
span. -/
def unfoldOutermost (o : Options) (covered : Int) : List Trigger → Logged (List Replacement)
  | [] => return []
  | t :: ts => do
    if t.site.start < covered then unfoldOutermost o covered ts
    else
      match ← t.unfold o with
      | none => unfoldOutermost o covered ts
      | some r =>
        let rest ← unfoldOutermost o t.site.stop ts
        return r :: rest

/-- All replacements in a source with the given syntax tree. -/
def replacements (o : Options) (root : Node) (source : Bytes) : Logged (List Replacement) := do
  root.check source
  let triggers ← root.triggers source
  Logged.tell [.triggersFound triggers.length]
  unfoldOutermost o (-1) triggers

/-- A source on its way through the passes. -/
structure Progress where
  source : Bytes
  report : Report

/-- The edits of one pass, with the report after it. -/
def passEdits (o : Options) (root : Node) (p : Progress) : Logged (List Edit × Report) := do
  let found ← replacements o root p.source
  let edits ← (found.mapM (·.edit o.layout) : Except Error _)
  return (edits, found.foldl (fun report r => r.enter report) p.report)

/-- Run up to `left` passes, and warn if there is something left to do after the last of them.
`parse` is told how many times it was asked before. -/
def runPasses (o : Options) (parse : Nat → Bytes → Node) :
    (left done : Nat) → Progress → Logged Progress
  | 0, done, p => do
    let found ← replacements o (parse done p.source) p.source
    if !found.isEmpty then
      Logged.tell [.passesExhausted (nameOr "<source>" p.report.name) o.maxPasses]
    return p
  | left + 1, done, p => do
    let (edits, report) ← passEdits o (parse done p.source) p
    if edits.isEmpty then return p
    let source ← Edit.applyAll edits p.source
    runPasses o parse left (done + 1) ⟨source, { report with passes := report.passes + 1 }⟩

/-- A source after unfolding. -/
structure Unfolded where
  source : String
  /-- Does the source differ from what it was? -/
  changed : Bool
  report : Report

/-- Unfold a source, with a parser that is told how many times it was asked before. -/
def unfoldBy (parse : Nat → Bytes → Node) (o : Options) (name : Option String) (source : String) :
    Except Error Unfolded × Log :=
  Logged.outcome do
    let p ← runPasses o parse o.maxPasses.toNat 0 ⟨Utf8.encode source, { name }⟩
    match Utf8.decode? p.source with
    | some result => return ⟨result, result != source, p.report⟩
    | none => throw .notUtf8

/-- Unfold a source with a parser. -/
def unfold (parse : Bytes → Node) (o : Options) (name : Option String) (source : String) :
    Except Error Unfolded × Log :=
  unfoldBy (fun _ => parse) o name source

end CondUnfold
