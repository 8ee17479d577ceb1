import CondUnfold.CommandLine.Word
import CondUnfold.Options
import CondUnfold.Path
import CondUnfold.Text.Integer

/-! The command that arguments stand for. -/

namespace CondUnfold

/-- What a user asks for. -/
structure Command where
  inputs : List Path
  output : Option Path
  report : Option Path
  inPlace : Bool
  check : Bool
  verbose : Bool
  options : Options

namespace CommandLine

/-- Why reading arguments comes to an early end. -/
inductive Halt where
  | help
  | misuse (m : Misuse)
deriving DecidableEq, Repr

/-- What the arguments have said so far. -/
structure Draft where
  inputs : Option (List String) := none
  output : Option String := none
  report : Option String := none
  inPlace : Bool := false
  check : Bool := false
  verbose : Bool := false
  switchThreshold : Int := 3
  noSwitch : Bool := false
  permissiveSwitchCases : Bool := false
  maxPasses : Int := 8
  indent : String := "  "
  noSemicolons : Bool := false
  /-- Arguments that mean nothing. -/
  extras : List String := []

/-- An option with its value, if it takes one. -/
abbrev Given := Opt × String

/-- The integer that is the value of an option. -/
def integerValue (o : Opt) (value : String) : Except Halt Int :=
  match Text.integer? value with
  | some n => .ok n
  | none => .error (.misuse (.notAnInteger o value))

/-- Take account of an option. -/
def Draft.apply (d : Draft) (g : Given) : Except Halt Draft := do
  let (o, value) := g
  if o.takesValue && value == endMarkText then throw (.misuse (.endMarkAsValue o))
  match o with
  | .help => throw .help
  | .output => return { d with output := some value }
  | .inPlace => return { d with inPlace := true }
  | .report => return { d with report := some value }
  | .switchThreshold => return { d with switchThreshold := ← integerValue o value }
  | .noSwitch => return { d with noSwitch := true }
  | .permissiveSwitchCases => return { d with permissiveSwitchCases := true }
  | .indent => return { d with indent := value }
  | .noSemicolons => return { d with noSemicolons := true }
  | .maxPasses => return { d with maxPasses := ← integerValue o value }
  | .check => return { d with check := true }
  | .verbose => return { d with verbose := true }

/-- What one argument says: options with their values, the option that still waits for its value
if there is one, and what means nothing. -/
structure Reading where
  given : List Given := []
  waiting : Option Opt := none
  extras : List String := []

/-- An option without anything attached. -/
def readBare (o : Opt) : Reading :=
  if o.takesValue then { waiting := some o } else { given := [(o, "")] }

/-- An option before the others of its cluster. -/
def Reading.after (r : Reading) (o : Opt) : Reading := { r with given := (o, "") :: r.given }

/-- Options in a cluster from the first one on, where the text stands behind that option. -/
def readCluster (o : Opt) (afterEquals : Bool) : List Char → Except Misuse Reading
  | [] => if o.takesValue then .ok { given := [(o, "")] } else .error (.valueIgnored o "")
  | c :: rest =>
    if o.takesValue then .ok { given := [(o, String.ofList (c :: rest))] }
    else if afterEquals || c == '-' then .error (.valueIgnored o (String.ofList (c :: rest)))
    else
      match Opt.find? (String.ofList ['-', c]) with
      | none => .ok { given := [(o, "")], extras := [String.ofList ('-' :: c :: rest)] }
      | some next =>
        match rest with
        | [] => .ok ((readBare next).after o)
        | '=' :: value => (readCluster next true value).map (·.after o)
        | rest => (readCluster next false rest).map (·.after o)

/-- What an option says together with what is attached to it. -/
def Use.read (u : Use) : Except Misuse Reading :=
  match u.attached with
  | none => .ok (readBare u.opt)
  | some a =>
    if beginsWith u.spelling "--" && !u.opt.takesValue then
      .error (.valueIgnored u.opt (String.ofList a.value))
    else readCluster u.opt a.afterEquals a.value

/-- How far reading the arguments has come. -/
structure Progress where
  draft : Draft := {}
  /-- The plain words since the last option. -/
  group : List Word := []
  /-- Options that take effect as soon as the last one of them gets its value. -/
  pending : Option (List Given × Opt) := none

/-- The plain words since the last option are the inputs, if there are none yet and a value is among
them; the end mark is left out once. Otherwise they mean nothing. -/
def Progress.closeGroup (p : Progress) : Progress :=
  let texts := p.group.filterMap Word.plainText?
  let hasValue := p.group.any (· != .endMark)
  if p.draft.inputs.isNone && hasValue then
    { p with draft := { p.draft with inputs := some (texts.erase endMarkText) }, group := [] }
  else { p with draft := { p.draft with extras := p.draft.extras ++ texts }, group := [] }

/-- Take account of one argument. -/
def Progress.step (p : Progress) (w : Word) : Except Halt Progress := do
  match p.pending, w with
  | some (given, o), .value v =>
    return { p with draft := ← (given ++ [(o, v)]).foldlM Draft.apply p.draft, pending := none }
  | some (_, o), _ => throw (.misuse (.valueMissing o))
  | none, .option u =>
    let p := p.closeGroup
    match u.read with
    | .error m => throw (.misuse m)
    | .ok r =>
      match r.waiting with
      | some o => return { p with pending := some (r.given, o) }
      | none =>
        let d ← r.given.foldlM Draft.apply p.draft
        return { p with draft := { d with extras := d.extras ++ r.extras } }
  | none, .unknown s =>
    let p := p.closeGroup
    return { p with draft := { p.draft with extras := p.draft.extras ++ [s] } }
  | none, w => return { p with group := p.group ++ [w] }

/-- The command, if all is said that has to be said. -/
def Draft.toCommand (d : Draft) : Except Misuse Command :=
  match d.inputs with
  | none => .error .inputsMissing
  | some inputs =>
    if !d.extras.isEmpty then .error (.unrecognized d.extras)
    else if d.output.isSome && inputs.length != 1 then .error .outputForMany
    else if d.output.isSome && d.inPlace then .error .outputAndInPlace
    else if ht : 1 ≤ d.switchThreshold then
      if hp : 1 ≤ d.maxPasses then
        .ok {
          inputs := inputs.map Path.ofString
          output := d.output.map Path.ofString
          report := d.report.map Path.ofString
          inPlace := d.inPlace
          check := d.check
          verbose := d.verbose
          options := {
            switchThreshold := d.switchThreshold
            strictCases := !d.permissiveSwitchCases
            makeSwitches := !d.noSwitch
            maxPasses := d.maxPasses
            layout := { indent := .ofString d.indent, semicolons := !d.noSemicolons }
            switchThreshold_pos := ht
            maxPasses_pos := hp } }
      else .error .passesNotPositive
    else .error .thresholdNotPositive

/-- The command that arguments stand for. They are texts, so that no surrogate gets into the indent of
the layout here; a command can have one all the same. -/
def readArguments (args : List String) : Except Halt Command := do
  let words ← (Word.ofStrings args).mapError .misuse
  let p ← words.foldlM Progress.step {}
  match p.pending with
  | some (_, o) => throw (.misuse (.valueMissing o))
  | none => p.closeGroup.draft.toCommand.mapError .misuse

end CommandLine
end CondUnfold
