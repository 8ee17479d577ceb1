/-! What a run has to tell while it works. -/

namespace CondUnfold

/-- How much an event matters. -/
inductive Severity where
  | debug
  | warning
deriving DecidableEq, Repr

/-- The word for a severity. -/
def Severity.word : Severity → String
  | .debug => "DEBUG"
  | .warning => "WARNING"

/-- The part of the work that an event comes from. -/
inductive Channel where
  | syntaxTree
  | switches
  | passes
  | commandLine
deriving DecidableEq, Repr

/-- The name under which a part of the work writes to the log. -/
def Channel.name : Channel → String
  | .syntaxTree => "unternary.js_frontend"
  | .switches => "unternary.switch_synth"
  | .passes => "unternary.transform"
  | .commandLine => "unternary.cli"

/-- An event. -/
inductive Event where
  /-- A syntax tree holds `count` statements that may be unfolded. -/
  | triggersFound (count : Nat)
  /-- The guards on `base` are too few for a switch. -/
  | chainTooShort (base : String) (threshold : Int)
  /-- A switch on `base` with `arms` arms takes the place of a chain. -/
  | switchMade (base : String) (arms : Nat)
  /-- A chain on `base` is long enough for a switch, but a switch would not do the same. -/
  | chainRefused (base reason : String)
  /-- The same for a part of a chain that was refused before. -/
  | tailRefused (base reason : String)
  /-- The last pass has left something to do. -/
  | passesExhausted (source : String) (passes : Int)
  /-- A file is done, with `count` statements unfolded. -/
  | fileDone (path : String) (count : Nat)
deriving DecidableEq, Repr

namespace Event

/-- How much the event matters. -/
def severity : Event → Severity
  | .chainRefused .. | .passesExhausted .. => .warning
  | _ => .debug

/-- Where the event comes from. -/
def channel : Event → Channel
  | .triggersFound _ => .syntaxTree
  | .chainTooShort .. | .switchMade .. | .chainRefused .. | .tailRefused .. => .switches
  | .passesExhausted .. => .passes
  | .fileDone .. => .commandLine

/-- The wording of the event. -/
def message : Event → String
  | .triggersFound n => "found " ++ toString n ++ " trigger statement(s)"
  | .chainTooShort base t => "chain on " ++ base ++ " below switch threshold " ++ toString t
  | .switchMade base n =>
    "synthesised switch on " ++ base ++ " with " ++ toString n ++ " case(s)"
  | .chainRefused base reason =>
    "not converting chain on " ++ base ++ " into a switch: " ++ reason
  | .tailRefused base reason =>
    "not converting tail of refused chain on " ++ base ++ ": " ++ reason
  | .passesExhausted source n =>
    source ++ ": stopped after " ++ toString n ++ " passes with rewritable statements left"
  | .fileDone path n => path ++ ": " ++ toString n ++ " rewrite(s)"

/-- The event as a line of the log. -/
def text (e : Event) : String :=
  e.severity.word ++ " " ++ e.channel.name ++ ": " ++ e.message

end Event

/-- Events in the order in which they happened. -/
abbrev Log := List Event

end CondUnfold
