import CondUnfold.CommandLine.Command
import CondUnfold.Folder
import CondUnfold.Unfolder

/-! Carrying out a command on a tree of files, with a parser for the sources. -/

namespace CondUnfold

/-- Why a command comes to an early end. -/
inductive Failure where
  /-- A file is in the way or is lacking. -/
  | file (e : FileError)
  /-- A text or a statement is not what it should be. -/
  | content (e : Error)
deriving Repr

/-- What is told on the channel for messages. -/
inductive Notice where
  | event (e : Event)
  /-- A source cannot be unfolded. -/
  | refused (path : String) (e : Error)

/-- The text of a message. -/
def Notice.text : Notice → String
  | .event e => e.text
  | .refused path e => path ++ ": " ++ e.message

/-- How far a command has come, and what it has left behind. -/
structure Session where
  folder : Folder
  printed : String := ""
  notices : List Notice := []

/-- Work on files that tells things and may fail. What was done before a failure remains done. -/
abbrev Work := ExceptT Failure (StateM Session)

namespace Work

/-- Print a text. -/
def print (s : String) : Work Unit := modify fun w => { w with printed := w.printed ++ s }

/-- Tell something. -/
def notify (ns : List Notice) : Work Unit := modify fun w => { w with notices := w.notices ++ ns }

/-- Change the files. -/
def changing (f : Folder → Except FileError Folder) : Work Unit := do
  match f (← get).folder with
  | .ok folder => modify fun w => { w with folder }
  | .error e => throw (.file e)

/-- Look something up in the files. -/
def consulting (f : Folder → Except FileError α) : Work α := do
  match f (← get).folder with
  | .ok a => return a
  | .error e => throw (.file e)

end Work

/-- A text with line feeds in the place of all line ends. -/
def unifyLineEnds : List Char → List Char
  | [] => []
  | '\r' :: '\n' :: rest => '\n' :: unifyLineEnds rest
  | '\r' :: rest => '\n' :: unifyLineEnds rest
  | c :: rest => c :: unifyLineEnds rest

/-- The text of a source file. -/
def readSource (p : Path) : Work String := do
  let content ← Work.consulting (·.read p)
  match Utf8.decode? content with
  | some s => return String.ofList (unifyLineEnds s.toList)
  | none => throw (.content .notUtf8)

namespace Command

/-- The part of a log that the user sees. -/
def visible (c : Command) (log : Log) : List Notice :=
  (log.filter fun e => c.verbose || e.severity == .warning).map .event

/-- Put a result where it belongs. -/
def emit (c : Command) (input : Path) (text : String) : Work Unit :=
  if c.inPlace then Work.changing (·.write input (Utf8.encode text))
  else
    match c.output with
    | some p => Work.changing (·.deposit p (Utf8.encode text))
    | none => Work.print text

/-- Unfold one input. No result means that the input is no program. -/
def unfoldInput (parse : Bytes → Node) (c : Command) (input : Path) : Work (Option Unfolded) := do
  let source ← readSource input
  let (result, log) := unfold parse c.options (some input.text) source
  Work.notify (c.visible log)
  match result with
  | .ok u =>
    Work.notify (c.visible [.fileDone input.text u.report.total])
    if !c.check then c.emit input u.source
    return some u
  | .error (.malformed d line column) =>
    Work.notify [.refused input.text (.malformed d line column)]
    return none
  | .error e => throw (.content e)

/-- Unfold inputs one after the other. No result means that one of them is no program; those
behind it are left alone. -/
def unfoldInputs (parse : Bytes → Node) (c : Command) :
    List Path → Work (Option (List (Path × Unfolded)))
  | [] => return some []
  | input :: rest => do
    match ← c.unfoldInput parse input with
    | none => return none
    | some u =>
      match ← c.unfoldInputs parse rest with
      | none => return none
      | some us => return some ((input, u) :: us)

/-- The exit code if all went well. -/
def exitDone : Nat := 0
/-- The exit code of a check that finds something to unfold. -/
def exitPending : Nat := 1
/-- The exit code if arguments or sources are refused. -/
def exitRefused : Nat := 2

/-- What remains to be told when all inputs are unfolded. -/
def conclude (c : Command) (results : List (Path × Unfolded)) : Work Nat := do
  let reports := results.map (·.2.report)
  if let some p := c.report then
    Work.changing (·.deposit p (Utf8.encode (Report.json reports)))
  if c.check then
    let changed := results.filter (·.2.changed)
    changed.forM fun (input, _) => Work.print ("would rewrite " ++ input.text ++ "\n")
    return if changed.isEmpty then exitDone else exitPending
  else
    if c.inPlace || c.output.isSome then Work.print (Report.text reports ++ "\n")
    return exitDone

/-- Carry out a command; the result is the exit code. -/
def work (parse : Bytes → Node) (c : Command) : Work Nat := do
  match ← c.unfoldInputs parse c.inputs with
  | none => return exitRefused
  | some results => c.conclude results

/-- Carry out a command on a tree of files. -/
def run (parse : Bytes → Node) (c : Command) (folder : Folder) : Except Failure Nat × Session :=
  ((c.work parse).run { folder }).run

end Command
end CondUnfold
