import CondUnfold.CommandLine.Run
import CondUnfold.Syntax.Parse

/-! The command line: the files that a command names are loaded, the command is carried out on
them, and what it leaves behind is written. -/

namespace CondUnfold.CommandLine

/-- How the command is used. -/
def usage : String :=
  "usage: unfold-conditionals [-h] [-o OUTPUT] [--in-place] [--report REPORT]\n" ++
  "                           [--switch-threshold SWITCH_THRESHOLD] [--no-switch]\n" ++
  "                           [--permissive-switch-cases] [--indent INDENT]\n" ++
  "                           [--no-semicolons] [--max-passes MAX_PASSES]\n" ++
  "                           [--check] [-v]\n" ++
  "                           inputs [inputs ...]"

/-- The paths on the way to a path, with the path itself. -/
def pathsOnTheWay (p : Path) : List Path :=
  (List.range (p.parts.length + 1)).map fun n => { p with parts := p.parts.take n }

/-- The paths that a command may read or write. -/
def pathsOf (c : Command) : List Path := c.inputs ++ c.output.toList ++ c.report.toList

/-- The text of a place. -/
def placeText (l : Location) : String :=
  match l with
  | "/" :: rest => "/" ++ "/".intercalate rest
  | _ => "/".intercalate l

/-- Add what is stored under a path to a tree of files. What is there and cannot be read as a
file is a folder. -/
def loadPath (f : Folder) (p : Path) : IO Folder := do
  match f.locate p with
  | .error _ => return f
  | .ok l =>
    if (f.find? l).isSome then return f
    match ← (IO.FS.readBinFile p.text).toBaseIO with
    | .ok content => return f.put l (.file content.toList)
    | .error (.noFileOrDirectory ..) => return f
    | .error _ => return f.put l .folder

/-- The files that a command names. -/
def load (c : Command) : IO Folder := do
  let mut f : Folder := {}
  for p in pathsOf c do
    for q in pathsOnTheWay p do
      f ← loadPath f q
  return f

/-- Write what a command has left behind. -/
def store (before after : Folder) : IO Unit := do
  for (l, e) in after.entries.reverse do
    if e == .folder && (before.find? l).isNone then IO.FS.createDir (placeText l)
  for (l, content) in after.changedSince before do
    IO.FS.writeBinFile (placeText l) ⟨content.toArray⟩

/-- The wording of a failure. -/
def failureText : Failure → String
  | .file .notFound => "no such file or folder"
  | .file .isFolder => "this is a folder"
  | .file .notFolder => "this is not a folder"
  | .file .alreadyThere => "there is such a file already"
  | .content e => e.message

/-- Carry out a command on the files on disk. -/
def execute (c : Command) : IO UInt32 := do
  let before ← load c
  let (result, session) := c.run parseSource before
  store before session.folder
  (← IO.getStdout).putStr session.printed
  for n in session.notices do
    IO.eprintln n.text
  match result with
  | .ok code => return code.toUInt32
  | .error e =>
    IO.eprintln (failureText e)
    return 1

end CondUnfold.CommandLine

open CondUnfold CommandLine in
/-- Unfold the conditionals in the files that the arguments name. -/
def main (args : List String) : IO UInt32 := do
  match readArguments args with
  | .ok c => execute c
  | .error .help =>
    IO.println usage
    return 0
  | .error (.misuse m) =>
    IO.eprintln usage
    IO.eprintln m.line
    return Command.exitRefused.toUInt32
