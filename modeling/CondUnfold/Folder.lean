import CondUnfold.Bytes
import CondUnfold.Path

/-! A tree of files below a working folder, and what can go wrong with paths in it. -/

namespace CondUnfold

/-- Why a file cannot be read or written. -/
inductive FileError where
  /-- There is nothing under that path. -/
  | notFound
  /-- The path leads to a folder and not to a file. -/
  | isFolder
  /-- A name on the way belongs to a file. -/
  | notFolder
  /-- There is something under that path already. -/
  | alreadyThere
deriving DecidableEq, Repr

/-- Where a path leads: the names from the working folder on. -/
abbrev Location := List String

/-- What a name stands for. -/
inductive Entry where
  | file (content : Bytes)
  | folder
deriving DecidableEq, Repr

/-- The entries below the working folder. -/
structure Folder where
  entries : List (Location × Entry) := []
deriving DecidableEq, Repr

namespace Folder

/-- Is the place one that is always there: the working folder, one that contains it, or the
root? -/
def isGiven (l : Location) : Bool := l == ["/"] || l.all (· == "..")

/-- The entry at a place. -/
def find? (f : Folder) (l : Location) : Option Entry :=
  if isGiven l then some .folder else f.entries.lookup l

/-- Put an entry at a place, in the place of what was there. -/
def put (f : Folder) (l : Location) (e : Entry) : Folder where
  entries := (l, e) :: f.entries.filter (·.1 != l)

/-- The place that contains a place. -/
def above (l : Location) : Location :=
  if l == ["/"] then l
  else if l.all (· == "..") then l ++ [".."]
  else l.dropLast

/-- The place that a name leads to from a place. -/
def enter (l : Location) (name : String) : Location := if name == ".." then above l else l ++ [name]

/-- Follow names from a place. All places but the last have to be folders. -/
def follow (f : Folder) (l : Location) : List String → Except FileError Location
  | [] => .ok l
  | name :: rest =>
    match f.find? l with
    | none => .error .notFound
    | some (.file _) => .error .notFolder
    | some .folder => f.follow (enter l name) rest

/-- Where a path leads. -/
def locate (f : Folder) (p : Path) : Except FileError Location :=
  f.follow (if p.root == "" then [] else ["/"]) p.parts

/-- Does a path lead to a folder? -/
def isFolder (f : Folder) (p : Path) : Bool :=
  match f.locate p with
  | .ok l => f.find? l == some .folder
  | .error _ => false

/-- The content of a file. -/
def read (f : Folder) (p : Path) : Except FileError Bytes := do
  match f.find? (← f.locate p) with
  | none => .error .notFound
  | some .folder => .error .isFolder
  | some (.file content) => .ok content

/-- Write a file. The folder that is to contain it has to be there. -/
def write (f : Folder) (p : Path) (content : Bytes) : Except FileError Folder := do
  let l ← f.locate p
  match f.find? l with
  | some .folder => .error .isFolder
  | _ => .ok (f.put l (.file content))

/-- Make a new folder. -/
def make (f : Folder) (p : Path) : Except FileError Folder := do
  let l ← f.locate p
  match f.find? l with
  | some _ => .error .alreadyThere
  | none => .ok (f.put l .folder)

/-- Make a folder unless there is one. -/
def ensureOne (f : Folder) (p : Path) : Except FileError Folder :=
  match f.make p with
  | .ok f' => .ok f'
  | .error .notFound => .error .notFound
  | .error e => if f.isFolder p then .ok f else .error e

/-- Make a folder and those on the way to it unless they are there; `depth` bounds how many. -/
def ensureWithin : (depth : Nat) → Folder → Path → Except FileError Folder
  | 0, f, p => f.ensureOne p
  | depth + 1, f, p =>
    match f.ensureOne p with
    | .error .notFound =>
      if p.parts.isEmpty then .error .notFound
      else do
        let f' ← ensureWithin depth f p.parent
        f'.ensureOne p
    | result => result

/-- Make a folder and those on the way to it unless they are there. -/
def ensure (f : Folder) (p : Path) : Except FileError Folder := ensureWithin p.parts.length f p

/-- Write a file, and make the folders on the way to it. -/
def deposit (f : Folder) (p : Path) (content : Bytes) : Except FileError Folder := do
  let f' ← f.ensure p.parent
  f'.write p content

/-- The files, with their places. -/
def files (f : Folder) : List (Location × Bytes) :=
  f.entries.filterMap fun (l, e) =>
    match e with
    | .file content => some (l, content)
    | .folder => none

/-- The files that are new or have another content than before. -/
def changedSince (f before : Folder) : List (Location × Bytes) :=
  f.files.filter fun (l, content) => before.find? l != some (.file content)

end Folder
end CondUnfold
