/-! Paths of files. -/

namespace CondUnfold

/-- A path: what stands for the root, if it begins there, and the names on the way. -/
structure Path where
  root : String
  parts : List String
deriving DecidableEq, Repr

namespace Path

/-- The parts of a text between slashes. -/
def splitSlash : List Char → List (List Char)
  | [] => [[]]
  | c :: cs =>
    if c == '/' then [] :: splitSlash cs
    else
      match splitSlash cs with
      | [] => [[c]]
      | p :: ps => (c :: p) :: ps

/-- What stands for the root. Two slashes at the beginning differ from one and from three. -/
def rootOf : List Char → String
  | '/' :: '/' :: '/' :: _ => "/"
  | '/' :: '/' :: _ => "//"
  | '/' :: _ => "/"
  | _ => ""

/-- The path that a text denotes. Empty names and single dots are left out. -/
def ofString (s : String) : Path where
  root := rootOf s.toList
  parts := ((splitSlash s.toList).map String.ofList).filter fun p => p != "" && p != "."

/-- The text of a path. -/
def text (p : Path) : String :=
  if p.root == "" && p.parts.isEmpty then "." else p.root ++ "/".intercalate p.parts

/-- The path without its last name. -/
def parent (p : Path) : Path := { p with parts := p.parts.dropLast }

end Path
end CondUnfold
