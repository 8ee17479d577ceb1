import CondUnfold.CommandLine.Misuse
import CondUnfold.Text.CharClass

/-! What each argument of a command is, taken by itself: an option or a value. -/

namespace CondUnfold.CommandLine

/-- A value that is written together with its option. -/
structure Attached where
  /-- Does an equals sign stand before the value? -/
  afterEquals : Bool
  value : List Char
deriving DecidableEq, Repr

/-- An option as it is written. -/
structure Use where
  opt : Opt
  spelling : String
  attached : Option Attached := none
deriving DecidableEq, Repr

/-- What an argument is. -/
inductive Word where
  | value (text : String)
  /-- The mark behind which there are no options. -/
  | endMark
  | option (use : Use)
  /-- What looks like an option and is none. -/
  | unknown (text : String)
deriving DecidableEq, Repr

/-- The end mark as it is written. -/
def endMarkText : String := "--"

/-- The text of a plain word. -/
def Word.plainText? : Word → Option String
  | .value s => some s
  | .endMark => some endMarkText
  | _ => none

/-- A text before its first equals sign, and what stands behind the sign if there is one. -/
def cutEquals (s : String) : String × Option Attached :=
  let cs := s.toList
  let before := cs.takeWhile (· != '=')
  match cs.drop before.length with
  | [] => (s, none)
  | _ :: value => (String.ofList before, some ⟨true, value⟩)

/-- Does the text begin with the other one? -/
def beginsWith (s beginning : String) : Bool := beginning.toList.isPrefixOf s.toList

/-- The options that a text may abbreviate, or that it holds in a cluster of short options. -/
def candidates (s : String) : List Use :=
  if beginsWith s "--" then
    let (beginning, attached) := cutEquals s
    (Opt.table.filter fun (spelling, _) => beginsWith spelling beginning).map
      fun (spelling, o) => ⟨o, spelling, attached⟩
  else
    let short := String.ofList (s.toList.take 2)
    Opt.table.filterMap fun (spelling, o) =>
      if spelling == short then some ⟨o, spelling, some ⟨false, s.toList.drop 2⟩⟩
      else if beginsWith spelling s then some ⟨o, spelling, none⟩
      else none

/-- Is the text all digits, of any script, and not empty? -/
def isDecimal (cs : List Char) : Bool :=
  !cs.isEmpty && cs.all fun c => (Text.decimalValue? c).isSome

/-- Does the text look like a negative number? A line break at its end does not matter. -/
def isNegativeNumber (s : String) : Bool :=
  let cs := if s.toList.getLast? == some '\n' then s.toList.dropLast else s.toList
  match cs with
  | '-' :: rest =>
    let whole := rest.takeWhile fun c => (Text.decimalValue? c).isSome
    isDecimal rest ||
      match rest.drop whole.length with
      | '.' :: fraction => isDecimal fraction
      | _ => false
  | _ => false

/-- What an argument before the end mark is. -/
def Word.ofString (s : String) : Except Misuse Word :=
  if !beginsWith s "-" then .ok (.value s)
  else
    match Opt.find? s with
    | some o => .ok (.option ⟨o, s, none⟩)
    | none =>
      let (spelling, attached) := cutEquals s
      if s.length == 1 then .ok (.value s)
      else
        match attached, Opt.find? spelling with
        | some a, some o => .ok (.option ⟨o, spelling, some a⟩)
        | _, _ =>
          match candidates s with
          | [use] => .ok (.option use)
          | [] =>
            if isNegativeNumber s || s.toList.contains ' ' then .ok (.value s)
            else .ok (.unknown s)
          | uses => .error (.ambiguous s (uses.map (·.spelling)))

/-- What the arguments are. -/
def Word.ofStrings : List String → Except Misuse (List Word)
  | [] => .ok []
  | s :: rest =>
    if s == endMarkText then .ok (.endMark :: rest.map .value)
    else do
      let w ← Word.ofString s
      let ws ← Word.ofStrings rest
      return w :: ws

end CondUnfold.CommandLine
