import CondUnfold.Expr.Text
import CondUnfold.Stmt
import CondUnfold.Text.CharClass
import CondUnfold.Text.Wide
import CondUnfold.Text.Word

/-! Writing statements as lines. A line holds the text of an expression as it is, so a line may
contain line breaks of its own. Its indentation need not be a text. -/

namespace CondUnfold

/-- How statements are laid out. -/
structure Layout where
  /-- One step of indentation. -/
  indent : WideText := .ofString "  "
  /-- Do simple statements end in a semicolon? -/
  semicolons : Bool := true
deriving DecidableEq, Repr

/-- Lines written so far, and the level of indentation of the next one. -/
structure Writer where
  layout : Layout := {}
  level : Nat := 0
  lines : List WideText := []
deriving DecidableEq, Repr

/-- `n` copies of a text. -/
def copies (n : Nat) (t : WideText) : WideText := (List.replicate n t).flatten

/-- Lines as one text. -/
def joinLines (lines : List WideText) : WideText := (WideText.ofString "\n").intercalate lines

namespace Writer

/-- Add a line at the present level of indentation. -/
def line (w : Writer) (text : String) : Writer :=
  { w with lines := w.lines ++ [copies w.level w.layout.indent ++ .ofString text] }

/-- Add a simple statement, with its semicolon if the layout has them. -/
def statement (w : Writer) (text : String) : Writer :=
  w.line (if w.layout.semicolons then text ++ ";" else text)

/-- Go one level in. -/
def indent (w : Writer) : Writer := { w with level := w.level + 1 }

/-- Go one level out, if there is one. -/
def dedent (w : Writer) : Except Error Writer :=
  if w.level = 0 then .error .indentUnderflow else .ok { w with level := w.level - 1 }

/-- All lines as one text. -/
def text (w : Writer) : WideText := joinLines w.lines

end Writer

/-- Writing: a step changes the writer, also when it fails. -/
abbrev Writing := ExceptT Error (StateM Writer)

namespace Writing

/-- Write a line. -/
def line (text : String) : Writing Unit := modify (·.line text)

/-- Write a simple statement. -/
def statement (text : String) : Writing Unit := modify (·.statement text)

/-- Carry out `body` one level in. The level is taken back whether or not `body` succeeds. -/
def indented (body : Writing Unit) : Writing Unit := fun w =>
  let (outcome, w') := body.run w.indent
  match w'.dedent with
  | .ok w'' => (outcome, w'')
  | .error e => (.error e, w')

/-- The text of an expression that has to be present. -/
def textOf : Option Expr → Writing String
  | none => throw .noExpression
  | some e => liftM e.render

end Writing

/-- Does the text begin with `word`, and which text follows? -/
def afterWord? (word text : List Char) : Option (List Char) :=
  if word.isPrefixOf text then some (text.drop word.length) else none

/-- Does the text begin with `word` as a whole word? -/
def beginsWithWord (word text : List Char) : Bool := (afterWord? word text).any Text.endsWord

/-- Would a statement that begins with this text be read as a block or a declaration? That is so
behind a brace, the words `function`, `async function` and `class`, and `let` before a bracket. -/
def isAmbiguousStart (text : List Char) : Bool :=
  text.head? == some '\x7b' ||
  beginsWithWord "function".toList text ||
  ((afterWord? "async".toList text).any fun rest =>
    (rest.head?.any Text.isBlank) &&
      beginsWithWord "function".toList (rest.dropWhile Text.isBlank)) ||
  beginsWithWord "class".toList text ||
  ((afterWord? "let".toList text).any fun rest =>
    (rest.dropWhile Text.isBlank).head? == some '[')

/-- The text of an expression that stands as a statement. -/
def actionText (text : String) : String :=
  if isAmbiguousStart text.toList then "(" ++ text ++ ")" else text

/-! The lines that begin, divide and end blocks. -/

/-- The line `{`. -/
def blockHead : String := "\x7b"

/-- The line `if (test) {`. -/
def ifHead (test : String) : String := "if (" ++ test ++ ") \x7b"

/-- The line `} else if (test) {`. -/
def elseIfHead (test : String) : String := "\x7d else if (" ++ test ++ ") \x7b"

/-- The line `} else {`. -/
def elseHead : String := "\x7d else \x7b"

/-- The line `switch (subject) {`. -/
def switchHead (subject : String) : String := "switch (" ++ subject ++ ") \x7b"

/-- The line `}`. -/
def blockEnd : String := "\x7d"

/-- How a statement is written. -/
inductive Stmt.Form where
  /-- In full. -/
  | whole
  /-- Inside braces that are already there, so that a block loses its own. -/
  | braced
  /-- An `if` whose first line is already there. -/
  | tail
deriving DecidableEq, Repr

namespace Stmt

mutual

/-- Write a statement in the given form. -/
def emitAs (form : Form) : Stmt → Writing Unit
  | .action e => do
    let text ← Writing.textOf e
    Writing.statement (actionText text)
  | .ret none => Writing.statement "return"
  | .ret (some e) => do
    let text ← Writing.textOf (some e)
    Writing.statement ("return " ++ text)
  | .brk => Writing.statement "break"
  | .block body =>
    if form = .braced then emitAll body
    else do
      Writing.line blockHead
      Writing.indented (emitAll body)
      Writing.line blockEnd
  | .ifThen test body => do
    if form ≠ .tail then
      let text ← Writing.textOf test
      Writing.line (ifHead text)
    Writing.indented (body.emitAs .braced)
    Writing.line blockEnd
  | .ifElse test body other => do
    if form ≠ .tail then
      let text ← Writing.textOf test
      Writing.line (ifHead text)
    Writing.indented (body.emitAs .braced)
    match other.test? with
    | some test' =>
      let text ← Writing.textOf test'
      Writing.line (elseIfHead text)
      other.emitAs .tail
    | none =>
      Writing.line elseHead
      Writing.indented (other.emitAs .braced)
      Writing.line blockEnd
  | .switch subject arms => do
    let text ← Writing.textOf (some subject)
    Writing.line (switchHead text)
    Writing.indented (emitArms arms)
    Writing.line blockEnd
  | .arm ⟨label, body⟩ => do
    emitLabel label
    Writing.indented (emitAll body)

/-- Write statements one after the other. -/
def emitAll : List Stmt → Writing Unit
  | [] => pure ()
  | s :: rest => do
    s.emitAs .whole
    emitAll rest

/-- Write the arms of a `switch`. -/
def emitArms : List (Arm Stmt) → Writing Unit
  | [] => pure ()
  | ⟨label, body⟩ :: rest => do
    emitLabel label
    Writing.indented (emitAll body)
    emitArms rest

/-- Write the label of an arm. -/
def emitLabel : Option Expr → Writing Unit
  | none => Writing.line "default:"
  | some e => do
    let text ← Writing.textOf (some e)
    Writing.line ("case " ++ text ++ ":")

end

/-- Write a statement. -/
def emit (s : Stmt) : Writing Unit := s.emitAs .whole

end Stmt

/-- What may be asked to be written in a list of statements. -/
inductive Item where
  | stmt (s : Stmt)
  /-- An expression, which is not a statement. -/
  | expr (e : Expr)
deriving Repr

namespace Item

/-- Write an item, if it is a statement. -/
def emit : Item → Writing Unit
  | .stmt s => s.emit
  | .expr e => throw (.notAStatement e.noun)

/-- The lines of items from an empty writer. -/
def renderLines (layout : Layout) (items : List Item) : Except Error (List WideText) :=
  match (items.forM emit).run { layout } with
  | (.ok (), w) => .ok w.lines
  | (.error e, _) => .error e

end Item

/-- The lines of statements from an empty writer. -/
def Stmt.renderLines (layout : Layout) (body : List Stmt) : Except Error (List WideText) :=
  Item.renderLines layout (body.map .stmt)

/-- Join lines where a statement used to stand: the first line goes where the statement began, and
each later line that is not empty gets `margin` in front. Line breaks inside a line stay as they
are. -/
def indentFragment (lines : List WideText) (margin : WideText) : WideText :=
  match lines with
  | [] => []
  | first :: rest => joinLines (first :: rest.map fun l => if l.isEmpty then l else margin ++ l)

end CondUnfold
