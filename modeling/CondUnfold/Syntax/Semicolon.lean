import CondUnfold.Syntax.Lexeme

/-! Automatic semicolons. Whether a statement ends without a semicolon is decided by what lies
between its last token and the next one, and by the first characters of the latter. -/

namespace CondUnfold.Semicolon

/-- White space that the decision passes over. -/
def blankRanges : List (Nat × Nat) :=
  [(0x9, 0xD), (0x20, 0x20), (0x1680, 0x1680), (0x2000, 0x2006), (0x2008, 0x200A),
   (0x2028, 0x2029), (0x205F, 0x205F), (0x3000, 0x3000)]

/-- Is the character passed over? -/
def isBlank (c : Char) : Bool := Text.inRanges blankRanges c

/-- Is the character a line break? -/
def isBreak (c : Char) : Bool := c == '\n' || c == '\u2028' || c == '\u2029'

/-- What passing over comments meets. -/
inductive Passage where
  /-- Something that is neither blank nor a comment, or the end. -/
  | through
  /-- The end of a block comment on one line, where the passage stops. -/
  | sameLine
  /-- A slash that begins no comment. -/
  | slash
deriving DecidableEq, Repr

/-- The text behind a block comment, and whether the comment has a line break. A comment without
an end goes to the end of the text. -/
def passBlock (broken : Bool) : List Char → Bool × List Char
  | [] => (broken, [])
  | [c] => (broken || isBreak c, [])
  | c :: d :: rest =>
    if c == '*' && d == '/' then (broken, rest) else passBlock (broken || isBreak c) (d :: rest)

/-- Has the block comment an end? -/
def hasEnd (cs : List Char) : Bool := Lexeme.blockCommentRest cs ≠ 0

/-- Pass over blanks and comments. Unless `all` comments are passed, stop behind a block comment
that is not followed by a slash at once; it counts as a passage if it has a line break. -/
def pass (all : Bool) : (fuel : Nat) → (broken : Bool) → List Char → Passage × List Char
  | 0, _, cs => (.through, cs)
  | fuel + 1, broken, cs =>
    match cs.dropWhile isBlank with
    | '/' :: '/' :: rest => pass all fuel broken (rest.dropWhile (!isBreak ·))
    | '/' :: '*' :: rest =>
      let (broken', rest') := passBlock broken rest
      if hasEnd rest && rest'.head? != some '/' && !all then
        (if broken' then .through else .sameLine, rest')
      else pass all fuel broken' rest'
    | '/' :: rest => (.slash, rest)
    | rest => (.through, rest)

/-- Does a text that begins a new line begin a new statement? A word that only begins with `in` or
`instanceof` does. -/
def beginsStatement (cs : List Char) : Bool :=
  let isLetter (c : Char) : Bool := c.isAlpha || (0x80 ≤ c.toNat && Text.isWord c)
  match cs with
  | [] => true
  | '.' :: rest => rest.head?.any Char.isDigit
  | '+' :: rest => rest.head? == some '+'
  | '-' :: rest => rest.head? == some '-'
  | '!' :: rest => rest.head? != some '='
  | 'i' :: 'n' :: rest =>
    if rest.head?.any isLetter then
      !("stanceof".toList.isPrefixOf rest) || (rest.drop 8).head?.any isLetter
    else false
  | c :: _ => !("`,:;*%><=[(?^|&/".toList.contains c)

/-- Pass over a comment with which the text begins: the text to go on with, or the decision if
the comment brings it about. `afterWord` says that no operator could follow; then a comment with a
line break ends the statement unless a comma or an equals sign follows. -/
def passComment (afterWord : Bool) (fuel : Nat) (cs : List Char) : Except Bool (List Char) :=
  if cs.head? == some '/' then
    match pass false fuel false cs with
    | (.slash, _) => .error false
    | (.through, rest) =>
      if afterWord && rest.head? != some ',' && rest.head? != some '=' then .error true
      else .ok rest
    | (.sameLine, rest) => .ok rest
  else .ok cs

/-- May a statement end before the text? -/
def insertable (afterWord : Bool) : (fuel : Nat) → List Char → Bool
  | 0, _ => false
  | fuel + 1, cs =>
    if cs.isEmpty then true
    else
      match passComment afterWord (fuel + 1) cs with
      | .error decision => decision
      | .ok [] => false
      | .ok (c :: rest) =>
        if c == '\x7d' then true
        else if isBreak c then
          match pass true (fuel + 1) false rest with
          | (.slash, _) => false
          | (_, rest') => beginsStatement rest'
        else if isBlank c then insertable afterWord fuel rest
        else false

/-- May a statement end before the text, which begins right behind its last token? The text is no
longer than `bound`. -/
def isInsertable (bound : Nat) (afterWord : Bool) (cs : List Char) : Bool :=
  insertable afterWord (bound + 1) cs

end CondUnfold.Semicolon
