import CondUnfold.Syntax.Node
import CondUnfold.Syntax.Semicolon

/-! Reading a source from left to right. A reader either succeeds and moves the cursor, or fails
at a position. -/

namespace CondUnfold

/-- The characters that are still to be read, and the number of bytes before them. -/
structure Cursor where
  rest : List Char
  pos : Nat
  /-- The length of the whole text, which bounds what any loop over the rest may take. -/
  bound : Nat
deriving Repr

/-- The cursor at the beginning of a text. -/
def Cursor.ofList (cs : List Char) : Cursor := ⟨cs, 0, cs.length⟩

/-- The cursor behind the next `n` characters. -/
def Cursor.advance (c : Cursor) (n : Nat) : Cursor where
  rest := c.rest.drop n
  pos := (c.rest.take n).foldl (fun pos d => pos + d.utf8Size) c.pos
  bound := c.bound

/-- Readers; a failure tells the position. -/
abbrev Parse := StateT Cursor (Except Nat)

/-- How a statement may end at some point without a semicolon. -/
inductive Semi where
  /-- Not at all. -/
  | never
  /-- Behind an expression, which an operator might continue. -/
  | afterExpr
  /-- Behind a token that no operator can follow. -/
  | afterWord
deriving DecidableEq, Repr

/-- What comes behind a token. -/
inductive Gap where
  /-- The statement ends here. -/
  | stop (c : Cursor)
  /-- The next token stands here. `plain` says that the white space right before it is of the kind
  that a question mark accepts. -/
  | token (c : Cursor) (plain : Bool)

/-- Pass over white space and comments. Behind each comment the statement may end anew. -/
def Gap.find (semi : Semi) : (fuel : Nat) → Cursor → Gap
  | 0, c => .token c true
  | fuel + 1, c =>
    if semi ≠ .never && Semicolon.isInsertable c.bound (semi == .afterWord) c.rest then .stop c
    else
      let blanks := c.rest.takeWhile Lexeme.isBlank
      let c' := c.advance blanks.length
      let n := Lexeme.comment c'.rest
      if n == 0 then .token c' (blanks.all Semicolon.isBlank) else Gap.find semi fuel (c'.advance n)

namespace Parse

/-- Fail where the cursor stands. -/
def fail : Parse α := do throw (← get).pos

/-- The first reader that succeeds. If none does, the position that is further on counts. -/
def either (p q : Parse α) : Parse α := fun c =>
  match p c with
  | .ok r => .ok r
  | .error i =>
    match q c with
    | .ok r => .ok r
    | .error j => .error (max i j)

/-- The result of a reader without moving the cursor. -/
def ahead (p : Parse α) : Parse α := do
  let c ← get
  let a ← p
  set c
  return a

/-- Where the cursor stands. -/
def pos : Parse Nat := return (← get).pos

/-- What comes behind the token before the cursor. -/
def gap (semi : Semi) : Parse Gap := do
  let c ← get
  return .find semi (c.bound + 1) c

/-- Move to the next token. -/
def toToken : Parse Unit := do
  match ← gap .never with
  | .stop c | .token c _ => set c

/-- Move over `n` characters. -/
def advance (n : Nat) : Parse Unit := modify (·.advance n)

/-- The symbol at the cursor. -/
def symbolHere : Parse String := return Lexeme.symbol (← get).rest

/-- The word at the cursor, empty if there is none. -/
def wordHere : Parse String := do
  let c ← get
  return String.ofList (c.rest.take (Lexeme.identifier c.rest))

/-- The next symbol, unless the statement ends before it. -/
def nextSymbol (semi : Semi) : Parse String := do
  match ← gap semi with
  | .stop _ => return ""
  | .token c _ => return Lexeme.symbol c.rest

/-- The next word, empty if there is none. -/
def nextWord : Parse String := ahead do
  toToken
  wordHere

/-- Read a symbol. -/
def symbol (s : String) : Parse Unit := do
  toToken
  if (← symbolHere) == s then advance s.length else fail

/-- Read a symbol if it comes next. -/
def accept (s : String) : Parse Bool := do
  if (← nextSymbol .never) == s then
    symbol s
    return true
  return false

/-- Read a word. -/
def keyword (w : String) : Parse Unit := do
  toToken
  if (← wordHere) == w then advance w.length else fail

/-- Read the end of a statement: a semicolon, or nothing where it may be left out. -/
def semicolon (semi : Semi) : Parse Unit := do
  match ← gap semi with
  | .stop c => set c
  | .token c _ =>
    set c
    if (← symbolHere) == ";" then advance 1 else fail

/-- Repeat a reader until it gives nothing. -/
def repeated (p : Parse (Option α)) : (fuel : Nat) → Parse (List α)
  | 0 => fail
  | fuel + 1 => do
    match ← p with
    | none => return []
    | some a =>
      let rest ← repeated p fuel
      return a :: rest

/-- Repeat a reader that moves on each time until it gives nothing. -/
def many (p : Parse (Option α)) : Parse (List α) := do
  repeated p ((← get).bound + 1)

/-- The node of a kind from `start` to the cursor. -/
def node (kind : String) (start : Nat) (children : List Node := []) : Parse Node := do
  return { kind, start, stop := ← pos, children }

/-- Read a lexeme of `n` characters as a node. -/
def leaf (kind : String) (n : Nat) : Parse Node := do
  if n == 0 then fail
  let start ← pos
  advance n
  node kind start

/-- Read a symbol or word as an operator. -/
def operator (op : String) : Parse Node := do
  let n ← leaf op op.length
  return { n with named := false, role := some "operator" }

end Parse

/-- The node in the given role. -/
def Node.withRole (n : Node) (role : String) : Node := { n with role := some role }

end CondUnfold
