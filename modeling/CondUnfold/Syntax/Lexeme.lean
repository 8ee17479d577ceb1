import CondUnfold.Text.Word

/-! The lexemes of JavaScript: how many characters at the head of a text belong to an identifier, a
number, a string and so on. A length of zero means that there is none. -/

namespace CondUnfold.Lexeme

/-- White space between tokens. -/
def blankRanges : List (Nat × Nat) :=
  [(0x9, 0xD), (0x20, 0x20), (0x85, 0x85), (0xA0, 0xA0), (0x1680, 0x1680), (0x2000, 0x200B),
   (0x2028, 0x2029), (0x202F, 0x202F), (0x205F, 0x2060), (0x3000, 0x3000), (0xFEFF, 0xFEFF)]

/-- May the character stand between tokens? -/
def isBlank (c : Char) : Bool := Text.inRanges blankRanges c

/-- Does the character end a line comment? -/
def endsLine (c : Char) : Bool := c == '\n' || c == '\r' || c == '\u2028' || c == '\u2029'

def isHex (c : Char) : Bool := c.isDigit || ('a' ≤ c && c ≤ 'f') || ('A' ≤ c && c ≤ 'F')
def isOctal (c : Char) : Bool := '0' ≤ c && c ≤ '7'
def isBinary (c : Char) : Bool := c == '0' || c == '1'

/-- The length of the longest stretch with the property. -/
def span (p : Char → Bool) (cs : List Char) : Nat := (cs.takeWhile p).length

/-! ### Comments -/

/-- The length of the rest of a block comment, up to and with its end. -/
def blockCommentRest : List Char → Nat
  | [] => 0
  | [_] => 0
  | c :: d :: rest =>
    if c == '*' && d == '/' then 2
    else
      let n := blockCommentRest (d :: rest)
      if n == 0 then 0 else n + 1

/-- The length of a comment. -/
def comment : List Char → Nat
  | '/' :: '/' :: rest => 2 + span (!endsLine ·) rest
  | '/' :: '*' :: rest =>
    let n := blockCommentRest rest
    if n == 0 then 0 else n + 2
  | _ => 0

/-! ### Identifiers -/

/-- Characters that no identifier contains as they are, apart from white space and controls. -/
def punctuation : List Char := ":;`\"'@#.,|^&<=>+-*/\\%?!~()[]\x7b\x7d".toList

/-- May an identifier contain the character? -/
def isIdentifierChar (c : Char) : Bool :=
  0x20 ≤ c.toNat && !isBlank c && !punctuation.contains c

/-- The length of a character escape `\uXXXX` or `\u{X…}`. -/
def unicodeEscape : List Char → Nat
  | '\\' :: 'u' :: '\x7b' :: rest =>
    let n := span isHex rest
    if n ≠ 0 && (rest.drop n).head? == some '\x7d' then n + 4 else 0
  | '\\' :: 'u' :: rest => if span isHex (rest.take 4) == 4 then 6 else 0
  | _ => 0

/-- The length of the character or escape that continues an identifier. -/
def identifierPart (cs : List Char) : Nat :=
  match cs with
  | [] => 0
  | c :: _ => if isIdentifierChar c then 1 else unicodeEscape cs

/-- The length of the rest of an identifier; `fuel` bounds the number of its parts. -/
def identifierRest : (fuel : Nat) → List Char → Nat
  | 0, _ => 0
  | fuel + 1, cs =>
    let n := identifierPart cs
    if n == 0 then 0 else n + identifierRest fuel (cs.drop n)

/-- May the character stand in an identifier, as it is or as a part of an escape? -/
def isIdentifierSign (c : Char) : Bool :=
  isIdentifierChar c || c == '\\' || c == '\x7b' || c == '\x7d'

/-- The length of an identifier or keyword. -/
def identifier (cs : List Char) : Nat :=
  match cs with
  | [] => 0
  | c :: _ => if c.isDigit then 0 else identifierRest (span isIdentifierSign cs) cs

/-- The length of a private name. -/
def privateName : List Char → Nat
  | '#' :: rest =>
    let n := identifier rest
    if n == 0 then 0 else n + 1
  | _ => 0

/-- Words that are never identifiers. -/
def isReserved (w : String) : Bool :=
  ["break", "case", "catch", "class", "const", "continue", "debugger", "default", "delete", "do",
    "else", "export", "extends", "false", "finally", "for", "function", "if", "import", "in",
    "instanceof", "new", "null", "return", "super", "switch", "this", "throw", "true", "try",
    "typeof", "var", "void", "while", "with"].contains w

/-! ### Numbers -/

/-- The length of further digits, where one underscore may stand between two digits. -/
def moreDigits (p : Char → Bool) : List Char → Nat
  | [] => 0
  | [c] => if p c then 1 else 0
  | c :: d :: rest =>
    if p c then 1 + moreDigits p (d :: rest)
    else if c == '_' && p d then 1 + moreDigits p (d :: rest)
    else 0

/-- The length of a run of digits. -/
def digits (p : Char → Bool) : List Char → Nat
  | [] => 0
  | c :: rest => if p c then 1 + moreDigits p rest else 0

/-- The length of an exponent. -/
def exponent : List Char → Nat
  | e :: rest =>
    if e == 'e' || e == 'E' then
      let sign := if rest.head? == some '+' || rest.head? == some '-' then 1 else 0
      let n := digits Char.isDigit (rest.drop sign)
      if n == 0 then 0 else 1 + sign + n
    else 0
  | [] => 0

/-- The length of the integer part before a point or an exponent. -/
def integerPart (cs : List Char) : Nat :=
  let nonzero (c : Char) : Bool := '1' ≤ c && c ≤ '9'
  match cs with
  | [] => 0
  | c :: rest =>
    if nonzero c then 1 + moreDigits Char.isDigit rest
    else if c == '0' then
      match rest with
      | d :: rest' => if nonzero d then 2 + moreDigits Char.isDigit rest' else 1
      | [] => 1
    else 0

/-- The length of a fraction, from its point on. -/
def fraction (cs : List Char) : Nat :=
  match cs with
  | '.' :: rest =>
    let n := digits Char.isDigit rest
    1 + n + exponent (rest.drop n)
  | _ => 0

/-- The length of a number in another base, from the letter of the base on. -/
def based (rest : List Char) : Nat :=
  match rest with
  | b :: ds =>
    let n :=
      if b == 'x' || b == 'X' then digits isHex ds
      else if b == 'o' || b == 'O' then digits isOctal ds
      else if b == 'b' || b == 'B' then digits isBinary ds
      else 0
    if n == 0 then 0 else 1 + n
  | [] => 0

/-- The length with the suffix of a big integer, if there is one. -/
def withBigSuffix (n : Nat) (cs : List Char) : Nat :=
  if n ≠ 0 && (cs.drop n).head? == some 'n' then n + 1 else n

/-- The length of a number. Of several readings the longest counts. -/
def number (cs : List Char) : Nat :=
  let whole := integerPart cs
  let inBase :=
    match cs with
    | '0' :: rest =>
      let n := based rest
      if n == 0 then 0 else withBigSuffix (n + 1) cs
    | _ => 0
  let pointed :=
    if whole ≠ 0 && (cs.drop whole).head? == some '.' then whole + fraction (cs.drop whole) else 0
  let bare :=
    match cs with
    | '.' :: rest => if digits Char.isDigit rest == 0 then 0 else fraction cs
    | _ => 0
  let scaled :=
    if whole == 0 || exponent (cs.drop whole) == 0 then 0 else whole + exponent (cs.drop whole)
  let plain := withBigSuffix (digits Char.isDigit cs) cs
  [inBase, pointed, bare, scaled, plain].foldl max 0

/-! ### Strings, templates and regular expressions -/

/-- The length of an escape inside a string or a template. -/
def escape (cs : List Char) : Nat :=
  match cs with
  | '\\' :: c :: rest =>
    if c == 'x' then if span isHex (rest.take 2) == 2 then 4 else 0
    else if c == 'u' then unicodeEscape cs
    else if isOctal c then 2 + span isOctal (rest.take 2)
    else if c == '\r' && rest.head?.any (fun d => d == '\n' || d == '\u2028' || d == '\u2029') then 3
    else 2
  | _ => 0

/-- The length of the rest of a string, up to and with its closing quote. -/
def stringRest (quote : Char) : (fuel : Nat) → List Char → Nat
  | 0, _ => 0
  | fuel + 1, cs =>
    match cs with
    | [] => 0
    | c :: rest =>
      if c == quote then 1
      else if c == '\n' || c == '\r' then 0
      else
        let n := if c == '\\' then escape cs else 1
        let m := if n == 0 then 0 else stringRest quote fuel (if n == 1 then rest else cs.drop n)
        if m == 0 then 0 else n + m

/-- The length of a string literal. -/
def string (cs : List Char) : Nat :=
  match cs with
  | c :: rest =>
    if c == '"' || c == '\'' then
      let n := stringRest c cs.length rest
      if n == 0 then 0 else n + 1
    else 0
  | [] => 0

/-- The length of the rest of a regular expression, up to and with the closing slash; inside a
bracketed class a slash does not close it. -/
def regexRest (inClass : Bool) : List Char → Nat
  | [] => 0
  | [c] => if c == '/' && !inClass then 1 else 0
  | c :: d :: rest =>
    if c == '\n' then 0
    else if c == '/' && !inClass then 1
    else if c == '\\' then
      if d == '\n' then 0
      else
        let n := regexRest inClass rest
        if n == 0 then 0 else n + 2
    else
      let n := regexRest ((inClass && c != ']') || (!inClass && c == '[')) (d :: rest)
      if n == 0 then 0 else n + 1

/-- The length of a regular expression with its flags. -/
def regex (cs : List Char) : Nat :=
  match cs with
  | '/' :: rest =>
    let n := regexRest false rest
    if n ≤ 1 then 0 else 1 + n + span (fun c => 'a' ≤ c && c ≤ 'z') (rest.drop n)
  | _ => 0

/-! ### Symbols -/

/-- Symbols of more than one character, longer ones before their beginnings. -/
def longSymbols : List String :=
  [">>>=", "===", "!==", "**=", "<<=", ">>=", ">>>", "&&=", "||=", "??=", "...", "=>", "==", "!=",
    "<=", ">=", "&&", "||", "??", "?.", "++", "--", "+=", "-=", "*=", "/=", "%=", "&=", "|=", "^=",
    "<<", ">>", "**"]

/-- The longest symbol at the head of a text; empty if there is none. -/
def symbol (cs : List Char) : String :=
  match cs with
  | [] => ""
  | c :: _ =>
    if punctuation.contains c then
      (longSymbols.find? fun s => s.toList.isPrefixOf cs).getD c.toString
    else ""

end CondUnfold.Lexeme
