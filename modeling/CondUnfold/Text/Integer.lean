import CondUnfold.Text.CharClass

/-! Integers in decimal notation, with the digits of any script. -/

namespace CondUnfold.Text

/-- The digits of a numeral. One underscore may stand between two digits. -/
def digitValues? : List Char → Option (List Nat)
  | [] => some []
  | [c] => (decimalValue? c).map ([·])
  | c :: '_' :: rest => do
    let d ← decimalValue? c
    if rest.isEmpty then none
    let ds ← digitValues? rest
    return d :: ds
  | c :: d :: rest => do
    let v ← decimalValue? c
    let ds ← digitValues? (d :: rest)
    return v :: ds

/-- Numerals with more digits are not read. -/
def maxDigits : Nat := 4300

/-- The value of a numeral without a sign. -/
def natural? (cs : List Char) : Option Nat := do
  let ds ← digitValues? cs
  if ds.isEmpty || maxDigits < ds.length then none
  return ds.foldl (fun n d => 10 * n + d) 0

/-- May the character stand before or behind a numeral? The separators U+001C to U+001F may not. -/
def isMargin (c : Char) : Bool := isBlank c && !inRanges [(0x1C, 0x1F)] c

/-- The text without its margins. -/
def trimMargins (cs : List Char) : List Char :=
  ((cs.dropWhile isMargin).reverse.dropWhile isMargin).reverse

/-- The integer that a text denotes. White space around it is ignored. -/
def integer? (s : String) : Option Int :=
  match trimMargins s.toList with
  | '-' :: cs => (natural? cs).map fun n => -(n : Int)
  | '+' :: cs => (natural? cs).map Int.ofNat
  | cs => (natural? cs).map Int.ofNat

end CondUnfold.Text
