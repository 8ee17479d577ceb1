/-! JSON values and their text over several lines, in ASCII and with sorted keys. -/

namespace CondUnfold

/-- A JSON value without fractions. -/
inductive Json where
  | null
  | num (n : Int)
  | str (s : String)
  | arr (items : List Json)
  | obj (fields : List (String × Json))
deriving Repr, Inhabited

namespace Json

/-- A hexadecimal digit. -/
def hexDigit (n : Nat) : Char :=
  if n < 10 then Char.ofNat (0x30 + n) else Char.ofNat (0x61 + n - 10)

/-- The escape of a code unit by its number. -/
def escapeUnit (u : Nat) : String :=
  "\\u" ++ String.ofList [hexDigit (u / 4096 % 16), hexDigit (u / 256 % 16), hexDigit (u / 16 % 16),
    hexDigit (u % 16)]

/-- A character inside a JSON string. Characters outside the basic plane are written as two code
units. -/
def escape (c : Char) : String :=
  if c == '"' then "\\\""
  else if c == '\\' then "\\\\"
  else if c == '\n' then "\\n"
  else if c == '\r' then "\\r"
  else if c == '\t' then "\\t"
  else if c == '\x08' then "\\b"
  else if c == '\x0c' then "\\f"
  else if 0x20 ≤ c.toNat && c.toNat ≤ 0x7E then c.toString
  else if c.toNat < 0x10000 then escapeUnit c.toNat
  else
    let n := c.toNat - 0x10000
    escapeUnit (0xD800 + n / 1024) ++ escapeUnit (0xDC00 + n % 1024)

/-- A text as a JSON string. -/
def quote (s : String) : String := "\"" ++ String.join (s.toList.map escape) ++ "\""

/-- A line break and the indentation of the given depth. -/
def newline (depth : Nat) : String := "\n" ++ String.ofList (List.replicate (2 * depth) ' ')

/-- Fields sorted by their keys. -/
def sortFields (fields : List (String × α)) : List (String × α) :=
  fields.mergeSort fun f g => decide (f.1 ≤ g.1)

mutual

/-- The text of a value whose lines stand at the given depth. -/
def textAt (depth : Nat) : Json → String
  | .null => "null"
  | .num n => toString n
  | .str s => quote s
  | .arr items =>
    if items.isEmpty then "[]"
    else
      "[" ++ newline (depth + 1) ++
        ("," ++ newline (depth + 1)).intercalate (itemTexts (depth + 1) items) ++
        newline depth ++ "]"
  | .obj fields =>
    if fields.isEmpty then "\x7b\x7d"
    else
      "\x7b" ++ newline (depth + 1) ++
        ("," ++ newline (depth + 1)).intercalate
          ((sortFields (fieldTexts (depth + 1) fields)).map fun f => quote f.1 ++ ": " ++ f.2) ++
        newline depth ++ "\x7d"

/-- The texts of the items of an array. -/
def itemTexts (depth : Nat) : List Json → List String
  | [] => []
  | v :: vs => textAt depth v :: itemTexts depth vs

/-- The keys of an object with the texts of their values. -/
def fieldTexts (depth : Nat) : List (String × Json) → List (String × String)
  | [] => []
  | (k, v) :: fs => (k, textAt depth v) :: fieldTexts depth fs

end

/-- The text of a value. -/
def text (v : Json) : String := v.textAt 0

end Json
end CondUnfold
