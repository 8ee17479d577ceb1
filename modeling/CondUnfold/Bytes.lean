/-! Byte strings, cutting them at a position, and the UTF-8 encoding. Reading takes one character at a
time. An ill-formed stretch is as long as it could still have begun a character, and never empty. -/

namespace CondUnfold

/-! ## Cutting

A negative position counts from the end of the list, and a position outside the list stands for the
nearer end. -/

/-- The place that position `i` names in a list of `n` items. -/
def slicePoint (n : Nat) (i : Int) : Nat :=
  if i < 0 then (i + n).toNat else min i.toNat n

/-- The items before position `i`. -/
def sliceBefore (xs : List α) (i : Int) : List α := xs.take (slicePoint xs.length i)

/-- The items from position `i` on. -/
def sliceFrom (xs : List α) (i : Int) : List α := xs.drop (slicePoint xs.length i)

theorem slicePoint_natCast {n k : Nat} (h : k ≤ n) : slicePoint n k = k := by
  unfold slicePoint
  split <;> omega

/-! ## Bytes -/

/-- A byte string. -/
abbrev Bytes := List UInt8

/-- The bytes behind the last line break. -/
def lastLine (bytes : Bytes) : Bytes := (bytes.reverse.takeWhile (· != 10)).reverse

/-- The number of line breaks before a position, and the number of bytes since the last one. -/
def pointOf (source : Bytes) (offset : Nat) : Nat × Nat :=
  let before := source.take offset
  (before.count 10, (lastLine before).length)

namespace Utf8

/-- The bytes of a text. -/
def encode (s : String) : Bytes := s.toList.flatMap String.utf8EncodeChar

/-- What the first byte of a character tells: how many bytes follow, between which bounds the next
one lies, and the leading bits. -/
structure Lead where
  tails : Nat
  low : UInt8
  high : UInt8
  bits : Nat

/-- The reading of a first byte, if it may begin a character. -/
def lead? (b : UInt8) : Option Lead :=
  if b < 0x80 then some ⟨0, 0x80, 0xBF, b.toNat⟩
  else if 0xC2 ≤ b && b ≤ 0xDF then some ⟨1, 0x80, 0xBF, b.toNat - 0xC0⟩
  else if b == 0xE0 then some ⟨2, 0xA0, 0xBF, 0⟩
  else if b == 0xED then some ⟨2, 0x80, 0x9F, 0xD⟩
  else if 0xE1 ≤ b && b ≤ 0xEF then some ⟨2, 0x80, 0xBF, b.toNat - 0xE0⟩
  else if b == 0xF0 then some ⟨3, 0x90, 0xBF, 0⟩
  else if b == 0xF4 then some ⟨3, 0x80, 0x8F, 4⟩
  else if 0xF1 ≤ b && b ≤ 0xF3 then some ⟨3, 0x80, 0xBF, b.toNat - 0xF0⟩
  else none

/-- Read `n` further bytes of a character, the first of them between `low` and `high`. -/
def tails : Nat → UInt8 → UInt8 → Nat → Bytes → Option Nat × Bytes
  | 0, _, _, code, bytes => (some code, bytes)
  | _ + 1, _, _, _, [] => (none, [])
  | n + 1, low, high, code, b :: rest =>
    if low ≤ b && b ≤ high then tails n 0x80 0xBF (code * 64 + (b.toNat - 0x80)) rest
    else (none, b :: rest)

/-- Read the character that begins with `b`, or nothing for an ill-formed stretch, and the bytes
behind it. -/
def next (b : UInt8) (rest : Bytes) : Option Char × Bytes :=
  match lead? b with
  | none => (none, rest)
  | some l =>
    let (code, rest') := tails l.tails l.low l.high l.bits rest
    (code.map Char.ofNat, rest')

theorem length_tails_le (n : Nat) (low high : UInt8) (code : Nat) (bytes : Bytes) :
    (tails n low high code bytes).2.length ≤ bytes.length := by
  fun_induction tails n low high code bytes with
  | case1 => simp
  | case2 => simp
  | case3 _ _ _ _ _ _ _ ih => exact Nat.le_succ_of_le ih
  | case4 => simp

theorem length_next_le (b : UInt8) (rest : Bytes) : (next b rest).2.length ≤ rest.length := by
  unfold next
  split
  · exact Nat.le_refl _
  · exact length_tails_le ..

/-- The characters of a byte string, with nothing for each ill-formed stretch. -/
def read : Bytes → List (Option Char)
  | [] => []
  | b :: rest => (next b rest).1 :: read (next b rest).2
termination_by bytes => bytes.length
decreasing_by exact Nat.lt_succ_of_le (length_next_le b rest)

/-- The text of a byte string, if it is well formed. -/
def decode? (bytes : Bytes) : Option String := ((read bytes).mapM id).map String.ofList

/-- The text of a byte string with U+FFFD for each ill-formed stretch. -/
def decodeLossy (bytes : Bytes) : List Char := (read bytes).map (·.getD '�')

end Utf8
end CondUnfold
