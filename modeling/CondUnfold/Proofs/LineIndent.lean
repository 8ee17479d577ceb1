import CondUnfold.Edit
import CondUnfold.Proofs.Utf8

/-!
# The indentation of a line

The indentation of the line of a position is cut from a text that is read from the bytes of the
line, ill-formed stretches included. Spaces and tabs are read as themselves and nothing else is read
as one of them, whatever bytes follow (`Utf8.encode_takeWhile_decodeLossy`). So the indentation can
be told from the bytes alone: it is the longest run of spaces and tabs that begins where the line
begins and does not go past the position (`lineIndent_is_leadingRun`).
-/

namespace CondUnfold

/-! ## Reading spaces and tabs -/

/-- Is the byte a space or a tab? -/
def isBlankByte (b : UInt8) : Bool := b == 32 || b == 9

/-- Is the character a space or a tab? -/
def isBlankChar (c : Char) : Bool := c == ' ' || c == '\t'

theorem isBlankByte_iff {b : UInt8} : isBlankByte b = true ↔ b.toNat = 32 ∨ b.toNat = 9 := by
  rw [isBlankByte, Bool.or_eq_true, beq_iff_eq, beq_iff_eq, ← UInt8.toNat_inj, ← UInt8.toNat_inj]
  rfl

theorem isBlankChar_iff {c : Char} : isBlankChar c = true ↔ c.toNat = 32 ∨ c.toNat = 9 := by
  rw [isBlankChar, Bool.or_eq_true, beq_iff_eq, beq_iff_eq, ← Char.toNat_inj, ← Char.toNat_inj]
  rfl

namespace Utf8

variable {b : UInt8} {rest : Bytes}

/-- A space or a tab is read as itself, whatever follows. -/
theorem next_of_isBlankByte (h : isBlankByte b = true) (rest : Bytes) :
    ∃ c, next b rest = (some c, rest) ∧ isBlankChar c = true ∧ String.utf8EncodeChar c = [b] := by
  rw [isBlankByte_iff] at h
  have hcoded : Coded [b] b.toNat := .one (by omega) rfl
  have hchar : (Char.ofNat b.toNat).toNat = b.toNat := char_ofNat_toNat (by omega)
  refine ⟨Char.ofNat b.toNat, next_of_coded hcoded rest, isBlankChar_iff.mpr (by rwa [hchar]), ?_⟩
  have hcoded' := coded_encode (Char.ofNat b.toNat)
  rw [hchar] at hcoded'
  exact hcoded'.unique hcoded

/-- Nothing else is read as a space or a tab, a character that breaks off included. -/
theorem isBlankByte_of_next (h : isBlankChar ((next b rest).1.getD '�') = true) :
    isBlankByte b = true := by
  rw [isBlankByte_iff]
  cases hnext : next b rest with
  | mk c? rest' =>
    rw [hnext] at h
    cases c? with
    | none => exact absurd h (by rw [Option.getD_none]; decide)
    | some c =>
      obtain ⟨tail, -, hcoded⟩ := coded_of_next hnext
      rw [Option.getD_some, isBlankChar_iff] at h
      -- longer sequences are those of code points from 128 on
      cases hcoded <;> omega

/-- **The head of a text that is read with replacements.** Its spaces and tabs are those at the head
of its bytes. -/
theorem encode_takeWhile_decodeLossy (bytes : Bytes) :
    encode (String.ofList ((decodeLossy bytes).takeWhile isBlankChar)) =
      bytes.takeWhile isBlankByte := by
  rw [encode, String.toList_ofList]
  induction bytes with
  | nil => rw [decodeLossy, read]; rfl
  | cons b rest ih =>
    rw [decodeLossy, read, List.map_cons, List.takeWhile_cons, List.takeWhile_cons]
    cases hb : isBlankByte b with
    | true =>
      obtain ⟨c, hnext, hc, hbytes⟩ := next_of_isBlankByte hb rest
      rw [hnext, Option.getD_some, hc, if_pos rfl, if_pos rfl, List.flatMap_cons, hbytes]
      exact congrArg (b :: ·) ih
    | false =>
      have hc : isBlankChar ((next b rest).1.getD '�') = false := by
        rw [Bool.eq_false_iff]
        intro hc
        rw [isBlankByte_of_next hc] at hb
        cases hb
      rw [hc]
      rfl

end Utf8

/-! ## Runs in a source -/

/-- The bytes from `start` up to `stop`. -/
def stretch (source : Bytes) (start stop : Nat) : Bytes := (source.drop start).take (stop - start)

/-- The line of the position `offset` begins at `start`: at the beginning of the source or behind
the last line break before the position. -/
structure BeginsLine (source : Bytes) (offset start : Nat) : Prop where
  le : start ≤ offset
  behindBreak : start = 0 ∨ ∃ i, start = i + 1 ∧ source[i]? = some 10
  noBreak : 10 ∉ stretch source start offset

/-- There are only spaces and tabs from `start` up to `stop`. -/
structure BlankRun (source : Bytes) (start stop : Nat) : Prop where
  le : start ≤ stop
  blank : ∀ b ∈ stretch source start stop, b = 32 ∨ b = 9

/-- The longest run of spaces and tabs that begins with the line of the position `offset` and does
not go past the position. -/
structure LeadingRun (source : Bytes) (offset start stop : Nat) : Prop where
  begins : BeginsLine source offset start
  run : BlankRun source start stop
  stop_le : stop ≤ offset
  longest : ∀ stop', stop' ≤ offset → BlankRun source start stop' → stop' ≤ stop

section Runs

variable {source : Bytes} {offset start stop : Nat}

theorem take_stretch {n : Nat} (h : start + n ≤ offset) :
    (stretch source start offset).take n = stretch source start (start + n) := by
  rw [stretch, stretch, List.take_take, Nat.min_eq_left (by omega), Nat.add_sub_cancel_left]

theorem stretch_succ (h : start ≤ offset) :
    stretch source start (offset + 1) = stretch source start offset ++ source[offset]?.toList := by
  rw [stretch, stretch, Nat.succ_sub h, List.take_add_one, List.getElem?_drop,
    Nat.add_sub_cancel' h]

theorem take_append_stretch (h : start ≤ offset) :
    source.take start ++ stretch source start offset = source.take offset := by
  rw [stretch, ← List.take_add, Nat.add_sub_cancel' h]

theorem blankRun_iff : BlankRun source start stop ↔
    start ≤ stop ∧ ∀ b ∈ stretch source start stop, isBlankByte b = true := by
  simp only [isBlankByte, Bool.or_eq_true, beq_iff_eq]
  exact ⟨fun h => ⟨h.le, h.blank⟩, fun h => ⟨h.1, h.2⟩⟩

/-- Every position is on a line. -/
theorem exists_beginsLine (source : Bytes) (offset : Nat) :
    ∃ start, BeginsLine source offset start := by
  induction offset with
  | zero => exact ⟨0, Nat.le_refl 0, .inl rfl, by simp [stretch]⟩
  | succ offset ih =>
    -- a line break at `offset` begins a line, any other byte goes on with the line before it
    by_cases hbreak : source[offset]? = some 10
    · exact ⟨offset + 1, Nat.le_refl _, .inr ⟨offset, rfl, hbreak⟩, by simp [stretch]⟩
    · obtain ⟨start, hle, hbehind, hno⟩ := ih
      refine ⟨start, Nat.le_succ_of_le hle, hbehind, ?_⟩
      rw [stretch_succ hle, List.mem_append, Option.mem_toList]
      exact fun h => h.elim hno hbreak

theorem lastLine_append {front line : Bytes} (hline : 10 ∉ line)
    (hfront : front = [] ∨ ∃ before, front = before ++ [10]) : lastLine (front ++ line) = line := by
  have hall : ∀ b ∈ line.reverse, (b != 10) = true := by
    intro b hb
    rw [bne_iff_ne]
    rintro rfl
    exact hline (List.mem_reverse.mp hb)
  rw [lastLine, List.reverse_append, List.takeWhile_append_of_pos hall]
  rcases hfront with rfl | ⟨before, rfl⟩
  · rw [List.reverse_nil, List.takeWhile_nil, List.append_nil, List.reverse_reverse]
  · rw [List.reverse_concat, List.takeWhile_cons, if_neg (by decide), List.append_nil,
      List.reverse_reverse]

/-- What lies behind the last line break before a position is the line up to the position. -/
theorem BeginsLine.lastLine_eq (h : BeginsLine source offset start) :
    lastLine (source.take offset) = stretch source start offset := by
  rw [← take_append_stretch h.le]
  refine lastLine_append h.noBreak ?_
  rcases h.behindBreak with rfl | ⟨i, rfl, hi⟩
  · exact .inl rfl
  · exact .inr ⟨source.take i, by rw [List.take_add_one, hi]; rfl⟩

theorem le_length_takeWhile {p : UInt8 → Bool} {line : Bytes} {n : Nat} (hn : n ≤ line.length)
    (h : ∀ b ∈ line.take n, p b = true) : n ≤ (line.takeWhile p).length := by
  conv => rhs; rw [← List.take_append_drop n line]
  rw [List.takeWhile_append_of_pos h, List.length_append, List.length_take_of_le hn]
  exact Nat.le_add_right n _

/-- The run that is taken from the line as long as there are spaces and tabs is the longest one. -/
theorem BeginsLine.leadingRun (h : BeginsLine source offset start)
    (hoffset : offset ≤ source.length) :
    LeadingRun source offset start
      (start + ((stretch source start offset).takeWhile isBlankByte).length) := by
  have hlength : (stretch source start offset).length = offset - start := by
    rw [stretch, List.length_take, List.length_drop]
    omega
  have hle := (List.takeWhile_prefix isBlankByte (l := stretch source start offset)).length_le
  have hstart := h.le
  refine ⟨h, blankRun_iff.mpr ⟨Nat.le_add_right .., ?_⟩, by omega, ?_⟩
  · have hstop : start + ((stretch source start offset).takeWhile isBlankByte).length ≤ offset := by
      omega
    rw [← take_stretch hstop, ← List.prefix_iff_eq_take.mp (List.takeWhile_prefix _)]
    exact List.all_eq_true.mp List.all_takeWhile
  · intro stop' hstop hrun
    obtain ⟨hle', hblank⟩ := blankRun_iff.mp hrun
    obtain ⟨n, rfl⟩ := Nat.exists_eq_add_of_le hle'
    rw [← take_stretch hstop] at hblank
    exact Nat.add_le_add_left (le_length_takeWhile (by omega) hblank) start

theorem LeadingRun.stop_unique {stop' : Nat} (h : LeadingRun source offset start stop)
    (h' : LeadingRun source offset start stop') : stop = stop' :=
  Nat.le_antisymm (h'.longest stop h.stop_le h.run) (h.longest stop' h'.stop_le h'.run)

end Runs

/-- **The indentation at a position is the longest run of spaces and tabs with which its line
begins, up to the position.** There is such a run in all bytes, whether or not they are a text. -/
theorem lineIndent_is_leadingRun (source : Bytes) {offset : Nat} (h : offset ≤ source.length) :
    (∃ start stop, LeadingRun source offset start stop) ∧
    ∀ start stop, LeadingRun source offset start stop →
      Utf8.encode (lineIndent source offset) = stretch source start stop := by
  constructor
  · obtain ⟨start, hstart⟩ := exists_beginsLine source offset
    exact ⟨start, _, hstart.leadingRun h⟩
  · intro start stop hrun
    have hline := hrun.begins.leadingRun h
    have hstop := hrun.stop_unique hline
    calc Utf8.encode (lineIndent source offset)
        = (lastLine (sliceBefore source offset)).takeWhile isBlankByte :=
          Utf8.encode_takeWhile_decodeLossy _
      _ = (stretch source start offset).takeWhile isBlankByte := by
          rw [sliceBefore, slicePoint_natCast h, hrun.begins.lastLine_eq]
      _ = (stretch source start offset).take
            ((stretch source start offset).takeWhile isBlankByte).length :=
          List.prefix_iff_eq_take.mp (List.takeWhile_prefix _)
      _ = stretch source start stop := by
          rw [take_stretch hline.stop_le, hstop]

namespace BrokenCharacter

/-- A line that begins with a tab and a space, before a character that breaks off. The space behind
it is no part of the indentation. -/
def source : Bytes := [120, 59, 10, 9, 32, 0xE2, 32, 98]

theorem leadingRun : LeadingRun source 7 3 5 where
  begins := ⟨by decide, .inr ⟨2, rfl, rfl⟩, by decide⟩
  run := ⟨by decide, by simp [source, stretch]⟩
  stop_le := by decide
  longest := by
    intro stop' hle hrun
    apply Nat.le_of_not_lt
    intro hlt
    obtain rfl | rfl : stop' = 6 ∨ stop' = 7 := by omega
    all_goals exact absurd (hrun.blank 0xE2 (by decide)) (by decide)

theorem lineIndent_is_run_before : (7 ≤ source.length ∧ LeadingRun source 7 3 5) ∧
    Utf8.encode (lineIndent source (7 : Nat)) = [9, 32] :=
  ⟨⟨by decide, leadingRun⟩, (lineIndent_is_leadingRun source (by decide)).2 3 5 leadingRun⟩

end BrokenCharacter
end CondUnfold
