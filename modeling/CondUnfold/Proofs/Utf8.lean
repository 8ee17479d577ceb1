import CondUnfold.Bytes

/-!
# Reading and writing UTF-8

The byte sequences of characters are those of `Coded`, one for each code point. The reader takes
such a sequence from the head of its input, and takes nothing else for a character; the encoder
writes such sequences. So a text is read back from its bytes (`decode?_encode`), and bytes that are
a text are the bytes of that text (`encode_of_decode?`). A position in a text is between two
characters unless the byte there continues a character, and what lies between two such positions is
a text again (`IsText.slice`).
-/

namespace CondUnfold.Utf8

/-- The byte sequences of code points. Each length has its own range of code points. -/
inductive Coded : Bytes → Nat → Prop where
  | one {b : UInt8} : v < 0x80 → b.toNat = v → Coded [b] v
  | two {b x : UInt8} : 0x80 ≤ v → v < 0x800 → b.toNat = 0xC0 + v / 64 → x.toNat = 0x80 + v % 64 →
    Coded [b, x] v
  | three {b x y : UInt8} : 0x800 ≤ v → v < 0x10000 → ¬ (0xD800 ≤ v ∧ v < 0xE000) →
    b.toNat = 0xE0 + v / 4096 → x.toNat = 0x80 + v / 64 % 64 → y.toNat = 0x80 + v % 64 →
    Coded [b, x, y] v
  | four {b x y z : UInt8} : 0x10000 ≤ v → v < 0x110000 → b.toNat = 0xF0 + v / 262144 →
    x.toNat = 0x80 + v / 4096 % 64 → y.toNat = 0x80 + v / 64 % 64 → z.toNat = 0x80 + v % 64 →
    Coded [b, x, y, z] v

theorem toNat_ofNat_of_lt {n : Nat} (h : n < 256) : (UInt8.ofNat n).toNat = n := by
  rw [UInt8.toNat_ofNat', Nat.mod_eq_of_lt h]

theorem coded_encode (c : Char) : Coded (String.utf8EncodeChar c) c.toNat := by
  have hvalid : c.val.toNat < 0xD800 ∨ 0xDFFF < c.val.toNat ∧ c.val.toNat < 0x110000 := c.valid
  rw [Char.toNat, String.utf8EncodeChar]
  generalize c.val.toNat = v at hvalid
  split
  next => exact .one (by omega) (toNat_ofNat_of_lt (by omega))
  next =>
    split
    next =>
      refine .two (by omega) (by omega) ?_ ?_ <;> rw [toNat_ofNat_of_lt (by omega)] <;> omega
    next =>
      split
      next =>
        refine .three (by omega) (by omega) (by omega) ?_ ?_ ?_ <;>
          rw [toNat_ofNat_of_lt (by omega)] <;> omega
      next =>
        refine .four (by omega) (by omega) ?_ ?_ ?_ ?_ <;>
          rw [toNat_ofNat_of_lt (by omega)] <;> omega

/-- A code point has one byte sequence. -/
theorem Coded.unique {bs bs' : Bytes} {v : Nat} (h : Coded bs v) (h' : Coded bs' v) : bs = bs' := by
  cases h with
  | one hv hb =>
    cases h' with
    | one _ hb' => rw [UInt8.toNat_inj.mp (hb.trans hb'.symm)]
    | two | three | four => omega
  | two hv hv' hb hx =>
    cases h' with
    | two _ _ hb' hx' =>
      rw [UInt8.toNat_inj.mp (hb.trans hb'.symm), UInt8.toNat_inj.mp (hx.trans hx'.symm)]
    | one | three | four => omega
  | three hv hv' hs hb hx hy =>
    cases h' with
    | three _ _ _ hb' hx' hy' =>
      rw [UInt8.toNat_inj.mp (hb.trans hb'.symm), UInt8.toNat_inj.mp (hx.trans hx'.symm),
        UInt8.toNat_inj.mp (hy.trans hy'.symm)]
    | one | two | four => omega
  | four hv hv' hb hx hy hz =>
    cases h' with
    | four _ _ hb' hx' hy' hz' =>
      rw [UInt8.toNat_inj.mp (hb.trans hb'.symm), UInt8.toNat_inj.mp (hx.trans hx'.symm),
        UInt8.toNat_inj.mp (hy.trans hy'.symm), UInt8.toNat_inj.mp (hz.trans hz'.symm)]
    | one | two | three => omega

/-- A byte below 128 stands for itself. -/
theorem Coded.ascii {bs : Bytes} {b : UInt8} {v : Nat} (h : Coded bs v) (hb : b ∈ bs)
    (hlt : b.toNat < 0x80) : b.toNat = v := by
  cases h <;> simp only [List.mem_cons, List.not_mem_nil, or_false] at hb
  case one => subst hb; assumption
  case two => rcases hb with rfl | rfl <;> omega
  case three => rcases hb with rfl | rfl | rfl <;> omega
  case four => rcases hb with rfl | rfl | rfl | rfl <;> omega

/-! ## Reading -/

theorem char_ofNat_toNat {v : Nat} (h : v < 0xD800 ∨ 0xDFFF < v ∧ v < 0x110000) :
    (Char.ofNat v).toNat = v := by
  have hvalid : v.isValidChar := h
  rw [Char.ofNat, dif_pos hvalid]
  rfl

theorem between_iff {low high b : UInt8} : (decide (low ≤ b) && decide (b ≤ high)) = true ↔
    low.toNat ≤ b.toNat ∧ b.toNat ≤ high.toNat := by
  rw [Bool.and_eq_true, decide_eq_true_eq, decide_eq_true_eq, UInt8.le_iff_toNat_le,
    UInt8.le_iff_toNat_le]

theorem toNat_ne {b c : UInt8} (h : ¬ (b == c) = true) : b.toNat ≠ c.toNat :=
  fun heq => h (beq_iff_eq.mpr (UInt8.toNat_inj.mp heq))

theorem tails_zero_eq_some {low high : UInt8} {code v : Nat} {bytes rest : Bytes}
    (h : tails 0 low high code bytes = (some v, rest)) : code = v ∧ bytes = rest := by
  rw [tails, Prod.mk.injEq, Option.some.injEq] at h
  exact h

theorem tails_succ_eq_some {n : Nat} {low high : UInt8} {code v : Nat} {bytes rest : Bytes}
    (h : tails (n + 1) low high code bytes = (some v, rest)) :
    ∃ x bytes', bytes = x :: bytes' ∧ low.toNat ≤ x.toNat ∧ x.toNat ≤ high.toNat ∧
      tails n 0x80 0xBF (code * 64 + (x.toNat - 0x80)) bytes' = (some v, rest) := by
  cases bytes with
  | nil => cases h
  | cons x bytes' =>
    rw [tails] at h
    split at h
    next hx =>
      obtain ⟨hlow, hhigh⟩ := between_iff.mp hx
      exact ⟨x, bytes', rfl, hlow, hhigh, h⟩
    next => cases h

/-- What a first byte tells, by the length of the sequence that it begins. -/
theorem lead?_eq_some {b : UInt8} {l : Lead} (h : lead? b = some l) :
    (l.tails = 0 ∧ b.toNat < 0x80 ∧ l.bits = b.toNat) ∨
    (l.tails = 1 ∧ 0xC2 ≤ b.toNat ∧ b.toNat ≤ 0xDF ∧ l.bits = b.toNat - 0xC0 ∧
      l.low.toNat = 0x80 ∧ l.high.toNat = 0xBF) ∨
    (l.tails = 2 ∧ 0xE0 ≤ b.toNat ∧ b.toNat ≤ 0xEF ∧ l.bits = b.toNat - 0xE0 ∧
      (b.toNat = 0xE0 ∧ l.low.toNat = 0xA0 ∨ b.toNat ≠ 0xE0 ∧ l.low.toNat = 0x80) ∧
      (b.toNat = 0xED ∧ l.high.toNat = 0x9F ∨ b.toNat ≠ 0xED ∧ l.high.toNat = 0xBF)) ∨
    (l.tails = 3 ∧ 0xF0 ≤ b.toNat ∧ b.toNat ≤ 0xF4 ∧ l.bits = b.toNat - 0xF0 ∧
      (b.toNat = 0xF0 ∧ l.low.toNat = 0x90 ∨ b.toNat ≠ 0xF0 ∧ l.low.toNat = 0x80) ∧
      (b.toNat = 0xF4 ∧ l.high.toNat = 0x8F ∨ b.toNat ≠ 0xF4 ∧ l.high.toNat = 0xBF)) := by
  revert h
  fun_cases lead? b with
  | case1 hascii =>
    rintro ⟨⟩
    exact .inl ⟨rfl, UInt8.lt_iff_toNat_lt.mp hascii, rfl⟩
  | case2 _ htwo =>
    rintro ⟨⟩
    obtain ⟨hlow, hhigh⟩ := between_iff.mp htwo
    exact .inr (.inl ⟨rfl, hlow, hhigh, rfl, rfl, rfl⟩)
  | case3 _ _ hfirst =>
    rintro ⟨⟩
    obtain rfl := beq_iff_eq.mp hfirst
    exact .inr (.inr (.inl (by decide)))
  | case4 _ _ _ hbeforeSurrogates =>
    rintro ⟨⟩
    obtain rfl := beq_iff_eq.mp hbeforeSurrogates
    exact .inr (.inr (.inl (by decide)))
  | case5 _ _ hfirst hsurrogates hthree =>
    rintro ⟨⟩
    obtain ⟨hlow, hhigh⟩ := between_iff.mp hthree
    exact .inr (.inr (.inl ⟨rfl, Nat.le_of_lt hlow, hhigh, rfl, .inr ⟨toNat_ne hfirst, rfl⟩,
      .inr ⟨toNat_ne hsurrogates, rfl⟩⟩))
  | case6 _ _ _ _ _ hfirst =>
    rintro ⟨⟩
    obtain rfl := beq_iff_eq.mp hfirst
    exact .inr (.inr (.inr (by decide)))
  | case7 _ _ _ _ _ _ hlast =>
    rintro ⟨⟩
    obtain rfl := beq_iff_eq.mp hlast
    exact .inr (.inr (.inr (by decide)))
  | case8 _ _ _ _ _ hfirst hlast hfour =>
    rintro ⟨⟩
    obtain ⟨hlow, hhigh⟩ := between_iff.mp hfour
    exact .inr (.inr (.inr ⟨rfl, Nat.le_of_lt hlow, Nat.le_succ_of_le hhigh, rfl,
      .inr ⟨toNat_ne hfirst, rfl⟩, .inr ⟨toNat_ne hlast, rfl⟩⟩))
  | case9 => exact nofun

theorem lead?_isSome {b : UInt8} (h : b.toNat < 0x80 ∨ 0xC2 ≤ b.toNat ∧ b.toNat ≤ 0xF4) :
    ∃ l, lead? b = some l := by
  fun_cases lead? b with
  | case9 hascii htwo hE0 _ hthree hF0 hF4 hfour =>
    have hascii : ¬ b.toNat < 0x80 := fun h => hascii (UInt8.lt_iff_toNat_lt.mpr h)
    have htwo : ¬ (0xC2 ≤ b.toNat ∧ b.toNat ≤ 0xDF) := fun h => htwo (between_iff.mpr h)
    have hthree : ¬ (0xE1 ≤ b.toNat ∧ b.toNat ≤ 0xEF) := fun h => hthree (between_iff.mpr h)
    have hfour : ¬ (0xF1 ≤ b.toNat ∧ b.toNat ≤ 0xF3) := fun h => hfour (between_iff.mpr h)
    have hE0 : b.toNat ≠ 0xE0 := toNat_ne hE0
    have hF0 : b.toNat ≠ 0xF0 := toNat_ne hF0
    have hF4 : b.toNat ≠ 0xF4 := toNat_ne hF4
    omega
  | _ => exact ⟨_, rfl⟩
/-- **What is read as a character is the byte sequence of that character.** -/
theorem coded_of_next {b : UInt8} {bytes rest : Bytes} {c : Char}
    (h : next b bytes = (some c, rest)) :
    ∃ tail, bytes = tail ++ rest ∧ Coded (b :: tail) c.toNat := by
  unfold next at h
  split at h
  next => cases h
  next l hl =>
    obtain ⟨v, hcode, rfl⟩ : ∃ v, tails l.tails l.low l.high l.bits bytes = (some v, rest) ∧
        c = Char.ofNat v := by
      cases htails : tails l.tails l.low l.high l.bits bytes with
      | mk code rest' =>
        cases code with
        | none => rw [htails] at h; cases h
        | some v => rw [htails] at h; cases h; exact ⟨v, rfl, rfl⟩
    obtain ⟨hn, hb, hbits⟩ | ⟨hn, hb, hb', hbits, hlow, hhigh⟩ |
      ⟨hn, hb, hb', hbits, hlow, hhigh⟩ | ⟨hn, hb, hb', hbits, hlow, hhigh⟩ := lead?_eq_some hl
    · rw [hn] at hcode
      obtain ⟨rfl, rfl⟩ := tails_zero_eq_some hcode
      rw [char_ofNat_toNat (by omega)]
      exact ⟨[], rfl, .one (by omega) (by omega)⟩
    · rw [hn] at hcode
      obtain ⟨x, _, rfl, hx, hx', hcode⟩ := tails_succ_eq_some hcode
      obtain ⟨rfl, rfl⟩ := tails_zero_eq_some hcode
      rw [char_ofNat_toNat (by omega)]
      exact ⟨[x], rfl, .two (by omega) (by omega) (by omega) (by omega)⟩
    · rw [hn] at hcode
      obtain ⟨x, _, rfl, hx, hx', hcode⟩ := tails_succ_eq_some hcode
      obtain ⟨y, _, rfl, hy, hy', hcode⟩ := tails_succ_eq_some hcode
      obtain ⟨rfl, rfl⟩ := tails_zero_eq_some hcode
      change 128 ≤ _ at hy
      change _ ≤ 191 at hy'
      rw [char_ofNat_toNat (by omega)]
      exact ⟨[x, y], rfl,
        .three (by omega) (by omega) (by omega) (by omega) (by omega) (by omega)⟩
    · rw [hn] at hcode
      obtain ⟨x, _, rfl, hx, hx', hcode⟩ := tails_succ_eq_some hcode
      obtain ⟨y, _, rfl, hy, hy', hcode⟩ := tails_succ_eq_some hcode
      obtain ⟨z, _, rfl, hz, hz', hcode⟩ := tails_succ_eq_some hcode
      obtain ⟨rfl, rfl⟩ := tails_zero_eq_some hcode
      change 128 ≤ _ at hy hz
      change _ ≤ 191 at hy' hz'
      rw [char_ofNat_toNat (by omega)]
      exact ⟨[x, y, z], rfl,
        .four (by omega) (by omega) (by omega) (by omega) (by omega) (by omega)⟩

theorem tails_cons {n : Nat} {low high : UInt8} {code : Nat} {x : UInt8} {bytes : Bytes}
    (hlow : low.toNat ≤ x.toNat) (hhigh : x.toNat ≤ high.toNat) :
    tails (n + 1) low high code (x :: bytes) =
      tails n 0x80 0xBF (code * 64 + (x.toNat - 0x80)) bytes := by
  rw [tails, if_pos (between_iff.mpr ⟨hlow, hhigh⟩)]

/-- **The byte sequence of a character is read as that character.** -/
theorem next_of_coded {b : UInt8} {tail : Bytes} {v : Nat} (h : Coded (b :: tail) v)
    (rest : Bytes) : next b (tail ++ rest) = (some (Char.ofNat v), rest) := by
  obtain ⟨l, hl⟩ : ∃ l, lead? b = some l := lead?_isSome (by cases h <;> omega)
  have hcode : tails l.tails l.low l.high l.bits (tail ++ rest) = (some v, rest) := by
    have hlead := lead?_eq_some hl
    have hlow : (0x80 : UInt8).toNat = 0x80 := rfl
    have hhigh : (0xBF : UInt8).toNat = 0xBF := rfl
    cases h with
    | one hv hb =>
      rw [show l.tails = 0 by omega, tails, show l.bits = v by omega]
      rfl
    | two hv hv' hb hx =>
      rw [show l.tails = 1 by omega, List.cons_append, tails_cons (by omega) (by omega), tails]
      exact congrArg (fun n => (some n, rest)) (by omega)
    | three hv hv' hs hb hx hy =>
      rw [show l.tails = 2 by omega, List.cons_append, tails_cons (by omega) (by omega),
        List.cons_append, tails_cons (by omega) (by omega), tails]
      exact congrArg (fun n => (some n, rest)) (by omega)
    | four hv hv' hb hx hy hz =>
      rw [show l.tails = 3 by omega, List.cons_append, tails_cons (by omega) (by omega),
        List.cons_append, tails_cons (by omega) (by omega), List.cons_append,
        tails_cons (by omega) (by omega), tails]
      exact congrArg (fun n => (some n, rest)) (by omega)
  simp only [next, hl, hcode, Option.map_some]

/-! ## Texts -/

theorem read_encode (cs : List Char) : read (cs.flatMap String.utf8EncodeChar) = cs.map some := by
  induction cs with
  | nil => rw [List.flatMap_nil, read]; rfl
  | cons c cs ih =>
    have hcoded := coded_encode c
    cases hbytes : String.utf8EncodeChar c with
    | nil => rw [hbytes] at hcoded; cases hcoded
    | cons b tail =>
      rw [hbytes] at hcoded
      rw [List.flatMap_cons, hbytes, List.cons_append, read, next_of_coded hcoded, ih,
        Char.ofNat_toNat]
      rfl

theorem mapM_id_map_some (cs : List Char) : (cs.map some).mapM id = some cs := by
  induction cs with
  | nil => rfl
  | cons c cs ih => rw [List.map_cons, List.mapM_cons, ih]; rfl

/-- **A text is read back from its bytes.** -/
theorem decode?_encode (s : String) : decode? (encode s) = some s := by
  rw [decode?, encode, read_encode, mapM_id_map_some, Option.map_some, String.ofList_toList]

theorem encode_of_read {bytes : Bytes} {cs : List Char} (h : (read bytes).mapM id = some cs) :
    cs.flatMap String.utf8EncodeChar = bytes := by
  induction bytes using read.induct generalizing cs with
  | case1 => rw [read] at h; cases h; rfl
  | case2 b rest ih =>
    rw [read, List.mapM_cons] at h
    cases hnext : next b rest with
    | mk c? rest' =>
      rw [hnext] at h ih
      cases c? with
      | none => cases h
      | some c =>
        cases hrest : (read rest').mapM id with
        | none => simp [hrest] at h
        | some cs' =>
          obtain rfl : c :: cs' = cs := by simpa [hrest] using h
          obtain ⟨tail, rfl, hcoded⟩ := coded_of_next hnext
          rw [List.flatMap_cons, ih hrest, ← hcoded.unique (coded_encode c), List.cons_append]

/-- **Bytes that are a text are the bytes of that text.** -/
theorem encode_of_decode? {bytes : Bytes} {s : String} (h : decode? bytes = some s) :
    encode s = bytes := by
  obtain ⟨cs, hcs, rfl⟩ := Option.map_eq_some_iff.mp h
  rw [encode, String.toList_ofList]
  exact encode_of_read hcs

/-! ## Boundaries between characters -/

/-- The bytes are those of a text. -/
def IsText (bytes : Bytes) : Prop := ∃ s, decode? bytes = some s

/-- Does the byte continue a character? -/
def isTail (b : UInt8) : Bool := 0x80 ≤ b && b < 0xC0

/-- Is the position between two characters, or at an end? -/
def isBoundary (bytes : Bytes) (i : Nat) : Bool :=
  decide (i ≤ bytes.length) && !bytes[i]?.any isTail

variable {bytes bytes' : Bytes} {i j : Nat}

theorem isText_iff : IsText bytes ↔ ∃ cs : List Char, bytes = cs.flatMap String.utf8EncodeChar := by
  constructor
  · rintro ⟨s, hs⟩
    exact ⟨s.toList, (encode_of_decode? hs).symm⟩
  · rintro ⟨cs, rfl⟩
    refine ⟨String.ofList cs, ?_⟩
    rw [← decode?_encode (String.ofList cs), encode, String.toList_ofList]

theorem isText_encode (s : String) : IsText (encode s) := ⟨s, decode?_encode s⟩

theorem isTail_iff {b : UInt8} : isTail b = true ↔ 128 ≤ b.toNat ∧ b.toNat < 192 := by
  rw [isTail, Bool.and_eq_true, decide_eq_true_eq, decide_eq_true_eq, UInt8.le_iff_toNat_le,
    UInt8.lt_iff_toNat_lt]
  rfl

theorem isTail_of_coded {b x : UInt8} {tail : Bytes} {v : Nat} (h : Coded (b :: tail) v)
    (hx : x ∈ tail) : isTail x = true := by
  rw [isTail_iff]
  cases h <;> simp only [List.mem_cons, List.not_mem_nil, or_false] at hx
  case two => subst hx; omega
  case three => rcases hx with rfl | rfl <;> omega
  case four => rcases hx with rfl | rfl | rfl <;> omega

theorem isTail_head_of_coded {b : UInt8} {tail : Bytes} {v : Nat} (h : Coded (b :: tail) v) :
    isTail b = false := by
  rw [Bool.eq_false_iff, ne_eq, isTail_iff]
  cases h <;> omega

/-- A position inside of the bytes of a character is no boundary. -/
theorem length_le_of_isBoundary {c : Char} (hpos : 0 < i)
    (h : isBoundary (String.utf8EncodeChar c ++ bytes) i = true) :
    (String.utf8EncodeChar c).length ≤ i := by
  have hcoded := coded_encode c
  cases hbytes : String.utf8EncodeChar c with
  | nil => rw [hbytes] at hcoded; cases hcoded
  | cons b tail =>
    rw [hbytes] at hcoded h
    apply Nat.le_of_not_lt
    intro hlt
    obtain ⟨k, rfl⟩ : ∃ k, i = k + 1 := ⟨i - 1, by omega⟩
    have hk : k < tail.length := Nat.lt_of_succ_lt_succ hlt
    have hget : (b :: tail ++ bytes)[k + 1]? = some tail[k] := by
      rw [List.cons_append, List.getElem?_cons_succ, List.getElem?_append_left hk,
        List.getElem?_eq_getElem hk]
    rw [isBoundary, hget, Option.any_some, isTail_of_coded hcoded (List.getElem_mem hk),
      Bool.not_true, Bool.and_false] at h
    cases h

theorem isBoundary_drop (hij : i ≤ j) (h : isBoundary bytes j = true) :
    isBoundary (bytes.drop i) (j - i) = true := by
  rw [isBoundary, Bool.and_eq_true, decide_eq_true_eq] at h ⊢
  rw [List.length_drop, List.getElem?_drop, Nat.add_sub_cancel' hij]
  exact ⟨Nat.sub_le_sub_right h.1 i, h.2⟩

theorem isBoundary_zero (h : IsText bytes) : isBoundary bytes 0 = true := by
  obtain ⟨cs, rfl⟩ := isText_iff.mp h
  cases cs with
  | nil => rfl
  | cons c cs =>
    have hcoded := coded_encode c
    cases hbytes : String.utf8EncodeChar c with
    | nil => rw [hbytes] at hcoded; cases hcoded
    | cons b tail =>
      rw [hbytes] at hcoded
      rw [List.flatMap_cons, hbytes, isBoundary, List.cons_append, List.getElem?_cons_zero,
        Option.any_some, isTail_head_of_coded hcoded]
      rfl

theorem isBoundary_length (bytes : Bytes) : isBoundary bytes bytes.length = true := by
  rw [isBoundary, List.getElem?_eq_none (Nat.le_refl _), decide_eq_true (Nat.le_refl _)]
  rfl

/-- **At a boundary the characters can be parted.** -/
theorem split_of_isBoundary {cs : List Char}
    (h : isBoundary (cs.flatMap String.utf8EncodeChar) i = true) :
    ∃ before after, cs = before ++ after ∧
      (before.flatMap String.utf8EncodeChar).length = i := by
  induction cs generalizing i with
  | nil =>
    have hle : i ≤ 0 := of_decide_eq_true (Bool.and_eq_true_iff.mp h).1
    exact ⟨[], [], rfl, (Nat.le_zero.mp hle).symm⟩
  | cons c cs ih =>
    rcases Nat.eq_zero_or_pos i with rfl | hpos
    · exact ⟨[], c :: cs, rfl, rfl⟩
    · rw [List.flatMap_cons] at h
      have hle := length_le_of_isBoundary hpos h
      have hrest := isBoundary_drop hle h
      rw [List.drop_left] at hrest
      obtain ⟨before, after, rfl, hlength⟩ := ih hrest
      refine ⟨c :: before, after, rfl, ?_⟩
      rw [List.flatMap_cons, List.length_append, hlength]
      omega

namespace IsText

theorem append (h : IsText bytes) (h' : IsText bytes') : IsText (bytes ++ bytes') := by
  obtain ⟨cs, rfl⟩ := isText_iff.mp h
  obtain ⟨cs', rfl⟩ := isText_iff.mp h'
  exact isText_iff.mpr ⟨cs ++ cs', List.flatMap_append.symm⟩

theorem take (h : IsText bytes) (hi : isBoundary bytes i = true) : IsText (bytes.take i) := by
  obtain ⟨cs, rfl⟩ := isText_iff.mp h
  obtain ⟨before, after, rfl, hlength⟩ := split_of_isBoundary hi
  rw [List.flatMap_append, List.take_left' hlength]
  exact isText_iff.mpr ⟨before, rfl⟩

theorem drop (h : IsText bytes) (hi : isBoundary bytes i = true) : IsText (bytes.drop i) := by
  obtain ⟨cs, rfl⟩ := isText_iff.mp h
  obtain ⟨before, after, rfl, hlength⟩ := split_of_isBoundary hi
  rw [List.flatMap_append, List.drop_left' hlength]
  exact isText_iff.mpr ⟨after, rfl⟩

/-- **What lies between two boundaries of a text is a text.** -/
theorem slice (h : IsText bytes) (hi : isBoundary bytes i = true) (hj : isBoundary bytes j = true)
    (hij : i ≤ j) : IsText ((bytes.drop i).take (j - i)) :=
  (h.drop hi).take (isBoundary_drop hij hj)

end IsText

end CondUnfold.Utf8
