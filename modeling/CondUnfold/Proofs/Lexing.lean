import CondUnfold.Syntax.Lexeme
import Mathlib.Data.Bool.AllAny

/-!
# Longest-match lexing

A text is cut into tokens from left to right. The token at the head of a text is the longest of the
identifier, number, string and symbol that begin there, so that where it ends may hang on what comes
behind it. For each sort of token it is shown what the next character must not be for the token to end
where it is meant to.
-/

namespace CondUnfold.Lexing

open Lexeme

/-- A token, as it is written. -/
abbrev Token := String

/-- The length of a run of digits with a point behind it. -/
def pointedDigits (cs : List Char) : Nat :=
  let n := span Char.isDigit cs
  if n ≠ 0 && (cs.drop n).head? == some '.' then n + 1 else 0

/-- The length of the longest token at the head of a text. A character with which no token begins
stands alone. -/
def tokenLength (cs : List Char) : Nat :=
  [identifier cs, number cs, pointedDigits cs, string cs, (symbol cs).length].foldl max 1

theorem one_le_tokenLength (cs : List Char) : 1 ≤ tokenLength cs := by
  simp only [tokenLength, List.foldl]
  omega

/-- The tokens of a text. -/
def lex : List Char → List Token
  | [] => []
  | c :: cs =>
    if isBlank c then lex cs
    else if comment (c :: cs) ≠ 0 then lex ((c :: cs).drop (comment (c :: cs)))
    else
      String.ofList ((c :: cs).take (tokenLength (c :: cs))) ::
        lex ((c :: cs).drop (tokenLength (c :: cs)))
termination_by cs => cs.length
decreasing_by
  · simp
  · simp only [List.length_drop, List.length_cons]
    omega
  · have := one_le_tokenLength (c :: cs)
    simp only [List.length_drop, List.length_cons]
    omega

/-- The text consists of the tokens, in order, with nothing but blanks and comments between them. -/
inductive Spelled : List Token → List Char → Prop where
  | nil : Spelled [] []
  | blank : isBlank c → Spelled ts cs → Spelled ts (c :: cs)
  | comment : comment cs ≠ 0 → Spelled ts (cs.drop (comment cs)) → Spelled ts cs
  | token : Spelled ts cs → Spelled (t :: ts) (t.toList ++ cs)

/-- **Lexing cuts the whole text into tokens.** -/
theorem spelled_lex (cs : List Char) : Spelled (lex cs) cs := by
  induction cs using lex.induct with
  | case1 => rw [lex]; exact .nil
  | case2 c cs hblank ih => rw [lex, if_pos hblank]; exact .blank hblank ih
  | case3 c cs hblank hcomment ih =>
    rw [lex, if_neg hblank, if_pos hcomment]
    exact .comment hcomment ih
  | case4 c cs hblank hcomment ih =>
    rw [lex, if_neg hblank, if_neg hcomment]
    have htoken := Spelled.token (t := String.ofList ((c :: cs).take (tokenLength (c :: cs)))) ih
    rwa [String.toList_ofList, List.take_append_drop] at htoken

theorem lex_blank {c : Char} (h : isBlank c = true) (cs : List Char) : lex (c :: cs) = lex cs := by
  rw [lex, if_pos h]

theorem lex_space (cs : List Char) : lex (' ' :: cs) = lex cs := lex_blank rfl cs

/-- The first token of a text, where its length is known. -/
theorem lex_append {w : String} {rest : List Char} {c : Char} {cs : List Char}
    (hw : w.toList = c :: cs) (hblank : isBlank c = false)
    (hcomment : comment (w.toList ++ rest) = 0)
    (hlength : tokenLength (w.toList ++ rest) = w.toList.length) :
    lex (w.toList ++ rest) = w :: lex rest := by
  rw [hw, List.cons_append] at hcomment hlength ⊢
  rw [lex, if_neg (by simp [hblank]), if_neg (by simp [hcomment]), hlength, ← List.cons_append,
    List.take_left', List.drop_left', ← hw, String.ofList_toList]
  all_goals rfl

/-! ## What cannot begin with a character -/

variable {c : Char} {cs rest : List Char}

theorem unicodeEscape_eq_zero (h : c ≠ '\\') : unicodeEscape (c :: cs) = 0 := by
  unfold unicodeEscape
  split <;> simp_all

theorem identifierPart_eq_zero (hc : isIdentifierChar c = false) (h : c ≠ '\\') :
    identifierPart (c :: cs) = 0 := by
  rw [identifierPart, hc, unicodeEscape_eq_zero h]
  rfl

theorem identifier_eq_zero (hc : isIdentifierChar c = false) (h : c ≠ '\\') :
    identifier (c :: cs) = 0 := by
  have hpart : ∀ fuel, identifierRest fuel (c :: cs) = 0 := by
    intro fuel
    cases fuel with
    | zero => rfl
    | succ fuel => rw [identifierRest, identifierPart_eq_zero hc h]; rfl
  rw [identifier, hpart, ite_self]

/-! The readings of a number, of which the longest counts. -/

/-- A number in another base. -/
def inBase (cs : List Char) : Nat :=
  match cs with
  | '0' :: rest => if based rest == 0 then 0 else withBigSuffix (based rest + 1) cs
  | _ => 0

/-- A number with a point behind its first digits. -/
def pointed (cs : List Char) : Nat :=
  if integerPart cs ≠ 0 && (cs.drop (integerPart cs)).head? == some '.' then
    integerPart cs + fraction (cs.drop (integerPart cs))
  else 0

/-- A number that begins with its point. -/
def bare (cs : List Char) : Nat :=
  match cs with
  | '.' :: rest => if digits Char.isDigit rest == 0 then 0 else fraction cs
  | _ => 0

/-- A number with an exponent behind its first digits. -/
def scaled (cs : List Char) : Nat :=
  if integerPart cs == 0 || exponent (cs.drop (integerPart cs)) == 0 then 0
  else integerPart cs + exponent (cs.drop (integerPart cs))

theorem number_eq (cs : List Char) : number cs = [inBase cs, pointed cs, bare cs, scaled cs,
    withBigSuffix (digits Char.isDigit cs) cs].foldl max 0 := rfl

theorem inBase_eq_zero (h : c ≠ '0') : inBase (c :: cs) = 0 := by
  unfold inBase
  split <;> simp_all

theorem bare_eq_zero (h : c ≠ '.') : bare (c :: cs) = 0 := by
  unfold bare
  split <;> simp_all

theorem nonzero_isDigit (h : c.isDigit = false) : (decide ('1' ≤ c) && decide (c ≤ '9')) = false := by
  simp only [Char.isDigit, Char.le_def, UInt32.le_iff_toNat_le, ge_iff_le, Bool.and_eq_false_iff,
    decide_eq_false_iff_not] at *
  change ¬ 48 ≤ _ ∨ ¬ _ ≤ 57 at h
  change ¬ 49 ≤ _ ∨ ¬ _ ≤ 57
  omega

theorem integerPart_eq_zero (h : c.isDigit = false) : integerPart (c :: cs) = 0 := by
  have hzero : c ≠ '0' := by rintro rfl; cases h
  simp [integerPart, nonzero_isDigit h, hzero]

theorem number_eq_zero (h : c.isDigit = false) (hpoint : c ≠ '.') : number (c :: cs) = 0 := by
  have hzero : c ≠ '0' := by rintro rfl; cases h
  have hwhole : integerPart (c :: cs) = 0 := integerPart_eq_zero h
  have hdigits : digits Char.isDigit (c :: cs) = 0 := by rw [digits, h]; rfl
  rw [number_eq, inBase_eq_zero hzero, pointed, bare_eq_zero hpoint, scaled, hwhole, hdigits]
  simp [withBigSuffix]

theorem pointedDigits_eq_zero (h : c.isDigit = false) : pointedDigits (c :: cs) = 0 := by
  have hspan : span Char.isDigit (c :: cs) = 0 := by rw [span, List.takeWhile_cons, h]; rfl
  rw [pointedDigits, hspan]
  rfl

theorem string_eq_zero (h : c ≠ '"') (h' : c ≠ '\'') : string (c :: cs) = 0 := by
  simp [string, h, h']

theorem symbol_eq_empty (h : punctuation.contains c = false) : symbol (c :: cs) = "" := by
  simp only [symbol, h]
  rfl

theorem comment_eq_zero (h : c ≠ '/') : comment (c :: cs) = 0 := by
  unfold comment
  split <;> simp_all

/-! ## Symbols -/

/-- The characters of which the symbols of expressions are made. -/
def signs : List Char := "()[],.?:!~+-*/%&|^<>=".toList

theorem signs_spec : ∀ c ∈ signs, isBlank c = false ∧ isIdentifierChar c = false ∧ c ≠ '\\' ∧
    c.isDigit = false ∧ c ≠ '"' ∧ c ≠ '\'' :=
  List.all_iff_forall_prop.mp (by decide)

/-- A symbol ends where the longest symbol ends, unless its point begins a number or its slash begins
a comment. -/
theorem lex_symbol {s : String} (hs : s.toList = c :: cs) (hc : c ∈ signs)
    (hsymbol : symbol (s.toList ++ rest) = s) (hnumber : number (s.toList ++ rest) = 0)
    (hcomment : comment (s.toList ++ rest) = 0) : lex (s.toList ++ rest) = s :: lex rest := by
  obtain ⟨hblank, hidentifier, hescape, hdigit, hquote, hquote'⟩ := signs_spec c hc
  refine lex_append hs hblank hcomment ?_
  have hlength : s.length = (s.toList).length := rfl
  rw [tokenLength, hsymbol, hnumber, hlength, hs, List.cons_append, identifier_eq_zero hidentifier hescape,
    pointedDigits_eq_zero hdigit, string_eq_zero hquote hquote']
  simp only [List.foldl, List.length_cons]
  omega

/-- Symbols behind which anything may come. -/
def closedSymbols : List String := ["(", ")", "[", "]", ",", ":", "~", "?."]

theorem lex_closedSymbol {s : String} (hs : s ∈ closedSymbols) (rest : List Char) :
    lex (s.toList ++ rest) = s :: lex rest := by
  simp only [closedSymbols, List.mem_cons, List.not_mem_nil, or_false] at hs
  rcases hs with rfl | rfl | rfl | rfl | rfl | rfl | rfl | rfl <;>
    exact lex_symbol rfl (by decide) rfl (number_eq_zero rfl (by decide)) (comment_eq_zero (by decide))

/-- Symbols of binary operators. -/
def operatorSymbols : List String :=
  ["??", "||", "&&", "|", "^", "&", "==", "!=", "===", "!==", "<", ">", "<=", ">=", "<<", ">>",
    ">>>", "+", "-", "*", "/", "%", "**"]

theorem lex_operatorSymbol {op : String} (hop : op ∈ operatorSymbols) (rest : List Char) :
    lex (op.toList ++ ' ' :: rest) = op :: lex (' ' :: rest) := by
  simp only [operatorSymbols, List.mem_cons, List.not_mem_nil, or_false] at hop
  rcases hop with rfl | rfl | rfl | rfl | rfl | rfl | rfl | rfl | rfl | rfl | rfl | rfl | rfl | rfl |
    rfl | rfl | rfl | rfl | rfl | rfl | rfl | rfl | rfl <;>
    exact lex_symbol rfl (by decide) rfl (number_eq_zero rfl (by decide)) rfl

theorem lex_question (rest : List Char) : lex ('?' :: ' ' :: rest) = "?" :: lex (' ' :: rest) :=
  lex_symbol (s := "?") rfl (by decide) rfl (number_eq_zero rfl (by decide)) rfl

/-- A character is read alone if no longer symbol begins with it and the next one. -/
theorem symbol_alone {a : Char} (ha : punctuation.contains a = true)
    (h : ∀ s ∈ longSymbols, s.toList.head? = some a → s.toList[1]? ≠ some c) :
    symbol (a :: c :: rest) = a.toString := by
  have hnone : longSymbols.find? (fun s => s.toList.isPrefixOf (a :: c :: rest)) = none := by
    refine List.find?_eq_none.mpr fun s hs hprefix => ?_
    have hlong : ∀ s ∈ longSymbols, 2 ≤ s.toList.length := by decide
    have hlong := hlong s hs
    match hlist : s.toList, hlong with
    | x :: y :: tail, _ =>
      simp only [hlist, List.isPrefixOf, Bool.and_eq_true, beq_iff_eq] at hprefix
      obtain ⟨rfl, rfl, _⟩ := hprefix
      exact h s hs (by rw [hlist]; rfl) (by rw [hlist]; rfl)
  simp only [symbol, ha, hnone]
  rfl

/-- A sign is not read together with what is behind it, unless that begins with an equals sign or the
same sign. -/
theorem lex_sign {op : String} {a : Char} (hop : op.toList = [a]) (ha : a ∈ ['!', '+', '-'])
    (hequals : c ≠ '=') (hsame : a = '!' ∨ a ≠ c) :
    lex (op.toList ++ c :: rest) = op :: lex (c :: rest) := by
  have hsigns : ∀ a ∈ ['!', '+', '-'], a ∈ signs ∧ punctuation.contains a = true ∧
      a.isDigit = false ∧ a ≠ '.' ∧ a ≠ '/' := List.all_iff_forall_prop.mp (by decide)
  have hlonger : ∀ a ∈ ['!', '+', '-'], ∀ s ∈ longSymbols, s.toList.head? = some a →
      s.toList[1]? = some '=' ∨ s.toList[1]? = some a ∧ a ≠ '!' :=
    List.all_iff_forall_prop.mp (by decide)
  obtain ⟨hsign, hpunctuation, hdigit, hpoint, hslash⟩ := hsigns a ha
  refine lex_symbol hop hsign ?_ (by rw [hop]; exact number_eq_zero hdigit hpoint)
    (by rw [hop]; exact comment_eq_zero hslash)
  have htext : a.toString = op := by rw [← String.ofList_toList (s := op), hop]; rfl
  rw [hop, ← htext]
  refine symbol_alone hpunctuation fun s hs hhead hnext => ?_
  rcases hlonger a ha s hs hhead with hlong | ⟨hlong, hne⟩
  · exact hequals (Option.some.inj (hnext.symm.trans hlong))
  · exact hsame.resolve_left hne (Option.some.inj (hlong.symm.trans hnext))

theorem lex_point (hdigit : c.isDigit = false) (hpoint : c ≠ '.') :
    lex ('.' :: c :: rest) = "." :: lex (c :: rest) := by
  have hlonger : ∀ s ∈ longSymbols, s.toList.head? = some '.' → s.toList[1]? = some '.' := by decide
  have hnumber : number ('.' :: c :: rest) = 0 := by
    have hdigits : digits Char.isDigit (c :: rest) = 0 := by rw [digits, hdigit]; rfl
    rw [number_eq, inBase_eq_zero (by decide), pointed, bare, scaled, integerPart_eq_zero rfl,
      hdigits]
    rfl
  refine lex_symbol (s := ".") rfl (by decide) (symbol_alone rfl fun s hs hhead hnext => ?_)
    hnumber (comment_eq_zero (by decide))
  exact hpoint (Option.some.inj (hnext.symm.trans (hlonger s hs hhead)))

/-! ## Identifiers -/

/-- The text is an identifier or a keyword. -/
def IsIdentifier (w : String) : Prop := w ≠ "" ∧ identifier w.toList = w.toList.length

theorem span_append {p : Char → Bool} (w : List Char) (h : ∀ c ∈ rest.head?, p c = false) :
    span p (w ++ rest) = span p w := by
  have hrest : rest.takeWhile p = [] := by
    cases rest with
    | nil => rfl
    | cons c rest => rw [List.takeWhile_cons, h c rfl]; rfl
  rw [span, span, List.takeWhile_append, hrest]
  split
  next hall => rw [List.append_nil, hall]
  next => rfl

/-- A stretch that ends inside a text ends there whatever is put behind the text. -/
theorem span_append_of_head {p : Char → Bool} {d : Char} {w : List Char}
    (h : (w.drop (span p w)).head? = some d) (rest : List Char) :
    span p (w ++ rest) = span p w ∧ span p w < w.length := by
  have hlt : span p w < w.length := by
    refine Nat.lt_of_not_le fun hle => ?_
    rw [List.drop_eq_nil_of_le hle] at h
    cases h
  refine ⟨?_, hlt⟩
  rw [span] at hlt ⊢
  rw [List.takeWhile_append, if_neg (Nat.ne_of_lt hlt)]
  rfl

theorem unicodeEscape_braced {r : List Char} (hne : span isHex r ≠ 0)
    (hclosed : (r.drop (span isHex r)).head? = some '\x7d') :
    unicodeEscape ('\\' :: 'u' :: '\x7b' :: r) = span isHex r + 4 := by
  simp [unicodeEscape, hne, hclosed]

theorem unicodeEscape_four {d : Char} {r : List Char} (hd : d ≠ '\x7b')
    (hhex : span isHex ((d :: r).take 4) = 4) : unicodeEscape ('\\' :: 'u' :: d :: r) = 6 := by
  rw [unicodeEscape, if_pos (beq_iff_eq.mpr hhex)]
  intro r' h
  cases h
  exact hd rfl

theorem unicodeEscape_cases {w : List Char} (h : unicodeEscape w ≠ 0) :
    (∃ r, w = '\\' :: 'u' :: '\x7b' :: r ∧ span isHex r ≠ 0 ∧
      (r.drop (span isHex r)).head? = some '\x7d') ∨
    ∃ d r, w = '\\' :: 'u' :: d :: r ∧ d ≠ '\x7b' ∧ span isHex ((d :: r).take 4) = 4 := by
  unfold unicodeEscape at h
  split at h
  next r =>
    exact .inl ⟨r, rfl, by simpa using h⟩
  next r hbrace =>
    cases r with
    | nil => exact absurd rfl h
    | cons d r =>
      exact .inr ⟨d, r, rfl, fun hd => hbrace r (by rw [hd]), by simpa using h⟩
  next => exact absurd rfl h

/-- An escape is read whatever is put behind it. -/
theorem unicodeEscape_append {w : List Char} (h : unicodeEscape w ≠ 0) (rest : List Char) :
    unicodeEscape (w ++ rest) = unicodeEscape w ∧ unicodeEscape w ≤ w.length := by
  obtain ⟨r, rfl, hne, hclosed⟩ | ⟨d, r, rfl, hd, hhex⟩ := unicodeEscape_cases h
  · obtain ⟨hspan, hlt⟩ := span_append_of_head hclosed rest
    have hclosed' : ((r ++ rest).drop (span isHex (r ++ rest))).head? = some '\x7d' := by
      rw [hspan, List.drop_append_of_le_length (Nat.le_of_lt hlt), List.head?_append, hclosed]
      rfl
    rw [unicodeEscape_braced hne hclosed, List.cons_append, List.cons_append, List.cons_append,
      unicodeEscape_braced (by rwa [hspan]) hclosed', hspan]
    exact ⟨rfl, by simp only [List.length_cons]; omega⟩
  · have hlength : 4 ≤ (d :: r).length := by
      have hle : span isHex ((d :: r).take 4) ≤ ((d :: r).take 4).length :=
        (List.takeWhile_sublist _).length_le
      rw [hhex, List.length_take] at hle
      omega
    have htake : ((d :: r) ++ rest).take 4 = (d :: r).take 4 :=
      List.take_append_of_le_length hlength
    rw [unicodeEscape_four hd hhex, List.cons_append, List.cons_append, List.cons_append,
      unicodeEscape_four hd (by rw [← List.cons_append, htake, hhex])]
    exact ⟨rfl, by simp only [List.length_cons] at hlength ⊢; omega⟩

theorem identifierPart_append {w : List Char} (h : identifierPart w ≠ 0) (rest : List Char) :
    identifierPart (w ++ rest) = identifierPart w ∧ identifierPart w ≤ w.length := by
  cases w with
  | nil => exact absurd rfl h
  | cons c cs =>
    rw [identifierPart] at h
    rw [List.cons_append, identifierPart, identifierPart]
    split at h
    next hc => rw [if_pos hc, if_pos hc]; exact ⟨rfl, Nat.succ_pos _⟩
    next hc =>
      rw [if_neg hc, if_neg hc, ← List.cons_append]
      exact unicodeEscape_append h rest

theorem isIdentifierSign_eq_false (h : isIdentifierSign c = false) :
    isIdentifierChar c = false ∧ c ≠ '\\' := by
  simp only [isIdentifierSign, Bool.or_eq_false_iff, beq_eq_false_iff_ne] at h
  exact ⟨h.1.1.1, h.1.1.2⟩

theorem identifierRest_append (hrest : ∀ c ∈ rest.head?, isIdentifierSign c = false) (fuel : Nat)
    {w : List Char} (h : identifierRest fuel w = w.length) :
    identifierRest fuel (w ++ rest) = w.length := by
  induction fuel generalizing w with
  | zero =>
    obtain rfl := List.length_eq_zero_iff.mp h.symm
    rfl
  | succ fuel ih =>
    by_cases hpart : identifierPart w = 0
    -- nothing is left of the word, and what is behind it does not go on with it
    · obtain rfl : w = [] := by
        rw [identifierRest, hpart] at h
        exact List.length_eq_zero_iff.mp h.symm
      have hnone : identifierPart rest = 0 := by
        cases rest with
        | nil => rfl
        | cons c rest =>
          obtain ⟨hchar, hescape⟩ := isIdentifierSign_eq_false (hrest c rfl)
          exact identifierPart_eq_zero hchar hescape
      rw [List.nil_append, identifierRest, hnone]
      rfl
    · obtain ⟨hsame, hle⟩ := identifierPart_append hpart rest
      have hne : (identifierPart w == 0) = false := beq_eq_false_iff_ne.mpr hpart
      simp only [identifierRest, hne, hsame, Bool.false_eq_true, if_false] at h ⊢
      rw [List.drop_append_of_le_length hle, ih (by rw [List.length_drop]; omega), List.length_drop]
      omega

theorem identifier_append {w : List Char} (h : identifier w = w.length)
    (hrest : ∀ c ∈ rest.head?, isIdentifierSign c = false) (hne : w ≠ []) :
    identifier (w ++ rest) = w.length := by
  cases w with
  | nil => exact absurd rfl hne
  | cons c cs =>
    rw [List.cons_append, identifier]
    rw [identifier] at h
    split at h
    next => cases h
    next hdigit =>
      rw [if_neg hdigit, ← List.cons_append, span_append _ hrest]
      exact identifierRest_append hrest _ h

theorem head_of_identifier {cs : List Char} (h : identifier (c :: cs) ≠ 0) :
    c.isDigit = false ∧ (isIdentifierChar c = true ∨ c = '\\') := by
  constructor
  · cases hdigit : c.isDigit with
    | false => rfl
    | true => rw [identifier, hdigit] at h; exact absurd rfl h
  · cases hchar : isIdentifierChar c with
    | true => exact .inl rfl
    | false => exact .inr (Decidable.byContradiction fun hescape =>
        h (identifier_eq_zero hchar hescape))

theorem isIdentifierChar_spec (h : isIdentifierChar c = true) :
    isBlank c = false ∧ punctuation.contains c = false := by
  simp only [isIdentifierChar, Bool.and_eq_true, Bool.not_eq_true'] at h
  exact ⟨h.1.2, h.2⟩

theorem ne_of_isIdentifierChar (h : isIdentifierChar c = true) {d : Char} (hd : d ∈ punctuation) :
    c ≠ d := by
  rintro rfl
  have hnot := (isIdentifierChar_spec h).2
  rw [List.contains_eq_mem, decide_eq_false_iff_not] at hnot
  exact hnot hd

theorem IsIdentifier.head {w : String} (h : IsIdentifier w) : ∃ c cs, w.toList = c :: cs ∧
    c.isDigit = false ∧ (isIdentifierChar c = true ∨ c = '\\') := by
  obtain ⟨hne, hlength⟩ := h
  cases hlist : w.toList with
  | nil => exact absurd (String.toList_eq_nil_iff.mp hlist) hne
  | cons c cs =>
    rw [hlist] at hlength
    exact ⟨c, cs, rfl, head_of_identifier (by rw [hlength]; exact Nat.succ_ne_zero _)⟩

/-- An identifier ends where no character comes that could continue it. -/
theorem lex_identifier {w : String} (hw : IsIdentifier w)
    (hrest : ∀ c ∈ rest.head?, isIdentifierSign c = false) :
    lex (w.toList ++ rest) = w :: lex rest := by
  obtain ⟨c, cs, hlist, hdigit, hhead⟩ := hw.head
  have hidentifier := identifier_append hw.2 hrest (by rw [hlist]; exact List.cons_ne_nil _ _)
  -- the symbol that a backslash would be alone is no longer than the identifier
  obtain ⟨hblank, hpoint, hslash, hquote, hquote', hsymbol⟩ : isBlank c = false ∧ c ≠ '.' ∧
      c ≠ '/' ∧ c ≠ '"' ∧ c ≠ '\'' ∧ (symbol (c :: (cs ++ rest))).length ≤ 1 := by
    rcases hhead with hchar | rfl
    · obtain ⟨hblank, hpunctuation⟩ := isIdentifierChar_spec hchar
      refine ⟨hblank, ne_of_isIdentifierChar hchar (by decide),
        ne_of_isIdentifierChar hchar (by decide), ne_of_isIdentifierChar hchar (by decide),
        ne_of_isIdentifierChar hchar (by decide), ?_⟩
      rw [symbol_eq_empty hpunctuation]
      exact Nat.zero_le _
    · have hsymbol : symbol ('\\' :: (cs ++ rest)) = "\\" := rfl
      rw [hsymbol]
      decide
  refine lex_append hlist hblank (by rw [hlist]; exact comment_eq_zero hslash) ?_
  rw [tokenLength, hidentifier, hlist, List.cons_append, number_eq_zero hdigit hpoint,
    pointedDigits_eq_zero hdigit, string_eq_zero hquote hquote']
  simp only [List.foldl, List.length_cons]
  omega

theorem identifierRest_of_chars {w : List Char} (h : ∀ c ∈ w, isIdentifierChar c = true) :
    identifierRest w.length w = w.length := by
  induction w with
  | nil => rfl
  | cons c w ih =>
    obtain ⟨hc, hw⟩ := List.forall_mem_cons.mp h
    have hpart : identifierPart (c :: w) = 1 := by rw [identifierPart, if_pos hc]
    rw [List.length_cons, identifierRest, hpart]
    simp only [List.drop_one, List.tail_cons, ih hw]
    exact Nat.add_comm 1 _

theorem isIdentifierChar_of_ascii (h : c.isAlphanum = true ∨ c = '_' ∨ c = '$') :
    isIdentifierChar c = true := by
  have hnot : ∀ d ∈ punctuation, ¬ (d.isAlphanum = true ∨ d = '_' ∨ d = '$') :=
    List.all_iff_forall_prop.mp (by decide)
  have hpunctuation : punctuation.contains c = false := by
    rw [List.contains_eq_mem, decide_eq_false_iff_not]
    exact fun hmem => hnot c hmem h
  have hrange : 0x24 ≤ c.toNat ∧ c.toNat ≤ 0x7A := by
    rcases h with h | rfl | rfl
    · change ((decide (c.val ≥ 65 ∧ c.val ≤ 90) ||
        decide (c.val ≥ 97) && decide (c.val ≤ 122)) ||
          decide (c.val ≥ 48) && decide (c.val ≤ 57)) = true at h
      simp only [Bool.or_eq_true, Bool.and_eq_true, decide_eq_true_eq, UInt32.le_iff_toNat_le,
        ge_iff_le] at h
      change (65 ≤ c.toNat ∧ c.toNat ≤ 90 ∨ 97 ≤ c.toNat ∧ c.toNat ≤ 122) ∨
        48 ≤ c.toNat ∧ c.toNat ≤ 57 at h
      omega
    · decide
    · decide
  have hblank : isBlank c = false := by
    simp [isBlank, Text.inRanges, blankRanges]
    omega
  simp only [isIdentifierChar, hblank, hpunctuation, Bool.and_eq_true, decide_eq_true_eq]
  exact ⟨⟨by omega, rfl⟩, rfl⟩

theorem isIdentifier_of_ascii {w : String} (hne : w ≠ "")
    (hhead : ∀ c ∈ w.toList.head?, c.isDigit = false)
    (hw : ∀ c ∈ w.toList, c.isAlphanum = true ∨ c = '_' ∨ c = '$') : IsIdentifier w := by
  have hchars : ∀ c ∈ w.toList, isIdentifierChar c = true :=
    fun c hc => isIdentifierChar_of_ascii (hw c hc)
  refine ⟨hne, ?_⟩
  have hne : w.toList ≠ [] := by simpa using hne
  generalize w.toList = cs at hne hhead hchars
  cases cs with
  | nil => exact absurd rfl hne
  | cons c cs =>
    have hspan : span isIdentifierSign (c :: cs) = (c :: cs).length := by
      have hall : ((c :: cs) ++ []).takeWhile isIdentifierSign = (c :: cs) ++ [] :=
        List.takeWhile_append_of_pos fun d hd => by simp [isIdentifierSign, hchars d hd]
      rw [List.append_nil] at hall
      rw [span, hall]
    rw [identifier, hhead c rfl, hspan]
    exact identifierRest_of_chars hchars

/-! ## Numbers -/

/-- The text is a run of digits. -/
def IsDigits (v : String) : Prop := v ≠ "" ∧ ∀ c ∈ v.toList, c.isDigit = true

theorem mem_of_isDigit (h : c.isDigit = true) : c ∈ "0123456789".toList := by
  simp only [Char.isDigit, UInt32.le_iff_toNat_le, ge_iff_le, Bool.and_eq_true,
    decide_eq_true_eq] at h
  change 48 ≤ c.toNat ∧ c.toNat ≤ 57 at h
  rw [← Char.ofNat_toNat c]
  have hcases : c.toNat = 48 ∨ c.toNat = 49 ∨ c.toNat = 50 ∨ c.toNat = 51 ∨ c.toNat = 52 ∨
      c.toNat = 53 ∨ c.toNat = 54 ∨ c.toNat = 55 ∨ c.toNat = 56 ∨ c.toNat = 57 := by omega
  rcases hcases with h | h | h | h | h | h | h | h | h | h <;> rw [h] <;> decide

/-- The characters other than digits that a number may contain. -/
def numberMarks : List Char := ['.', '_', 'n', 'e', 'E', 'x', 'X', 'o', 'O', 'b', 'B']

theorem ne_of_not_mark (h : c ∉ numberMarks) {d : Char} (hd : d ∈ numberMarks) : c ≠ d := by
  rintro rfl
  exact h hd

theorem digit_spec (h : c.isDigit = true) : isBlank c = false ∧ punctuation.contains c = false ∧
    c ∉ numberMarks := by
  have hall : ∀ c ∈ "0123456789".toList, isBlank c = false ∧ punctuation.contains c = false ∧
      c ∉ numberMarks := List.all_iff_forall_prop.mp (by decide)
  exact hall c (mem_of_isDigit h)

/-- What may come behind a number: nothing that could be read as a part of it. -/
def EndsNumber (c : Char) : Prop := isIdentifierSign c = false ∧ c ≠ '.'

theorem moreDigits_cons {p : Char → Bool} (h : p c = true) :
    moreDigits p (c :: cs) = 1 + moreDigits p cs := by
  cases cs <;> simp [moreDigits, h]

theorem moreDigits_append {w : List Char} (hw : ∀ c ∈ w, c.isDigit = true)
    (hrest : ∀ c ∈ rest.head?, c.isDigit = false ∧ c ≠ '_') :
    moreDigits Char.isDigit (w ++ rest) = w.length := by
  induction w with
  | nil =>
    cases rest with
    | nil => rfl
    | cons c rest =>
      obtain ⟨hdigit, hunderscore⟩ := hrest c rfl
      cases rest <;> simp [moreDigits, hdigit, hunderscore]
  | cons c w ih =>
    obtain ⟨hc, hw⟩ := List.forall_mem_cons.mp hw
    rw [List.cons_append, moreDigits_cons hc, ih hw, List.length_cons, Nat.add_comm]

theorem endsNumber_spec (h : EndsNumber c) : c.isDigit = false ∧ c ∉ numberMarks := by
  have hdigits : ∀ c ∈ "0123456789".toList, isIdentifierSign c = true :=
    List.all_iff_forall_prop.mp (by decide)
  have hmarks : ∀ c ∈ numberMarks, c = '.' ∨ isIdentifierSign c = true :=
    List.all_iff_forall_prop.mp (by decide)
  constructor
  · refine Bool.eq_false_iff.mpr fun hdigit => ?_
    exact Bool.noConfusion ((hdigits c (mem_of_isDigit hdigit)).symm.trans h.1)
  · intro hmem
    rcases hmarks c hmem with hpoint | hsign
    · exact h.2 hpoint
    · exact Bool.noConfusion (hsign.symm.trans h.1)

theorem exponent_eq_zero (h : ∀ c ∈ cs.head?, c ∉ numberMarks) : exponent cs = 0 := by
  cases cs with
  | nil => rfl
  | cons c cs =>
    have hne := fun d => ne_of_not_mark (h c rfl) (d := d)
    simp [exponent, hne 'e' (by decide), hne 'E' (by decide)]

theorem based_eq_zero (h : ∀ c ∈ cs.head?, c ∉ numberMarks) : based cs = 0 := by
  cases cs with
  | nil => rfl
  | cons c cs =>
    have hne := fun d => ne_of_not_mark (h c rfl) (d := d)
    simp [based, hne 'x' (by decide), hne 'X' (by decide), hne 'o' (by decide),
      hne 'O' (by decide), hne 'b' (by decide), hne 'B' (by decide)]

section
variable {w : List Char} (hw : ∀ c ∈ w, c.isDigit = true) (hrest : ∀ c ∈ rest.head?, EndsNumber c)
include hw hrest

theorem moreDigits_digits : moreDigits Char.isDigit (w ++ rest) = w.length := by
  refine moreDigits_append hw fun c hc => ?_
  obtain ⟨hdigit, hnot⟩ := endsNumber_spec (hrest c hc)
  exact ⟨hdigit, fun h => hnot (by rw [h]; decide)⟩

/-- Inside a run of digits and right behind it there is no mark. -/
theorem head_drop_digits {n : Nat} (hn : n ≤ w.length) :
    ∀ c ∈ ((w ++ rest).drop n).head?, c ∉ numberMarks := by
  intro c hc
  rw [List.drop_append_of_le_length hn] at hc
  cases hdrop : w.drop n with
  | nil =>
    rw [hdrop, List.nil_append] at hc
    exact (endsNumber_spec (hrest c hc)).2
  | cons d ds =>
    rw [hdrop] at hc
    cases hc
    exact (digit_spec (hw c (List.mem_of_mem_drop (hdrop ▸ List.mem_cons_self)))).2.2

theorem integerPart_le : integerPart (w ++ rest) ≤ w.length := by
  cases w with
  | nil =>
    cases rest with
    | nil => exact Nat.le_refl 0
    | cons c rest =>
      rw [List.nil_append, integerPart_eq_zero (endsNumber_spec (hrest c rfl)).1]
      exact Nat.le_refl 0
  | cons c w =>
    obtain ⟨_, hw'⟩ := List.forall_mem_cons.mp hw
    simp only [integerPart, List.cons_append]
    split
    next => rw [moreDigits_digits hw' hrest, List.length_cons]; omega
    next =>
      split
      next =>
        cases w with
        | nil =>
          -- the digit behind the zero would be the character behind the number
          cases rest with
          | nil => exact Nat.le_refl 1
          | cons d rest =>
            simp [nonzero_isDigit (endsNumber_spec (hrest d rfl)).1]
        | cons d w =>
          obtain ⟨_, hw''⟩ := List.forall_mem_cons.mp hw'
          simp only [List.cons_append, moreDigits_digits hw'' hrest, List.length_cons]
          split <;> omega
      next => exact Nat.zero_le _

/-- A run of digits is the longest number at its start. -/
theorem number_digits (hne : w ≠ []) : number (w ++ rest) = w.length := by
  -- of the forms of a number only the plain one applies: all others need a mark in the digits or
  -- right behind them
  have hle := integerPart_le hw hrest
  have hmark := head_drop_digits hw hrest hle
  have hpointed : pointed (w ++ rest) = 0 := by
    rw [pointed, if_neg]
    intro h
    simp only [Bool.and_eq_true, beq_iff_eq] at h
    exact hmark '.' h.2 (by decide)
  have hscaled : scaled (w ++ rest) = 0 := by
    rw [scaled, exponent_eq_zero hmark]
    simp
  have hinBase : inBase (w ++ rest) = 0 := by
    have htail := head_drop_digits hw hrest (n := 1) (List.length_pos_iff.mpr hne)
    unfold inBase
    split
    next tail heq =>
      rw [heq, List.drop_one, List.tail_cons] at htail
      rw [based_eq_zero htail]
      rfl
    next => rfl
  have hplain : withBigSuffix (digits Char.isDigit (w ++ rest)) (w ++ rest) = w.length := by
    have hdigits : digits Char.isDigit (w ++ rest) = w.length := by
      cases w with
      | nil => exact absurd rfl hne
      | cons c w =>
        obtain ⟨hc, hw'⟩ := List.forall_mem_cons.mp hw
        rw [List.cons_append, digits, if_pos hc, moreDigits_digits hw' hrest, List.length_cons,
          Nat.add_comm]
    rw [hdigits, withBigSuffix, if_neg]
    intro h
    simp only [Bool.and_eq_true, beq_iff_eq] at h
    exact head_drop_digits hw hrest (Nat.le_refl _) 'n' h.2 (by decide)
  have hbare : bare (w ++ rest) = 0 := by
    cases w with
    | nil => exact absurd rfl hne
    | cons c w =>
      exact bare_eq_zero (ne_of_not_mark (digit_spec (hw c List.mem_cons_self)).2.2 (by decide))
  rw [number_eq, hinBase, hpointed, hbare, hscaled, hplain]
  simp

theorem pointedDigits_digits : pointedDigits (w ++ rest) = 0 := by
  have hspan : span Char.isDigit (w ++ rest) = w.length := by
    have hall : (w ++ []).takeWhile Char.isDigit = w ++ [] := List.takeWhile_append_of_pos hw
    rw [List.append_nil] at hall
    rw [span_append w fun c hc => (endsNumber_spec (hrest c hc)).1, span, hall]
  rw [pointedDigits, hspan, if_neg]
  intro h
  simp only [Bool.and_eq_true, beq_iff_eq] at h
  exact head_drop_digits hw hrest (Nat.le_refl _) '.' h.2 (by decide)

end

/-- A run of digits ends where no character comes that could continue a number. -/
theorem lex_digits {v : String} (hv : IsDigits v) (hrest : ∀ c ∈ rest.head?, EndsNumber c) :
    lex (v.toList ++ rest) = v :: lex rest := by
  obtain ⟨hne, hv⟩ := hv
  have hne : v.toList ≠ [] := by simpa using hne
  have hnumber := number_digits hv hrest hne
  have hpointed := pointedDigits_digits hv hrest
  cases hlist : v.toList with
  | nil => exact absurd hlist hne
  | cons c cs =>
    rw [hlist] at hnumber hpointed hv
    have hdigit := hv c List.mem_cons_self
    obtain ⟨hblank, hpunctuation, _⟩ := digit_spec hdigit
    have hne : ∀ d ∈ punctuation, c ≠ d := by
      rintro d hd rfl
      rw [List.contains_eq_mem, decide_eq_false_iff_not] at hpunctuation
      exact hpunctuation hd
    rw [← hlist]
    refine lex_append hlist hblank
      (by rw [hlist]; exact comment_eq_zero (hne '/' (by decide))) ?_
    have hidentifier : identifier (c :: (cs ++ rest)) = 0 := by rw [identifier, if_pos hdigit]
    rw [hlist, tokenLength, hnumber, hpointed, List.cons_append, hidentifier,
      string_eq_zero (hne '"' (by decide)) (hne '\'' (by decide)), symbol_eq_empty hpunctuation]
    simp only [List.foldl, List.length_cons, String.length_empty]
    omega

/-! ## Strings -/

/-- The text is a string in quotes that contains no such quote, no escape and no line break. -/
def IsQuoted (v : String) : Prop :=
  ∃ quote content, (quote = '"' ∨ quote = '\'') ∧ v.toList = quote :: (content ++ [quote]) ∧
    ∀ c ∈ content, c ≠ quote ∧ c ≠ '\\' ∧ c ≠ '\n' ∧ c ≠ '\r'

theorem stringRest_content {quote : Char} {content : List Char}
    (h : ∀ c ∈ content, c ≠ quote ∧ c ≠ '\\' ∧ c ≠ '\n' ∧ c ≠ '\r') {fuel : Nat}
    (hfuel : content.length < fuel) :
    stringRest quote fuel (content ++ quote :: rest) = content.length + 1 := by
  induction content generalizing fuel with
  | nil =>
    cases fuel with
    | zero => cases hfuel
    | succ fuel => simp [stringRest]
  | cons c content ih =>
    obtain ⟨⟨hquote, hescape, hbreak, hreturn⟩, h⟩ := List.forall_mem_cons.mp h
    cases fuel with
    | zero => cases hfuel
    | succ fuel =>
      have hrest := ih h (Nat.lt_of_succ_lt_succ hfuel)
      simp [stringRest, hquote, hescape, hbreak, hreturn, hrest]
      omega

theorem lex_quoted {v : String} (hv : IsQuoted v) (rest : List Char) :
    lex (v.toList ++ rest) = v :: lex rest := by
  obtain ⟨quote, content, hquote, hlist, hcontent⟩ := hv
  have hstring : string (quote :: (content ++ quote :: rest)) = content.length + 2 := by
    have hinside : stringRest quote (quote :: (content ++ quote :: rest)).length
        (content ++ quote :: rest) = content.length + 1 :=
      stringRest_content hcontent (by rw [List.length_cons, List.length_append]; omega)
    have hopens : (quote == '"' || quote == '\'') = true := by rcases hquote with rfl | rfl <;> rfl
    rw [string, if_pos hopens, hinside]
    rfl
  have happend : v.toList ++ rest = quote :: (content ++ quote :: rest) := by simp [hlist]
  have hother : isBlank quote = false ∧ isIdentifierChar quote = false ∧ quote ≠ '\\' ∧
      quote.isDigit = false ∧ quote ≠ '.' ∧ quote ≠ '/' := by
    rcases hquote with rfl | rfl <;> decide
  have hsymbol : (symbol (quote :: (content ++ quote :: rest))).length = 1 := by
    rcases hquote with rfl | rfl
    · exact (rfl : ("\"" : String).length = 1)
    · exact (rfl : ("'" : String).length = 1)
  obtain ⟨hblank, hidentifier, hescape, hdigit, hpoint, hslash⟩ := hother
  refine lex_append hlist hblank (by rw [happend]; exact comment_eq_zero hslash) ?_
  rw [happend, tokenLength, hstring, hsymbol, identifier_eq_zero hidentifier hescape,
    number_eq_zero hdigit hpoint, pointedDigits_eq_zero hdigit, hlist]
  simp only [List.foldl, List.length_cons, List.length_append, List.length_nil]
  omega

end CondUnfold.Lexing
