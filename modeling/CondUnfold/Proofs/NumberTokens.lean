import CondUnfold.Proofs.ExprTokens
import Mathlib.Data.List.Basic

/-!
# Members of numbers

Behind an integer in base ten a point belongs to the number, behind any other number it does not.
Here the numbers are those of the language (`Numeral`), with separators, legacy forms and all, and a
text is cut by the rule itself: a token is the longest one that begins where it begins
(`LongestToken`). A member access of a number keeps the two apart by parentheses if the number is a
run of digits. That leaves out the integers with separators, and only these
(`Expr.member_keeps_number_iff`).
-/

namespace CondUnfold

namespace Lexing

open Lexeme

/-! ## Numbers of the language -/

/-- Digits of a class, with single underscores between some of them. -/
inductive DigitRun (p : Char → Bool) : List Char → Prop where
  | one : p c = true → DigitRun p [c]
  | cons : p c = true → DigitRun p cs → DigitRun p (c :: cs)
  | separate : p c = true → DigitRun p cs → DigitRun p (c :: '_' :: cs)

/-- Zero, or an integer that does not begin with a zero. -/
inductive PlainInteger : List Char → Prop where
  | zero : PlainInteger ['0']
  | nonzero : c ≠ '0' → DigitRun Char.isDigit (c :: cs) → PlainInteger (c :: cs)

/-- An integer in base ten. Behind a zero this takes a digit that is not octal. -/
inductive DecimalInteger : List Char → Prop where
  | plain : PlainInteger cs → DecimalInteger cs
  | afterZero : (∀ d ∈ ds, d.isDigit = true) → (∃ d ∈ ds, isOctal d = false) →
    DecimalInteger ('0' :: ds)

/-- An exponent, which may be absent. -/
inductive Exponent : List Char → Prop where
  | absent : Exponent []
  | present : e ∈ ['e', 'E'] → sign ∈ [[], ['+'], ['-']] → DigitRun Char.isDigit ds →
    Exponent (e :: (sign ++ ds))

/-- The letters of other bases, with the digits of the base. -/
def bases : List (Char × (Char → Bool)) :=
  [('x', isHex), ('X', isHex), ('o', isOctal), ('O', isOctal), ('b', isBinary), ('B', isBinary)]

/-- A number. -/
inductive Numeral : List Char → Prop where
  | integer : DecimalInteger i → Exponent x → Numeral (i ++ x)
  | pointed : DecimalInteger i → ds = [] ∨ DigitRun Char.isDigit ds → Exponent x →
    Numeral (i ++ '.' :: (ds ++ x))
  | bare : DigitRun Char.isDigit ds → Exponent x → Numeral ('.' :: (ds ++ x))
  | big : PlainInteger i → Numeral (i ++ ['n'])
  | based : (b, p) ∈ bases → DigitRun p ds → big ∈ [[], ['n']] → Numeral ('0' :: b :: (ds ++ big))
  | octal : ds ≠ [] → (∀ d ∈ ds, isOctal d = true) → Numeral ('0' :: ds)

/-- A decimal integer that is not a mere run of digits. -/
def SeparatedInteger (v : String) : Prop := DecimalInteger v.toList ∧ '_' ∈ v.toList

/-! ## Tokens of the language -/

/-- A symbol of one or more characters. -/
def IsSymbol (w : String) : Prop := w ∈ longSymbols ∨ ∃ c ∈ punctuation, w.toList = [c]

/-- The text is a token if `rest` comes behind it. Only for the optional access this matters: before a
digit, `?.` is a question mark and a number. -/
inductive TokenBefore (rest : List Char) (w : String) : Prop where
  | word : IsIdentifier w → TokenBefore rest w
  | number : Numeral w.toList → TokenBefore rest w
  | quoted : w ≠ "" → string w.toList = w.toList.length → TokenBefore rest w
  | symbol : IsSymbol w → (w = "?." → ∀ c ∈ rest.head?, c.isDigit = false) → TokenBefore rest w

/-- A token to which no longer one is an alternative. -/
structure LongestToken (w : String) (rest : List Char) : Prop where
  token : TokenBefore rest w
  longest : ∀ w' rest', w'.toList ++ rest' = w.toList ++ rest → TokenBefore rest' w' →
    w'.toList.length ≤ w.toList.length

/-- The length of the white space or comment at the head of a text. -/
def gap : List Char → Nat
  | [] => 0
  | c :: cs => if isBlank c then 1 else comment (c :: cs)

/-- The text is cut into the tokens, each of them as long as can be. -/
inductive LongestMatch : List Char → List Token → Prop where
  | nil : LongestMatch [] []
  | skip : gap cs ≠ 0 → LongestMatch (cs.drop (gap cs)) ts → LongestMatch cs ts
  | token {w : Token} {rest : List Char} : gap (w.toList ++ rest) = 0 → LongestToken w rest →
    LongestMatch rest ts → LongestMatch (w.toList ++ rest) (w :: ts)

/-! ### The characters of a number -/

/-- The character stands in no number, unless it is the point. -/
def Outside (x : Char) : Prop :=
  isHex x = false ∧ isOctal x = false ∧ isBinary x = false ∧ x.isDigit = false ∧
    x ∉ "_+-nxXoObB".toList ∧ x ∉ ['e', 'E']

instance (x : Char) : Decidable (Outside x) := inferInstanceAs (Decidable (_ ∧ _))

variable {p : Char → Bool} {c x : Char} {cs ds q rest : List Char} {v w : String}

theorem DigitRun.not_mem (h : DigitRun p cs) (hp : p x = false) (hx : x ≠ '_') : x ∉ cs := by
  induction h with
  | one hc => rintro (_ | ⟨_, ⟨⟩⟩); cases hp.symm.trans hc
  | cons hc _ ih =>
    rintro (_ | ⟨_, hmem⟩)
    · cases hp.symm.trans hc
    · exact ih hmem
  | separate hc _ ih =>
    rintro (_ | ⟨_, _ | ⟨_, hmem⟩⟩)
    · cases hp.symm.trans hc
    · exact hx rfl
    · exact ih hmem

theorem DigitRun.head (h : DigitRun p cs) : ∃ d ds, cs = d :: ds ∧ p d = true := by
  cases h with
  | one hc | cons hc | separate hc => exact ⟨_, _, rfl, hc⟩

/-- A run without underscores is a run of digits. -/
theorem DigitRun.all_digits (h : DigitRun p cs) (hplain : '_' ∉ cs) : ∀ d ∈ cs, p d = true := by
  induction h with
  | one hc => exact List.forall_mem_singleton.mpr hc
  | cons hc _ ih =>
    exact List.forall_mem_cons.mpr ⟨hc, ih fun hmem => hplain (List.mem_cons_of_mem _ hmem)⟩
  | separate => exact absurd (List.mem_cons_of_mem _ List.mem_cons_self) hplain

theorem PlainInteger.not_mem (h : PlainInteger cs) (hx : Outside x) : x ∉ cs := by
  obtain ⟨-, -, -, hdigit, hmarks, -⟩ := hx
  cases h with
  | zero => rintro (_ | ⟨_, ⟨⟩⟩); cases hdigit
  | nonzero _ hrun => exact hrun.not_mem hdigit fun hmark => hmarks (hmark ▸ by decide)

theorem DecimalInteger.not_mem (h : DecimalInteger cs) (hx : Outside x) : x ∉ cs := by
  cases h with
  | plain h => exact h.not_mem hx
  | afterZero hdigits =>
    rintro (_ | ⟨_, hmem⟩)
    · cases hx.2.2.2.1
    · cases hx.2.2.2.1.symm.trans (hdigits x hmem)

theorem Exponent.not_mem (h : Exponent cs) (hx : Outside x) : x ∉ cs := by
  obtain ⟨-, -, -, hdigit, hmarks, hletter⟩ := hx
  cases h with
  | absent => exact List.not_mem_nil
  | @present e sign ds he hsign hrun =>
    have hsigns : x ∉ sign := by
      intro hmem
      simp only [List.mem_cons, List.not_mem_nil, or_false] at hsign
      rcases hsign with rfl | rfl | rfl
      · cases hmem
      · exact hmarks (List.mem_singleton.mp hmem ▸ by decide)
      · exact hmarks (List.mem_singleton.mp hmem ▸ by decide)
    have hdigits : x ∉ ds := hrun.not_mem hdigit fun hmark => hmarks (hmark ▸ by decide)
    rw [List.mem_cons, List.mem_append]
    rintro (rfl | hmem | hmem)
    · exact hletter he
    · exact hsigns hmem
    · exact hdigits hmem

theorem fraction_not_mem (h : ds = [] ∨ DigitRun Char.isDigit ds) (hx : Outside x) : x ∉ ds := by
  rcases h with rfl | hrun
  · exact List.not_mem_nil
  · exact hrun.not_mem hx.2.2.2.1 fun hmark => hx.2.2.2.2.1 (hmark ▸ by decide)

theorem bases_spec (h : (c, p) ∈ bases) (hx : Outside x) : x ≠ c ∧ p x = false := by
  obtain ⟨hhex, hoctal, hbinary, -, hmarks, -⟩ := hx
  simp only [bases, List.mem_cons, List.not_mem_nil, or_false, Prod.mk.injEq] at h
  rcases h with ⟨rfl, rfl⟩ | ⟨rfl, rfl⟩ | ⟨rfl, rfl⟩ | ⟨rfl, rfl⟩ | ⟨rfl, rfl⟩ | ⟨rfl, rfl⟩
  all_goals exact ⟨fun hx => hmarks (hx ▸ by decide), by assumption⟩

/-- What number a point stands in, and where. -/
theorem Numeral.point_of_mem (h : Numeral cs) (hx : Outside x) (hmem : x ∈ cs) :
    x = '.' ∧ ∃ i r, cs = i ++ '.' :: r ∧ (i = [] ∨ DecimalInteger i) ∧ '.' ∉ i ∧ '.' ∉ r := by
  have hmark : ∀ d ∈ "_+-nxXoObB".toList, x ≠ d := fun d hd hxd => hx.2.2.2.2.1 (hxd ▸ hd)
  have hzero : x ≠ '0' := by rintro rfl; cases hx.2.2.2.1
  cases h with
  | integer hi he => exact absurd hmem (List.not_mem_append (hi.not_mem hx) (he.not_mem hx))
  | pointed hi hf he =>
    obtain hmem | rfl | hmem : _ ∨ x = '.' ∨ _ := by
      rwa [List.mem_append, List.mem_cons] at hmem
    · exact absurd hmem (hi.not_mem hx)
    · exact ⟨rfl, _, _, rfl, .inr hi, hi.not_mem hx,
        List.not_mem_append (fraction_not_mem hf hx) (he.not_mem hx)⟩
    · exact absurd hmem (List.not_mem_append (fraction_not_mem hf hx) (he.not_mem hx))
  | bare hrun he =>
    have hrest {x : Char} (hx : Outside x) := List.not_mem_append
      (fraction_not_mem (.inr hrun) hx) (he.not_mem hx)
    obtain rfl | hmem : x = '.' ∨ _ := List.mem_cons.mp hmem
    · exact ⟨rfl, [], _, rfl, .inl rfl, List.not_mem_nil, hrest hx⟩
    · exact absurd hmem (hrest hx)
  | big hi =>
    exact absurd hmem (List.not_mem_append (hi.not_mem hx)
      (List.not_mem_cons_of_ne_of_not_mem (hmark _ (by decide)) List.not_mem_nil))
  | @based b p ds big hb hrun hbig =>
    obtain ⟨hletter, hdigit⟩ := bases_spec hb hx
    have hbig' : x ∉ big := by
      simp only [List.mem_cons, List.not_mem_nil, or_false] at hbig
      rcases hbig with rfl | rfl
      · exact List.not_mem_nil
      · exact List.not_mem_cons_of_ne_of_not_mem (hmark _ (by decide)) List.not_mem_nil
    have hdigits : x ∉ ds := hrun.not_mem hdigit (hmark _ (by decide))
    exact absurd hmem (List.not_mem_cons_of_ne_of_not_mem hzero
      (List.not_mem_cons_of_ne_of_not_mem hletter (List.not_mem_append hdigits hbig')))
  | octal _ hdigits =>
    refine absurd hmem (List.not_mem_cons_of_ne_of_not_mem hzero fun hmem => ?_)
    cases hx.2.1.symm.trans (hdigits x hmem)

/-- Only an integer in base ten has a point behind it. -/
theorem Numeral.integer_of_point (h : Numeral (cs ++ '.' :: q)) (hne : cs ≠ []) :
    DecimalInteger cs := by
  obtain ⟨-, i, r, heq, hi, hpoint, hpoint'⟩ :=
    h.point_of_mem (by decide) (List.mem_append_right _ List.mem_cons_self)
  obtain ⟨rfl, -, -⟩ := (List.append_cons_inj_of_notMem hpoint hpoint').mp heq.symm
  exact hi.resolve_left hne

/-- A number begins with a digit, or with a point and a digit. -/
theorem Numeral.head (h : Numeral cs) : (∃ c ds, cs = c :: ds ∧ c.isDigit = true) ∨
    ∃ d ds, cs = '.' :: d :: ds ∧ d.isDigit = true := by
  have hplain {i : List Char} (hi : PlainInteger i) : ∃ c ds, i = c :: ds ∧ c.isDigit = true := by
    cases hi with
    | zero => exact ⟨_, _, rfl, rfl⟩
    | nonzero _ hrun => exact hrun.head
  have hdecimal {i : List Char} (hi : DecimalInteger i) :
      ∃ c ds, i = c :: ds ∧ c.isDigit = true := by
    cases hi with
    | plain hi => exact hplain hi
    | afterZero => exact ⟨_, _, rfl, rfl⟩
  cases h with
  | integer hi _ | pointed hi _ _ =>
    obtain ⟨c, ds, rfl, hc⟩ := hdecimal hi
    exact .inl ⟨c, _, rfl, hc⟩
  | bare hrun _ =>
    obtain ⟨d, ds, rfl, hd⟩ := hrun.head
    exact .inr ⟨d, _, rfl, hd⟩
  | big hi =>
    obtain ⟨c, ds, rfl, hc⟩ := hplain hi
    exact .inl ⟨c, _, rfl, hc⟩
  | based | octal => exact .inl ⟨_, _, rfl, rfl⟩

theorem Numeral.ne_nil (h : Numeral cs) : cs ≠ [] := by
  rcases h.head with ⟨_, _, rfl, _⟩ | ⟨_, _, rfl, _⟩ <;> exact List.cons_ne_nil _ _

/-- An integer in base ten is a run of digits unless it has separators. -/
theorem DecimalInteger.isDigits (h : DecimalInteger v.toList) (hplain : '_' ∉ v.toList) :
    IsDigits v := by
  have hdigits : ∀ c ∈ v.toList, c.isDigit = true := by
    generalize v.toList = cs at h hplain
    cases h with
    | plain hi =>
      cases hi with
      | zero => exact List.forall_mem_singleton.mpr rfl
      | nonzero _ hrun => exact hrun.all_digits hplain
    | afterZero hdigits => exact List.forall_mem_cons.mpr ⟨rfl, hdigits⟩
  refine ⟨?_, hdigits⟩
  rintro rfl
  cases h with
  | plain hi => cases hi

/-! ### The longest token -/

theorem gap_eq_zero (hblank : isBlank c = false) (hslash : c ≠ '/') : gap (c :: cs) = 0 := by
  rw [gap, hblank]
  exact comment_eq_zero hslash

theorem TokenBefore.ne_nil (h : TokenBefore rest w) : w.toList ≠ [] := by
  intro hnil
  cases h with
  | word hw => exact hw.1 (String.toList_eq_nil_iff.mp hnil)
  | number hw => exact hw.ne_nil hnil
  | quoted hne => exact hne (String.toList_eq_nil_iff.mp hnil)
  | symbol hw =>
    have hlong : ∀ s ∈ longSymbols, s.toList ≠ [] := by decide
    rcases hw with hw | ⟨c, -, hc⟩
    · exact hlong w hw hnil
    · cases hnil.symm.trans hc

/-- Two longest tokens of one text are the same. -/
theorem LongestToken.unique {w' : String} {rest' : List Char} (h : LongestToken w rest)
    (h' : LongestToken w' rest') (heq : w.toList ++ rest = w'.toList ++ rest') :
    w = w' ∧ rest = rest' := by
  have hlength := Nat.le_antisymm (h'.longest _ _ heq h.token) (h.longest _ _ heq.symm h'.token)
  obtain ⟨hw, hrest⟩ := List.append_inj heq hlength
  exact ⟨String.toList_inj.mp hw, hrest⟩

/-- A text is cut in one way at most. -/
theorem LongestMatch.unique {ts us : List Token} (h : LongestMatch cs ts)
    (h' : LongestMatch cs us) : ts = us := by
  induction h generalizing us with
  | nil =>
    generalize hnil : [] = text at h'
    cases h' with
    | nil => rfl
    | skip hgap => subst hnil; exact absurd rfl hgap
    | token _ hlong => exact absurd (List.append_eq_nil_iff.mp hnil.symm).1 hlong.token.ne_nil
  | skip hgap _ ih =>
    cases h' with
    | nil => exact absurd rfl hgap
    | skip _ hrest => exact ih hrest
    | token hzero => exact absurd hzero hgap
  | @token ts w rest hzero hlong _ ih =>
    generalize htext : w.toList ++ rest = text at h'
    cases h' with
    | nil => exact absurd (List.append_eq_nil_iff.mp htext).1 hlong.token.ne_nil
    | skip hgap => exact absurd (htext ▸ hzero) hgap
    | token _ hlong' hrest =>
      obtain ⟨rfl, rfl⟩ := hlong.unique hlong' htext
      rw [ih hrest]

/-- A token is the longest if it does not extend into the characters behind it. -/
theorem LongestToken.of_not_extended (htoken : TokenBefore rest w)
    (h : ∀ c q r w', rest = c :: (q ++ r) → w'.toList = w.toList ++ c :: q → ¬ TokenBefore r w') :
    LongestToken w rest := by
  refine ⟨htoken, fun w' rest' heq htoken' => ?_⟩
  rcases List.append_eq_append_iff.mp heq with ⟨a, hw, -⟩ | ⟨a, hw', hrest⟩
  · rw [hw, List.length_append]
    exact Nat.le_add_right _ _
  · cases a with
    | nil => exact Nat.le_of_eq (by rw [hw', List.append_nil])
    | cons c q => exact absurd htoken' (h c q rest' w' hrest hw')

/-- Where a token begins, a longest one begins. -/
theorem TokenBefore.exists_longest (h : TokenBefore rest w) : ∃ w' rest',
    w.toList ++ rest = w'.toList ++ rest' ∧ LongestToken w' rest' ∧ w.toList <+: w'.toList := by
  generalize htext : w.toList ++ rest = text
  -- the induction is on what the token may still grow by
  induction hn : rest.length using Nat.strongRecOn generalizing w rest with
  | ind n ih =>
    by_cases hlong : LongestToken w rest
    · exact ⟨w, rest, htext.symm, hlong, List.prefix_refl _⟩
    · obtain ⟨c, q, r, w', rfl, hw', htoken⟩ : ∃ c q r w', rest = c :: (q ++ r) ∧
          w'.toList = w.toList ++ c :: q ∧ TokenBefore r w' := by
        by_contra hnone
        exact hlong (.of_not_extended h fun c q r w' hrest hw' htoken =>
          hnone ⟨c, q, r, w', hrest, hw', htoken⟩)
      have hshorter : r.length < n := by
        rw [← hn, List.length_cons, List.length_append]
        omega
      obtain ⟨u, r', hu, hlong', hle⟩ := ih _ hshorter htoken (by
        rw [hw', List.append_assoc, List.cons_append, htext]) rfl
      exact ⟨u, r', hu, hlong', (hw' ▸ List.prefix_append _ _).trans hle⟩

/-! ### The tokens of a member access -/

/-- A token that begins with a digit or one of these signs is a number or a symbol. -/
theorem TokenBefore.number_or_symbol (h : TokenBefore rest w) (hw : w.toList = c :: cs)
    (hc : c.isDigit = true ∨ c ∈ ['(', ')', '?', '.']) : Numeral w.toList ∨ IsSymbol w := by
  have hsigns : ∀ c ∈ ['(', ')', '?', '.'], isIdentifierChar c = false ∧
      c ∉ ['\\', '"', '\''] := List.all_iff_forall_prop.mp (by decide)
  cases h with
  | word hword =>
    obtain ⟨d, ds, hd, hdigit, hhead⟩ := hword.head
    cases hw.symm.trans hd
    obtain hc := hc.resolve_left (by simp [hdigit])
    rcases hhead with hchar | rfl
    · cases (hsigns c hc).1.symm.trans hchar
    · exact absurd (by decide) (hsigns _ hc).2
  | number hnumber => exact .inl hnumber
  | quoted hne hstring =>
    have hquotes : c ≠ '"' ∧ c ≠ '\'' := by
      rcases hc with hdigit | hc
      · constructor <;> rintro rfl <;> cases hdigit
      · constructor <;> rintro rfl <;> exact absurd (by decide) (hsigns _ hc).2
    rw [hw, string_eq_zero hquotes.1 hquotes.2] at hstring
    cases hstring
  | symbol hsymbol => exact .inr hsymbol

theorem IsSymbol.mem_longSymbols (h : IsSymbol w) (hlength : w.toList.length ≠ 1) :
    w ∈ longSymbols := by
  rcases h with hlong | ⟨c, -, hc⟩
  · exact hlong
  · exact absurd (by rw [hc]; rfl) hlength

/-- A token that begins with a number is a number. -/
theorem TokenBefore.numeral (h : TokenBefore rest w) (hcs : Numeral cs)
    (hw : w.toList = cs ++ q) : Numeral w.toList := by
  have hlong : ∀ s ∈ longSymbols, s.toList.head?.any Char.isDigit = false ∧
      s.toList[1]?.any Char.isDigit = false := List.all_iff_forall_prop.mp (by decide)
  rcases hcs.head with ⟨c, ds, rfl, hc⟩ | ⟨d, ds, rfl, hd⟩
  · refine (h.number_or_symbol hw (.inl hc)).resolve_right ?_
    rintro (hmem | ⟨e, he, hsingle⟩)
    · have hhead := (hlong w hmem).1
      rw [hw] at hhead
      cases hhead.symm.trans hc
    · obtain ⟨rfl, -⟩ := List.cons.inj (hw.symm.trans hsingle)
      have hnot := (digit_spec hc).2.1
      rw [List.contains_eq_mem, decide_eq_false_iff_not] at hnot
      exact hnot he
  · refine (h.number_or_symbol hw (.inr (by decide))).resolve_right fun hsymbol => ?_
    have hsecond := (hlong w (hsymbol.mem_longSymbols (by simp [hw]))).2
    rw [hw] at hsecond
    cases hsecond.symm.trans hd

/-- A number ends where a character comes that no number contains. Before a point it ends unless it is
an integer in base ten. -/
theorem longestToken_number (hv : Numeral v.toList)
    (hrest : ∀ c ∈ rest.head?, Outside c ∧ (c = '.' → ¬ DecimalInteger v.toList)) :
    LongestToken v rest := by
  refine .of_not_extended (.number hv) fun c q r w' heq hw' htoken => ?_
  obtain ⟨houtside, hdecimal⟩ := hrest c (by rw [heq]; rfl)
  have hnumeral := htoken.numeral hv hw'
  rw [hw'] at hnumeral
  obtain ⟨rfl, -⟩ := hnumeral.point_of_mem houtside (List.mem_append_right _ List.mem_cons_self)
  exact hdecimal rfl (hnumeral.integer_of_point hv.ne_nil)

theorem longestToken_number_of_outside (hv : Numeral v.toList) (hc : Outside c) (hpoint : c ≠ '.') :
    LongestToken v (c :: rest) := by
  refine longestToken_number hv ?_
  rintro d ⟨⟩
  exact ⟨hc, fun heq => absurd heq hpoint⟩

theorem longestToken_word (hw : IsIdentifier w) : LongestToken w [] :=
  .of_not_extended (.word hw) fun _ _ _ _ heq => nomatch heq

theorem longestToken_symbol (hw : w ∈ ["(", ")", "?."])
    (hrest : w = "?." → ∀ c ∈ rest.head?, c.isDigit = false) : LongestToken w rest := by
  have hlong : ∀ s ∈ ["(", ")", "?."], ∀ t ∈ longSymbols, s.toList <+: t.toList → s = t :=
    List.all_iff_forall_prop.mp (by decide)
  obtain ⟨hsymbol, d, ds, hd, hds⟩ : IsSymbol w ∧ ∃ d ds, d ∈ ['(', ')', '?'] ∧
      w.toList = d :: ds := by
    simp only [List.mem_cons, List.not_mem_nil, or_false] at hw
    rcases hw with rfl | rfl | rfl
    · exact ⟨.inr ⟨'(', by decide, rfl⟩, _, _, by decide, rfl⟩
    · exact ⟨.inr ⟨')', by decide, rfl⟩, _, _, by decide, rfl⟩
    · exact ⟨.inl (by decide), _, _, by decide, rfl⟩
  have hsign : ∀ d ∈ ['(', ')', '?'], d.isDigit = false ∧ d ≠ '.' ∧ d ∈ ['(', ')', '?', '.'] :=
    List.all_iff_forall_prop.mp (by decide)
  obtain ⟨hdigit, hpoint, hmem⟩ := hsign d hd
  refine .of_not_extended (.symbol hsymbol hrest) fun c q r w' _ hw' htoken => ?_
  have hmore : w'.toList = d :: (ds ++ c :: q) := by rw [hw', hds, List.cons_append]
  rcases htoken.number_or_symbol hmore (.inr hmem) with hnumeral | hsymbol'
  · rcases hnumeral.head with ⟨e, es, he, hdigit'⟩ | ⟨e, es, he, -⟩
    · cases hmore.symm.trans he
      cases hdigit.symm.trans hdigit'
    · exact hpoint (List.cons.inj (hmore.symm.trans he)).1
  · have hw'' : w' ∈ longSymbols := hsymbol'.mem_longSymbols (by simp [hmore])
    cases hlong w hw w' hw'' ⟨_, hw'.symm⟩
    exact absurd hw' (by simp)

theorem longestToken_point (hrest : ∀ c ∈ rest.head?, c.isDigit = false ∧ c ≠ '.') :
    LongestToken "." rest := by
  have hlong : ∀ s ∈ longSymbols, s.toList[0]? = some '.' → s.toList[1]? = some '.' :=
    List.all_iff_forall_prop.mp (by decide)
  have hsymbol : IsSymbol "." := .inr ⟨'.', by decide, rfl⟩
  refine .of_not_extended (.symbol hsymbol fun h => absurd h (by decide)) ?_
  intro c q r w' heq hw' htoken
  obtain ⟨hdigit, hpoint⟩ := hrest c (by rw [heq]; rfl)
  rcases htoken.number_or_symbol hw' (.inr (by decide)) with hnumeral | hsymbol
  · rw [hw'] at hnumeral
    rcases hnumeral.head with ⟨d, ds, heq', hd⟩ | ⟨d, ds, heq', hd⟩
    · cases heq'
      cases hd
    · cases heq'
      cases hdigit.symm.trans hd
  · have := hlong w' (hsymbol.mem_longSymbols (by simp [hw'])) (by rw [hw']; rfl)
    rw [hw'] at this
    exact hpoint (Option.some.inj this)

theorem gap_number (hv : Numeral v.toList) : gap (v.toList ++ rest) = 0 := by
  rcases hv.head with ⟨c, ds, hcs, hc⟩ | ⟨d, ds, hcs, -⟩
  · rw [hcs]
    refine gap_eq_zero (digit_spec hc).1 ?_
    rintro rfl
    cases hc
  · rw [hcs]
    exact gap_eq_zero (by decide) (by decide)

theorem identifier_head_spec (hw : IsIdentifier w) : ∃ c cs, w.toList = c :: cs ∧
    isBlank c = false ∧ c ≠ '/' ∧ c ≠ '.' ∧ c.isDigit = false := by
  obtain ⟨c, cs, hcs, hdigit, hhead⟩ := hw.head
  refine ⟨c, cs, hcs, ?_⟩
  rcases hhead with hchar | rfl
  · exact ⟨(isIdentifierChar_spec hchar).1, ne_of_isIdentifierChar hchar (by decide),
      ne_of_isIdentifierChar hchar (by decide), hdigit⟩
  · decide

theorem longestMatch_word (hw : IsIdentifier w) : LongestMatch w.toList [w] := by
  obtain ⟨c, cs, hcs, hblank, hslash, -⟩ := identifier_head_spec hw
  have hgap : gap (w.toList ++ []) = 0 := by
    rw [hcs]
    exact gap_eq_zero hblank hslash
  have hread := LongestMatch.token hgap (longestToken_word hw) .nil
  rwa [List.append_nil] at hread

/-- A point or `?.` and a property. -/
theorem longestMatch_access (hw : IsIdentifier w) (optional : Bool) :
    LongestMatch ((if optional then "?." else ".").toList ++ w.toList)
      [if optional then "?." else ".", w] := by
  have hnext : ∀ c ∈ w.toList.head?, c.isDigit = false ∧ c ≠ '.' := by
    obtain ⟨c, cs, hcs, -, -, hpoint, hdigit⟩ := identifier_head_spec hw
    rw [hcs]
    rintro d ⟨⟩
    exact ⟨hdigit, hpoint⟩
  cases optional with
  | false =>
    exact .token (gap_eq_zero (by decide) (by decide)) (longestToken_point hnext)
      (longestMatch_word hw)
  | true =>
    exact .token (gap_eq_zero (by decide) (by decide))
      (longestToken_symbol (by decide) fun _ c hc => (hnext c hc).1) (longestMatch_word hw)

theorem LongestMatch.iff {ts us : List Token} (h : LongestMatch cs ts) :
    LongestMatch cs us ↔ us = ts :=
  ⟨fun h' => h'.unique h, fun heq => heq ▸ h⟩

/-- Every reading of a text begins with its longest token. -/
theorem LongestMatch.head {ts : List Token} (h : LongestMatch (w.toList ++ rest) ts)
    (hlong : LongestToken w rest) (hgap : gap (w.toList ++ rest) = 0) : ts.head? = some w := by
  generalize htext : w.toList ++ rest = text at h hgap
  cases h with
  | nil => exact absurd (List.append_eq_nil_iff.mp htext).1 hlong.token.ne_nil
  | skip hne => exact absurd hgap hne
  | token _ hlong' _ => rw [(hlong.unique hlong' htext).1, List.head?_cons]

end Lexing

/-! ## Members of numbers -/

namespace Expr

open Lexing

variable {v p : String}

theorem text_member_literal (v p : String) (optional : Bool) :
    (member (.literal v) p optional).text.toList =
      (if Text.isDigitRun v then ("(" ++ v ++ ")") else v).toList ++
        ((if optional then "?." else ".").toList ++ p.toList) := by
  have hgroup : group (literal v).precedence .call v = v :=
    if_neg (show ¬ Precedence.primary < Precedence.call by decide)
  rw [text, memberTarget, text, hgroup, String.toList_append, String.toList_append,
    List.append_assoc]
  rfl

theorem isDigitRun_of_digits (h : IsDigits v) : Text.isDigitRun v = true :=
  endsInInteger_of_digits h

theorem isDigitRun_of_separated (h : SeparatedInteger v) : Text.isDigitRun v = false := by
  refine Bool.eq_false_iff.mpr fun hrun => ?_
  have hall := (Bool.and_eq_true_iff.mp hrun).2
  exact absurd (List.all_eq_true.mp hall '_' h.2) (by decide)

/-- Apart from integers with separators a number keeps its end before a point, and any number keeps it
before `?.`. -/
theorem longestMatch_member (hv : Numeral v.toList) (hp : IsIdentifier p) (optional : Bool)
    (h : ¬ (SeparatedInteger v ∧ optional = false)) :
    ∃ target ∈ [[v], parenthesized [v]],
      LongestMatch (member (.literal v) p optional).text.toList
        (target ++ [if optional then "?." else ".", p]) := by
  have haccess := longestMatch_access hp optional
  rw [text_member_literal]
  cases hrun : Text.isDigitRun v with
  | true =>
    have hclose := LongestMatch.token (gap_eq_zero (by decide) (by decide))
      (longestToken_symbol (w := ")") (by decide) fun h => absurd h (by decide)) haccess
    have hnumber := LongestMatch.token (gap_number hv)
      (longestToken_number_of_outside hv (by decide) (by decide)) hclose
    have hopen := LongestMatch.token (gap_eq_zero (by decide) (by decide))
      (longestToken_symbol (w := "(") (by decide) fun h => absurd h (by decide)) hnumber
    refine ⟨parenthesized [v], by simp, ?_⟩
    rw [if_pos rfl, String.toList_append, String.toList_append, List.append_assoc, List.append_assoc]
    exact hopen
  | false =>
    refine ⟨[v], by simp, .token (gap_number hv) ?_ haccess⟩
    cases optional with
    | true => exact longestToken_number_of_outside hv (by decide) (by decide)
    | false =>
      have hdecimal : ¬ DecimalInteger v.toList := by
        intro hdecimal
        have hplain : '_' ∉ v.toList := fun hmem => h ⟨⟨hdecimal, hmem⟩, rfl⟩
        cases hrun.symm.trans (isDigitRun_of_digits (hdecimal.isDigits hplain))
      refine longestToken_number hv ?_
      rintro c ⟨⟩
      exact ⟨by decide, fun _ => hdecimal⟩

/-- Before a point an integer with separators swallows the point. -/
theorem longestToken_separated (hv : SeparatedInteger v) (p : String) :
    ∃ w rest, (member (.literal v) p false).text.toList = w.toList ++ rest ∧
      LongestToken w rest ∧ (v ++ ".").toList <+: w.toList := by
  have hnumber : Numeral (v ++ ".").toList := by
    rw [String.toList_append]
    exact .pointed hv.1 (.inl rfl) .absent
  have htoken : TokenBefore p.toList (v ++ ".") := .number hnumber
  obtain ⟨w, rest, htext, hlong, hpre⟩ := htoken.exists_longest
  refine ⟨w, rest, ?_, hlong, hpre⟩
  rw [text_member_literal, isDigitRun_of_separated hv, ← htext, String.toList_append,
    List.append_assoc]
  rfl

/-- A member access of a number is read as the number, which may be in parentheses, the connective
and the property, except where a point comes behind an integer with separators. There the first token
goes beyond the point. -/
theorem member_keeps_number_iff (hv : Numeral v.toList) (hp : IsIdentifier p) (optional : Bool) :
    ∃ text, (member (.literal v) p optional).render = .ok text ∧
      ((∃ target ∈ [[v], parenthesized [v]], ∀ ts, LongestMatch text.toList ts ↔
          ts = target ++ [if optional then "?." else ".", p]) ↔
        ¬ (SeparatedInteger v ∧ optional = false)) ∧
      (SeparatedInteger v ∧ optional = false → ∃ w rest, text.toList = w.toList ++ rest ∧
        LongestToken w rest ∧ (v ++ ".").toList <+: w.toList) := by
  refine ⟨_, render_of_isPrintable rfl, ⟨?_, fun h => ?_⟩, ?_⟩
  · rintro ⟨target, htarget, hread⟩ ⟨hsep, rfl⟩
    obtain ⟨w, rest, htext, hlong, hpre⟩ := longestToken_separated hsep p
    have hgap : gap (w.toList ++ rest) = 0 := by
      rw [← htext, text_member_literal, isDigitRun_of_separated hsep]
      exact gap_number hv
    have hhead := (htext ▸ (hread _).mpr rfl : LongestMatch _ _).head hlong hgap
    -- neither the number nor a parenthesis is as long as the number with its point
    have hlonger := hpre.length_le
    rw [String.toList_append, List.length_append] at hlonger
    have hpos := List.length_pos_of_ne_nil hv.ne_nil
    simp only [List.mem_cons, List.not_mem_nil, or_false] at htarget
    rcases htarget with rfl | rfl
    · cases hhead
      exact Nat.not_succ_le_self _ hlonger
    · cases hhead
      exact absurd hlonger (Nat.not_le_of_lt (Nat.succ_lt_succ hpos))
  · obtain ⟨target, htarget, hread⟩ := longestMatch_member hv hp optional h
    exact ⟨target, htarget, fun _ => hread.iff⟩
  · rintro ⟨hsep, rfl⟩
    exact longestToken_separated hsep p

theorem member_keeps_exponent :
    Numeral "1e3".toList ∧ IsIdentifier "toFixed" ∧
      (member (.literal "1e3") "toFixed" false).render = .ok "1e3.toFixed" ∧
      ∃ target ∈ [["1e3"], parenthesized ["1e3"]], ∀ ts,
        LongestMatch "1e3.toFixed".toList ts ↔ ts = target ++ [".", "toFixed"] := by
  have hv : Numeral "1e3".toList :=
    .integer (.plain (.nonzero (by decide) (.one rfl)))
      (.present (by decide) List.mem_cons_self (.one rfl))
  have hp : IsIdentifier "toFixed" := ⟨by decide, by decide⟩
  obtain ⟨text, hrender, hiff, -⟩ := member_keeps_number_iff hv hp false
  cases hrender
  exact ⟨hv, hp, rfl, hiff.mpr fun h => absurd h.1.2 (by decide)⟩

/-- The integer `1_000` does not keep its end. -/
theorem member_loses_separated :
    Numeral "1_000".toList ∧
      (member (.literal "1_000") "toFixed" false).render = .ok "1_000.toFixed" ∧
      ∀ ts, LongestMatch "1_000.toFixed".toList ts ↔ ts = ["1_000.", "toFixed"] := by
  have hinteger : DecimalInteger "1_000".toList :=
    .plain (.nonzero (by decide) (.separate rfl (.cons rfl (.cons rfl (.one rfl)))))
  have hnumber : Numeral "1_000.".toList := .pointed hinteger (.inl rfl) .absent
  have hp : IsIdentifier "toFixed" := ⟨by decide, by decide⟩
  have hread : LongestMatch "1_000.toFixed".toList ["1_000.", "toFixed"] :=
    .token (gap_number hnumber) (longestToken_number_of_outside hnumber (by decide) (by decide))
      (longestMatch_word hp)
  exact ⟨.integer hinteger .absent, rfl, fun _ => hread.iff⟩

end Expr

end CondUnfold
