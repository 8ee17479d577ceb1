import CondUnfold.Expr.Text
import CondUnfold.Proofs.Lexing
import CondUnfold.Proofs.Printable

/-!
# The tokens of an expression

The text of an expression is made from tokens (`Expr.tokens`), with single spaces between some of
them. Lexing finds these tokens again (`Expr.Plain.lexes`): a sign keeps away from the same sign,
operators with two operands stand between spaces, a run of digits has no point behind it, and all
else ends at a character that cannot continue it.
-/

namespace CondUnfold

open Lexing

namespace Expr

/-! ## The language -/

/-- The text is a run of digits, a literal word or a string without escapes. -/
def IsLiteral (v : String) : Prop := IsDigits v ∨ v ∈ ["true", "false", "null"] ∨ IsQuoted v

/-- Operators that stand before their operand. -/
def unaryOperators : List String := ["!", "~", "+", "-", "typeof", "void", "delete"]

/-- The operator stands between two operands that are both evaluated. -/
def IsBinaryOperator (op : String) : Prop :=
  (Precedence.ofOperator? op).isSome = true ∧ isLogicalOperator op = false

/-- Expressions without raw text, whose names, literals and operators are those of the language. -/
inductive Plain : Expr → Prop where
  | name : IsIdentifier n → Lexeme.isReserved n = false → Plain (.name n)
  | literal : IsLiteral v → Plain (.literal v)
  | unary : op ∈ unaryOperators → Plain e → Plain (.unary op e)
  | binary : IsBinaryOperator op → Plain l → Plain r → Plain (.binary l op r)
  | logical : isLogicalOperator op = true → Plain l → Plain r → Plain (.logical l op r)
  | cond : Plain t → Plain y → Plain n → Plain (.cond t y n)
  | call : Plain f → (∀ a ∈ args, Plain a) → Plain (.call f args opt)
  | member : Plain e → IsIdentifier p → Plain (.member e p opt)
  | index : Plain e → Plain i → Plain (.index e i opt)
  | sequence : 2 ≤ es.length → (∀ e ∈ es, Plain e) → Plain (.sequence es)

/-! ## Tokens -/

/-- Tokens in parentheses. -/
def parenthesized (ts : List Token) : List Token := "(" :: (ts ++ [")"])

/-- The tokens of `group`. -/
def groupTokens (p least : Precedence) (ts : List Token) : List Token :=
  if p < least then parenthesized ts else ts

/-- The tokens of `logicalOperand`. -/
def logicalOperandTokens (op : String) (e : Expr) (least : Precedence) (ts : List Token) :
    List Token :=
  if e.clashes op then parenthesized ts else groupTokens e.precedence least ts

/-- The tokens of `memberTarget`. -/
def memberTargetTokens (e : Expr) (ts : List Token) : List Token :=
  if e.endsInInteger then parenthesized (groupTokens e.precedence .call ts)
  else groupTokens e.precedence .call ts

/-- The token before an access that is skipped if there is nothing to access. -/
def optionalTokens (opt : Bool) : List Token := if opt then ["?."] else []

mutual

/-- The tokens of an expression. -/
def tokens : Expr → List Token
  | .literal v => [v]
  | .name n => [n]
  | .raw t _ _ => [t]
  | .unary op e => op :: groupTokens e.precedence .unary e.tokens
  | .binary l op r =>
    if op == "**" then
      groupTokens l.precedence .postfixed l.tokens ++ op ::
        groupTokens r.precedence .exponent r.tokens
    else
      groupTokens l.precedence (.ofOperator op) l.tokens ++ op ::
        groupTokens r.precedence (.ofOperator op + 1) r.tokens
  | .logical l op r =>
    logicalOperandTokens op l (.ofOperator op) l.tokens ++ op ::
      logicalOperandTokens op r (.ofOperator op + 1) r.tokens
  | .cond t y n =>
    groupTokens t.precedence .disjunction t.tokens ++ "?" ::
      (groupTokens y.precedence .assignment y.tokens ++ ":" ::
        groupTokens n.precedence .assignment n.tokens)
  | .call f args opt =>
    groupTokens f.precedence .call f.tokens ++ (optionalTokens opt ++
      parenthesized (listTokens args))
  | .member e p opt => memberTargetTokens e e.tokens ++ [if opt then "?." else ".", p]
  | .index e i opt =>
    groupTokens e.precedence .call e.tokens ++ (optionalTokens opt ++ "[" :: (i.tokens ++ ["]"]))
  | .sequence es => listTokens es

/-- The tokens of items that commas divide. -/
def listTokens : List Expr → List Token
  | [] => []
  | e :: es => groupTokens e.precedence .assignment e.tokens ++ restTokens es

/-- The tokens of the items behind the first one, each behind its comma. -/
def restTokens : List Expr → List Token
  | [] => []
  | e :: es => "," :: (groupTokens e.precedence .assignment e.tokens ++ restTokens es)

end

/-! ## How a text begins -/

/-- The text is not empty and does not begin with an equals sign, so that a sign may stand before
it. -/
def Begins (s : String) : Prop := ∃ c cs, s.toList = c :: cs ∧ c ≠ '='

theorem Begins.append {s : String} (h : Begins s) (t : String) : Begins (s ++ t) := by
  obtain ⟨c, cs, hs, hc⟩ := h
  exact ⟨c, cs ++ t.toList, by rw [String.toList_append, hs, List.cons_append], hc⟩

theorem begins_parenthesis (t : String) : Begins ("(" ++ t) :=
  Begins.append ⟨'(', [], rfl, by decide⟩ t

theorem Begins.group {s : String} (h : Begins s) (p least : Precedence) :
    Begins (group p least s) := by
  unfold Expr.group
  split
  · exact (begins_parenthesis s).append ")"
  · exact h

theorem Begins.logicalOperand {e : Expr} {s : String} (h : Begins s) (op : String)
    (least : Precedence) : Begins (logicalOperand op e least s) := by
  unfold Expr.logicalOperand
  split
  · exact (begins_parenthesis s).append ")"
  · exact h.group _ _

theorem Begins.memberTarget {e : Expr} {s : String} (h : Begins s) : Begins (memberTarget e s) := by
  unfold Expr.memberTarget
  split
  · exact (begins_parenthesis _).append ")"
  · exact h.group _ _

theorem begins_identifier {w : String} (h : IsIdentifier w) : Begins w := by
  obtain ⟨c, cs, hlist, _, hhead⟩ := h.head
  refine ⟨c, cs, hlist, ?_⟩
  rcases hhead with hchar | rfl
  · exact ne_of_isIdentifierChar hchar (by decide)
  · decide

theorem begins_literal {v : String} (h : IsLiteral v) : Begins v := by
  rcases h with ⟨hne, hdigits⟩ | hword | ⟨quote, content, hquote, hlist, _⟩
  · cases hlist : v.toList with
    | nil => exact absurd (String.toList_eq_nil_iff.mp hlist) hne
    | cons c cs =>
      refine ⟨c, cs, hlist, ?_⟩
      rintro rfl
      exact absurd (hdigits '=' (hlist ▸ List.mem_cons_self)) (by decide)
  · simp only [List.mem_cons, List.not_mem_nil, or_false] at hword
    rcases hword with rfl | rfl | rfl <;> exact ⟨_, _, rfl, by decide⟩
  · exact ⟨quote, _, hlist, by rcases hquote with rfl | rfl <;> decide⟩

theorem begins_unary {op : String} (hop : op ∈ unaryOperators) (inner : String) :
    Begins (unaryText op inner) := by
  have hbegins : Begins op := by
    simp only [unaryOperators, List.mem_cons, List.not_mem_nil, or_false] at hop
    rcases hop with rfl | rfl | rfl | rfl | rfl | rfl | rfl <;> exact ⟨_, _, rfl, by decide⟩
  unfold unaryText
  split
  · exact (hbegins.append " ").append inner
  · split
    · exact (hbegins.append " ").append inner
    · exact hbegins.append inner

theorem Plain.begins {e : Expr} (h : Plain e) : Begins e.text := by
  induction h with
  | name hn => exact begins_identifier hn
  | literal hv => exact begins_literal hv
  | unary hop _ _ => rw [text]; exact begins_unary hop _
  | binary _ _ _ hl _ =>
    rw [text]
    split
    · exact (((hl.group _ _).append _).append _).append _ |>.append _
    · exact (((hl.group _ _).append _).append _).append _ |>.append _
  | logical _ _ _ hl _ =>
    rw [text]
    exact ((((hl.logicalOperand _ _).append _).append _).append _).append _
  | cond _ _ _ ht _ _ => rw [text]; exact ((((ht.group _ _).append _).append _).append _).append _
  | call _ _ hf _ => rw [text]; exact ((((hf.group _ _).append _).append _).append _).append _
  | member _ _ he => rw [text]; exact (he.memberTarget.append _).append _
  | index _ _ he _ => rw [text]; exact ((((he.group _ _).append _).append _).append _).append _
  | @sequence es hlength _ ih =>
    rw [text]
    cases es with
    | nil => cases hlength
    | cons e es => rw [listText]; exact ((ih e List.mem_cons_self).group _ _).append _

/-! ## Lexing a text -/

/-- The characters with which an expression may end. A point is not among them. -/
def breaks : List Char := [' ', ')', ']', ',', '(', '[', '?']

/-- The text is read as the tokens if what comes behind it begins with one of the characters. -/
def Lexes (text : String) (ts : List Token) (next : List Char) : Prop :=
  ∀ rest : List Char, (∀ c ∈ rest.head?, c ∈ next) → lex (text.toList ++ rest) = ts ++ lex rest

/-- The characters that may come behind an expression. A point may come behind the target of a member
access, other than a number. -/
def nextChars (e : Expr) : List Char :=
  if .call ≤ e.precedence ∧ e.endsInInteger = false then '.' :: breaks else breaks

theorem breaks_spec : ∀ c ∈ '.' :: breaks, Lexeme.isIdentifierSign c = false :=
  List.all_iff_forall_prop.mp (by decide)

theorem breaks_endsNumber : ∀ c ∈ breaks, EndsNumber c := by
  unfold EndsNumber
  exact List.all_iff_forall_prop.mp (by decide)

theorem breaks_subset (e : Expr) : breaks ⊆ e.nextChars := by
  unfold nextChars
  split
  · exact List.subset_cons_self _ _
  · exact List.Subset.refl _

variable {e : Expr} {text : String} {ts : List Token} {next : List Char}

theorem Lexes.mono {next' : List Char} (h : Lexes text ts next) (hsub : next' ⊆ next) :
    Lexes text ts next' :=
  fun rest hrest => h rest fun c hc => hsub (hrest c hc)

/-- A text in parentheses is read whatever comes behind it. -/
theorem Lexes.parenthesized (h : Lexes text ts breaks) (rest : List Char) :
    lex (("(" ++ text ++ ")").toList ++ rest) = parenthesized ts ++ lex rest := by
  simp only [String.toList_append, List.append_assoc]
  rw [lex_closedSymbol (by decide), h _ (by simp [breaks]), lex_closedSymbol (by decide)]
  simp [Expr.parenthesized]

theorem Lexes.group (h : Lexes text ts breaks) (p least : Precedence) :
    Lexes (group p least text) (groupTokens p least ts) breaks := by
  unfold Expr.group groupTokens
  split
  · exact fun rest _ => h.parenthesized rest
  · exact h

theorem Lexes.logicalOperand (h : Lexes text ts breaks) (op : String) (e : Expr)
    (least : Precedence) :
    Lexes (logicalOperand op e least text) (logicalOperandTokens op e least ts) breaks := by
  unfold Expr.logicalOperand logicalOperandTokens
  split
  · exact fun rest _ => h.parenthesized rest
  · exact h.group _ _

/-- A point may come behind the target of a member access. -/
theorem Lexes.memberTarget (h : Lexes e.text e.tokens e.nextChars) :
    Lexes (memberTarget e e.text) (memberTargetTokens e e.tokens) ('.' :: breaks) := by
  have hbreaks := h.mono (breaks_subset e)
  unfold Expr.memberTarget memberTargetTokens
  split
  · exact fun rest _ => (hbreaks.group _ _).parenthesized rest
  · next hinteger =>
    unfold Expr.group groupTokens
    split
    · exact fun rest _ => hbreaks.parenthesized rest
    · next hcall =>
      rwa [nextChars, if_pos ⟨Int.not_lt.mp hcall, Bool.eq_false_iff.mpr hinteger⟩] at h

/-! ### Operators -/

def operators : List String := operatorSymbols ++ ["in", "instanceof"]

theorem mem_operators {op : String} (h : (Precedence.ofOperator? op).isSome = true) :
    op ∈ operators := by
  unfold Precedence.ofOperator? at h
  split at h
  all_goals first | decide | cases h

theorem lex_operator {op : String} (h : (Precedence.ofOperator? op).isSome = true)
    (rest : List Char) : lex (' ' :: (op.toList ++ ' ' :: rest)) = op :: lex rest := by
  rw [lex_space]
  rcases List.mem_append.mp (mem_operators h) with hsymbol | hword
  · rw [lex_operatorSymbol hsymbol, lex_space]
  · have hwords : ∀ w ∈ ["in", "instanceof"], w ≠ "" ∧
        Lexeme.identifier w.toList = w.toList.length := by decide
    rw [lex_identifier (hwords op hword) (by simp; decide), lex_space]

theorem Lexes.word {w : String} (hw : IsIdentifier w) (h : Lexes text ts next) :
    Lexes (w ++ " " ++ text) (w :: ts) next := by
  intro rest hrest
  simp only [String.toList_append, List.append_assoc]
  change lex (w.toList ++ ' ' :: (text.toList ++ rest)) = _
  rw [lex_identifier hw (by simp; decide), lex_space, h rest hrest]
  rfl

/-- A sign and an operand that does not begin with the same sign, or that a space keeps apart. -/
theorem Lexes.sign (h : Lexes text ts next) (hbegins : Begins text) (op : String) {a : Char}
    (hop : op.toList = [a]) (ha : a ∈ ['!', '+', '-']) :
    Lexes (op ++ " " ++ text) (op :: ts) next ∧
      (a = '!' ∨ text.toList.head? ≠ some a → Lexes (op ++ text) (op :: ts) next) := by
  constructor
  · intro rest hrest
    simp only [String.toList_append, List.append_assoc]
    change lex (op.toList ++ ' ' :: (text.toList ++ rest)) = _
    have hspace : a ≠ ' ' := by rintro rfl; exact absurd ha (by decide)
    rw [lex_sign hop ha (by decide) (.inr hspace), lex_space, h rest hrest]
    rfl
  · intro hsame rest hrest
    obtain ⟨c, cs, hlist, hequals⟩ := hbegins
    have hrun := h rest hrest
    rw [hlist] at hsame hrun
    rw [String.toList_append, List.append_assoc, hlist, List.cons_append]
    rw [List.cons_append] at hrun
    rw [lex_sign hop ha hequals (hsame.imp_right fun hne hac => hne (by rw [hac]; rfl)), hrun]
    rfl

theorem Lexes.unary {op : String} (hop : op ∈ unaryOperators) (hbegins : Begins text)
    (h : Lexes text ts next) : Lexes (unaryText op text) (op :: ts) next := by
  simp only [unaryOperators, List.mem_cons, List.not_mem_nil, or_false] at hop
  rcases hop with rfl | rfl | rfl | rfl | rfl | rfl | rfl
  · exact (h.sign hbegins "!" (a := '!') rfl (by decide)).2 (.inl rfl)
  · intro rest hrest
    change lex (("~" ++ text).toList ++ rest) = _
    rw [String.toList_append, List.append_assoc, lex_closedSymbol (by decide), h rest hrest]
    rfl
  · obtain ⟨hspaced, hclose⟩ := h.sign hbegins "+" (a := '+') rfl (by decide)
    by_cases hhead : text.toList.head? = some '+'
    · simpa [unaryText, isWordOperator, hhead] using hspaced
    · simpa [unaryText, isWordOperator, hhead] using hclose (.inr hhead)
  · obtain ⟨hspaced, hclose⟩ := h.sign hbegins "-" (a := '-') rfl (by decide)
    by_cases hhead : text.toList.head? = some '-'
    · simpa [unaryText, isWordOperator, hhead] using hspaced
    · simpa [unaryText, isWordOperator, hhead] using hclose (.inr hhead)
  all_goals exact Lexes.word ⟨by decide, rfl⟩ h

/-! ### Lists -/

theorem head_restText (es : List Expr) {rest : List Char} (hrest : ∀ c ∈ rest.head?, c ∈ breaks) :
    ∀ c ∈ ((restText es).toList ++ rest).head?, c ∈ breaks := by
  cases es with
  | nil => simpa [restText] using hrest
  | cons e es =>
    rw [restText]
    simp only [String.toList_append, List.append_assoc]
    rintro c ⟨⟩
    decide

theorem restText_lexes {es : List Expr} (h : ∀ e ∈ es, Lexes e.text e.tokens breaks) :
    Lexes (restText es) (restTokens es) breaks := by
  intro rest hrest
  induction es with
  | nil => rfl
  | cons e es ih =>
    obtain ⟨he, hes⟩ := List.forall_mem_cons.mp h
    rw [restText, restTokens]
    simp only [String.toList_append, List.append_assoc]
    change lex (",".toList ++ ' ' :: ((group e.precedence .assignment e.text).toList ++
      ((restText es).toList ++ rest))) = _
    rw [lex_closedSymbol (by decide), lex_space, he.group _ _ _ (head_restText es hrest), ih hes]
    simp

theorem listText_lexes {es : List Expr} (h : ∀ e ∈ es, Lexes e.text e.tokens breaks) :
    Lexes (listText es) (listTokens es) breaks := by
  intro rest hrest
  cases es with
  | nil => rfl
  | cons e es =>
    obtain ⟨he, hes⟩ := List.forall_mem_cons.mp h
    rw [listText, listTokens, String.toList_append, List.append_assoc,
      he.group _ _ _ (head_restText es hrest), restText_lexes hes rest hrest, List.append_assoc]

/-! ### Expressions -/

theorem endsInInteger_of_digits {v : String} (h : IsDigits v) :
    (literal v).endsInInteger = true := by
  obtain ⟨hne, hdigits⟩ := h
  have hsign : ∀ c ∈ "0123456789".toList, Text.isDigitSign c = true :=
    List.all_iff_forall_prop.mp (by decide)
  simp only [endsInInteger, Text.isDigitRun, Bool.and_eq_true, List.all_eq_true]
  exact ⟨by simpa using hne, fun c hc => hsign c (mem_of_isDigit (hdigits c hc))⟩

theorem mem_nextChars {c : Char} (h : c ∈ e.nextChars) : c ∈ '.' :: breaks := by
  unfold nextChars at h
  split at h
  · exact h
  · exact List.mem_cons_of_mem _ h

theorem literal_lexes {v : String} (h : IsLiteral v) : Lexes v [v] (literal v).nextChars := by
  intro rest hrest
  rcases h with hdigits | hword | hquoted
  · refine lex_digits hdigits fun c hc => breaks_endsNumber c ?_
    have hmem := hrest c hc
    rwa [nextChars, if_neg (by simp [endsInInteger_of_digits hdigits])] at hmem
  · refine lex_identifier ?_ fun c hc => breaks_spec c (mem_nextChars (hrest c hc))
    simp only [List.mem_cons, List.not_mem_nil, or_false] at hword
    rcases hword with rfl | rfl | rfl <;> exact ⟨by decide, rfl⟩
  · exact lex_quoted hquoted rest

theorem ofOperator_range (op : String) :
    4 ≤ Precedence.ofOperator op ∧ Precedence.ofOperator op ≤ 14 := by
  unfold Precedence.ofOperator Precedence.ofOperator?
  split <;> decide

theorem ofOperator_lt_call (op : String) : Precedence.ofOperator op < .call :=
  Int.lt_of_le_of_lt (ofOperator_range op).2 (by decide)

theorem nextChars_eq_breaks (h : e.precedence < .call) : e.nextChars = breaks :=
  if_neg fun hcall => Int.not_lt.mpr hcall.1 h

theorem Lexes.between {l r : String} {ls rs : List Token} {op : String} (hl : Lexes l ls breaks)
    (hop : (Precedence.ofOperator? op).isSome = true) (hr : Lexes r rs next) :
    Lexes (l ++ " " ++ op ++ " " ++ r) (ls ++ op :: rs) next := by
  intro rest hrest
  simp only [String.toList_append, List.append_assoc]
  change lex (l.toList ++ ' ' :: (op.toList ++ ' ' :: (r.toList ++ rest))) = _
  rw [hl _ (by simp [breaks]), lex_operator hop, hr rest hrest]
  simp

theorem lex_optional (opt : Bool) (rest : List Char) :
    lex ((if opt then "?." else "").toList ++ rest) = optionalTokens opt ++ lex rest := by
  cases opt with
  | false => rfl
  | true => exact lex_closedSymbol (by decide) rest

theorem head_optional (opt : Bool) {s : String} (hs : s ∈ ["(", "["]) (rest : List Char) :
    ∀ c ∈ ((if opt then "?." else "").toList ++ (s.toList ++ rest)).head?, c ∈ breaks := by
  simp only [List.mem_cons, List.not_mem_nil, or_false] at hs
  cases opt with
  | false => rcases hs with rfl | rfl <;> rintro c ⟨⟩ <;> decide
  | true => rintro c ⟨⟩; decide

theorem lex_dot (opt : Bool) {p : String} (hp : IsIdentifier p) (rest : List Char) :
    lex ((if opt then "?." else ".").toList ++ (p.toList ++ rest)) =
      (if opt then "?." else ".") :: lex (p.toList ++ rest) := by
  cases opt with
  | true => exact lex_closedSymbol (by decide) _
  | false =>
    obtain ⟨c, cs, hlist, hdigit, hhead⟩ := hp.head
    have hpoint : c ≠ '.' := by
      rcases hhead with hchar | rfl
      · exact ne_of_isIdentifierChar hchar (by decide)
      · decide
    rw [hlist]
    exact lex_point hdigit hpoint

/-- A conditional, between whose parts the signs stand between spaces. -/
theorem Lexes.choice {t y n : String} {us ys ns : List Token} (ht : Lexes t us breaks)
    (hy : Lexes y ys breaks) (hn : Lexes n ns next) :
    Lexes (t ++ " ? " ++ y ++ " : " ++ n) (us ++ "?" :: (ys ++ ":" :: ns)) next := by
  intro rest hrest
  simp only [String.toList_append, List.append_assoc]
  change lex (t.toList ++ ' ' :: '?' :: ' ' :: (y.toList ++ ' ' :: (":".toList ++ ' ' ::
    (n.toList ++ rest)))) = _
  rw [ht _ (by simp [breaks]), lex_space, lex_question, lex_space, hy _ (by simp [breaks]),
    lex_space, lex_closedSymbol (by decide), lex_space, hn rest hrest]
  simp

/-- A call or an access by index. -/
theorem Lexes.bracketed {i opened closed : String} {is : List Token} (h : Lexes text ts breaks)
    (hi : Lexes i is breaks) (opt : Bool) (hopened : opened ∈ ["(", "["])
    (hclosed : closed ∈ [")", "]"]) :
    Lexes (text ++ (if opt then "?." else "") ++ opened ++ i ++ closed)
      (ts ++ (optionalTokens opt ++ opened :: (is ++ [closed]))) next := by
  have hsymbols : ∀ s ∈ ["(", "["] ++ [")", "]"], s ∈ closedSymbols := by decide
  intro rest _
  simp only [String.toList_append, List.append_assoc]
  rw [h _ (head_optional opt hopened _), lex_optional,
    lex_closedSymbol (hsymbols _ (List.mem_append_left _ hopened)), hi _ ?_,
    lex_closedSymbol (hsymbols _ (List.mem_append_right _ hclosed))]
  · simp
  · simp only [List.mem_cons, List.not_mem_nil, or_false] at hclosed
    rcases hclosed with rfl | rfl <;> simp [breaks]

theorem Lexes.property {p : String} (h : Lexes text ts ('.' :: breaks)) (opt : Bool)
    (hp : IsIdentifier p) :
    Lexes (text ++ (if opt then "?." else ".") ++ p) (ts ++ [if opt then "?." else ".", p])
      ('.' :: breaks) := by
  intro rest hrest
  have hlex : lex (p.toList ++ rest) = p :: lex rest :=
    lex_identifier hp fun c hc => breaks_spec c (hrest c hc)
  simp only [String.toList_append, List.append_assoc]
  rw [h _ (by cases opt <;> simp [breaks]), lex_dot opt hp, hlex]
  simp

/-- **Lexing finds the tokens of an expression in its text.** -/
theorem Plain.lexes (h : Plain e) : Lexes e.text e.tokens e.nextChars := by
  -- an operand ends at a break; only the target of an access may have a point behind it
  induction h with
  | name hn _ =>
    intro rest hrest
    rw [Expr.text, tokens]
    exact lex_identifier hn fun c hc => breaks_spec c (mem_nextChars (hrest c hc))
  | literal hv => exact literal_lexes hv
  | unary hop he ih =>
    rw [nextChars_eq_breaks (e := .unary _ _) (by decide : Precedence.unary < .call), Expr.text,
      tokens]
    exact Lexes.unary hop (he.begins.group _ _) ((ih.mono (breaks_subset _)).group _ _)
  | @binary op l r hop _ _ hl hr =>
    have hl := hl.mono (breaks_subset l)
    have hr := hr.mono (breaks_subset r)
    rw [nextChars_eq_breaks (e := .binary l op r) (ofOperator_lt_call op), Expr.text, tokens]
    split
    · exact (hl.group _ _).between hop.1 (hr.group _ _)
    · exact (hl.group _ _).between hop.1 (hr.group _ _)
  | @logical op l r hop _ _ hl hr =>
    rw [nextChars_eq_breaks (e := .logical l op r) (ofOperator_lt_call op), Expr.text, tokens]
    exact ((hl.mono (breaks_subset l)).logicalOperand _ _ _).between (isSome_of_logical hop)
      ((hr.mono (breaks_subset r)).logicalOperand _ _ _)
  | @cond t y n _ _ _ ht hy hn =>
    rw [nextChars_eq_breaks (e := .cond t y n) (by decide : Precedence.conditional < .call), Expr.text,
      tokens]
    exact ((ht.mono (breaks_subset t)).group _ _).choice ((hy.mono (breaks_subset y)).group _ _)
      ((hn.mono (breaks_subset n)).group _ _)
  | @call f args opt _ _ hf hargs =>
    have hargs := listText_lexes fun a ha => (hargs a ha).mono (breaks_subset a)
    rw [Expr.text, tokens]
    exact ((hf.mono (breaks_subset f)).group _ _).bracketed hargs opt (by decide) (by decide)
  | @member e p opt _ hp he =>
    rw [Expr.text, tokens]
    exact (he.memberTarget.property opt hp).mono fun c hc => mem_nextChars hc
  | @index e i opt _ _ he hi =>
    rw [Expr.text, tokens]
    exact ((he.mono (breaks_subset e)).group _ _).bracketed (hi.mono (breaks_subset i)) opt
      (by decide) (by decide)
  | @sequence es _ _ ih =>
    rw [nextChars_eq_breaks (e := .sequence es) (by decide : Precedence.sequence < .call), Expr.text,
      tokens]
    exact listText_lexes fun e he => (ih e he).mono (breaks_subset e)

end Expr
end CondUnfold
