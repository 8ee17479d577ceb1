import CondUnfold.Proofs.ExprTokens

/-!
# The grammar of expressions

The levels of the grammar are those of precedence: an expression of one level may stand where a lower
level is asked for, and anything may stand there in parentheses. Between the conditional and the
bitwise operators the levels fork: `??` makes expressions of one kind and `||` of another, and neither
kind may be an operand of the other. The tokens of an expression are derived at the level of its
precedence, and what is derived is the expression itself (`Expr.Plain.derives`).
-/

namespace CondUnfold

open Lexing

/-- What can be derived: the expressions of a level, or one of the two kinds that make up the level of
short-circuit expressions. -/
inductive Nonterminal where
  | level (p : Precedence)
  /-- Operands with `??` between them. -/
  | coalesce
  /-- Operands with `||` between them. -/
  | either

/-- Items with commas between them. -/
def commaSeparated : List (List Token) → List Token
  | [] => []
  | ts :: rest => ts ++ rest.flatMap ("," :: ·)

open CondUnfold.Expr in
/-- The tokens can be derived from the nonterminal, and the derivation makes the expression.
Parentheses leave no trace in it. -/
inductive Derives : Nonterminal → List Token → Expr → Prop where
  /-- Every level takes in the next one, save that of short-circuit expressions. -/
  | chain : 1 ≤ p → p < .primary → p ≠ .disjunction → Derives (.level (p + 1)) ts e →
    Derives (.level p) ts e
  | ofCoalesce : Derives .coalesce ts e → Derives (.level .disjunction) ts e
  | ofEither : Derives .either ts e → Derives (.level .disjunction) ts e
  | ofConjunction : Derives (.level (.ofOperator "&&")) ts e → Derives .either ts e
  | name : IsIdentifier n → Lexeme.isReserved n = false → Derives (.level .primary) [n] (.name n)
  | literal : IsLiteral v → Derives (.level .primary) [v] (.literal v)
  | parentheses : Derives (.level .sequence) ts e →
    Derives (.level .primary) (parenthesized ts) e
  | call {items : List (List Token × Expr)} : Derives (.level .call) ts f →
    (∀ item ∈ items, Derives (.level .assignment) item.1 item.2) →
    Derives (.level .call) (ts ++ (optionalTokens opt ++
      parenthesized (commaSeparated (items.map (·.1))))) (.call f (items.map (·.2)) opt)
  | member : Derives (.level .call) ts e → IsIdentifier p →
    Derives (.level .call) (ts ++ [if opt then "?." else ".", p]) (.member e p opt)
  | index : Derives (.level .call) ts e → Derives (.level .sequence) is i →
    Derives (.level .call) (ts ++ (optionalTokens opt ++ "[" :: (is ++ ["]"]))) (.index e i opt)
  | unary : op ∈ unaryOperators → Derives (.level .unary) ts e →
    Derives (.level .unary) (op :: ts) (.unary op e)
  /-- The left operand of `**` is no unary expression, and the operator associates to the right. -/
  | power : Derives (.level .postfixed) ls l → Derives (.level .exponent) rs r →
    Derives (.level .exponent) (ls ++ "**" :: rs) (.binary l "**" r)
  /-- The other operators associate to the left. -/
  | binary : IsBinaryOperator op → Precedence.ofOperator op < .exponent →
    Derives (.level (.ofOperator op)) ls l → Derives (.level (.ofOperator op + 1)) rs r →
    Derives (.level (.ofOperator op)) (ls ++ op :: rs) (.binary l op r)
  | conjunction : Derives (.level (.ofOperator "&&")) ls l →
    Derives (.level (.ofOperator "|")) rs r →
    Derives (.level (.ofOperator "&&")) (ls ++ "&&" :: rs) (.logical l "&&" r)
  | either : Derives .either ls l → Derives (.level (.ofOperator "&&")) rs r →
    Derives .either (ls ++ "||" :: rs) (.logical l "||" r)
  | coalesceFirst : Derives (.level (.ofOperator "|")) ls l →
    Derives (.level (.ofOperator "|")) rs r →
    Derives .coalesce (ls ++ "??" :: rs) (.logical l "??" r)
  | coalesceMore : Derives .coalesce ls l → Derives (.level (.ofOperator "|")) rs r →
    Derives .coalesce (ls ++ "??" :: rs) (.logical l "??" r)
  /-- A conditional associates to the right, and its test is a short-circuit expression at least. -/
  | cond : Derives (.level .disjunction) ts t → Derives (.level .assignment) ys y →
    Derives (.level .assignment) ns n →
    Derives (.level .conditional) (ts ++ "?" :: (ys ++ ":" :: ns)) (.cond t y n)
  | sequence {items : List (List Token × Expr)} : 2 ≤ items.length →
    (∀ item ∈ items, Derives (.level .assignment) item.1 item.2) →
    Derives (.level .sequence) (commaSeparated (items.map (·.1))) (.sequence (items.map (·.2)))

namespace Derives

variable {ts : List Token} {e : Expr}

theorem lower_add (n : Nat) {q : Int} (hq : 1 ≤ q) (hp : q + n ≤ Precedence.primary)
    (h : Derives (.level (q + n)) ts e) : Derives (.level q) ts e := by
  induction n generalizing q with
  | zero => simpa using h
  | succ n ih =>
    have hsum : q + (n + 1 : Nat) = q + 1 + n := by omega
    rw [hsum] at h hp
    have hnext : Derives (.level (q + 1)) ts e := ih (by omega) hp h
    by_cases hfour : q = Precedence.disjunction
    · subst hfour
      exact .ofEither (.ofConjunction hnext)
    · have hlt : q < Precedence.primary := by omega
      exact .chain hq hlt hfour hnext

/-- What is derived at one level is derived at every lower one. -/
theorem lower {p q : Int} (h : Derives (.level p) ts e) (hq : 1 ≤ q) (hqp : q ≤ p)
    (hp : p ≤ Precedence.primary) : Derives (.level q) ts e := by
  obtain ⟨n, rfl⟩ : ∃ n : Nat, p = q + n := ⟨(p - q).toNat, by omega⟩
  exact lower_add n hq hp h

theorem parenthesized {p q : Int} (h : Derives (.level p) ts e) (hp : 1 ≤ p)
    (hp' : p ≤ Precedence.primary) (hq : 1 ≤ q) (hq' : q ≤ Precedence.primary) :
    Derives (.level q) (Expr.parenthesized ts) e :=
  (Derives.parentheses (h.lower (Int.le_refl 1) hp hp')).lower hq hq' (Int.le_refl _)

end Derives

namespace Expr

variable {e l r : Expr} {ts : List Token} {op : String}

/-! ## Levels of expressions -/

theorem binary_range (h : IsBinaryOperator op) :
    (6 : Int) ≤ Precedence.ofOperator op ∧
      (op ≠ "**" → Precedence.ofOperator op < Precedence.exponent) := by
  have hall : ∀ op ∈ operators, isLogicalOperator op = false →
      (6 : Int) ≤ Precedence.ofOperator op ∧
        (op ≠ "**" → Precedence.ofOperator op < Precedence.exponent) := by decide
  exact hall op (mem_operators h.1) h.2

/-- The logical operators have the levels that lie between the conditional and the bitwise
operators, and no other operator has one of these. -/
theorem Plain.precedence_cases (h : Plain e) : (∃ l op r, e = .logical l op r) ∨
    (1 : Int) ≤ e.precedence ∧ e.precedence ≤ Precedence.conditional ∨
    (6 : Int) ≤ e.precedence ∧ e.precedence ≤ Precedence.primary := by
  cases h with
  | logical => exact .inl ⟨_, _, _, rfl⟩
  | binary hop =>
    exact .inr (.inr ⟨(binary_range hop).1, Int.le_trans (ofOperator_range _).2 (by decide)⟩)
  | cond | sequence => exact .inr (.inl (by simp only [precedence]; decide))
  | _ => exact .inr (.inr (by simp only [precedence]; decide))

theorem Plain.precedence_range (h : Plain e) :
    (1 : Int) ≤ e.precedence ∧ e.precedence ≤ Precedence.primary := by
  obtain ⟨l, op, r, rfl⟩ | ⟨hle, hle'⟩ | ⟨hle, hle'⟩ := h.precedence_cases
  · exact ⟨Int.le_trans (by decide) (ofOperator_range op).1,
      Int.le_trans (ofOperator_range op).2 (by decide)⟩
  · exact ⟨hle, Int.le_trans hle' (by decide)⟩
  · exact ⟨Int.le_trans (by decide) hle, hle'⟩

/-- The nonterminal of an expression: its level, or its kind of short-circuit expression. -/
def nonterminal : Expr → Nonterminal
  | .logical _ "??" _ => .coalesce
  | .logical _ "||" _ => .either
  | e => .level e.precedence

theorem level_of_nonterminal (hd : Derives e.nonterminal ts e) :
    Derives (.level e.precedence) ts e := by
  unfold nonterminal at hd
  split at hd
  · exact .ofCoalesce hd
  · exact .ofEither hd
  · exact hd

theorem Plain.derives_group (h : Plain e) (hd : Derives (.level e.precedence) ts e) {least : Int}
    (hleast : 1 ≤ least) (hleast' : least ≤ Precedence.primary) :
    Derives (.level least) (groupTokens e.precedence least ts) e := by
  obtain ⟨hlow, hhigh⟩ := h.precedence_range
  unfold groupTokens
  split
  · exact hd.parenthesized hlow hhigh hleast hleast'
  · next hle => exact hd.lower hleast (Int.not_lt.mp hle) hhigh

/-- An operand of a logical operator stands in parentheses, or it does not clash and binds tight
enough. -/
theorem logicalOperandTokens_cases (op : String) (e : Expr) (least : Precedence)
    (ts : List Token) :
    logicalOperandTokens op e least ts = parenthesized ts ∨
      logicalOperandTokens op e least ts = ts ∧ e.clashes op = false ∧ least ≤ e.precedence := by
  unfold logicalOperandTokens groupTokens
  split
  · exact .inl rfl
  · next hclash =>
    split
    · exact .inl rfl
    · next hle => exact .inr ⟨rfl, Bool.eq_false_iff.mpr hclash, Int.not_lt.mp hle⟩

theorem Plain.derives_logicalOperand (h : Plain e) (hd : Derives (.level e.precedence) ts e)
    (op : String) {least : Int} (hleast : 1 ≤ least) (hleast' : least ≤ Precedence.primary) :
    Derives (.level least) (logicalOperandTokens op e least ts) e := by
  obtain ⟨hlow, hhigh⟩ := h.precedence_range
  obtain heq | ⟨heq, _, hle⟩ := logicalOperandTokens_cases op e least ts
  · rw [heq]
    exact hd.parenthesized hlow hhigh hleast hleast'
  · rw [heq]
    exact hd.lower hleast hle hhigh

/-- What binds as tight as `||` is a logical expression, or it binds tighter than all of these. -/
theorem Plain.logical_or_tighter (h : Plain e) (hle : Precedence.ofOperator "||" ≤ e.precedence) :
    (∃ l op r, e = .logical l op r ∧ (op = "??" ∨ op = "||" ∨ op = "&&")) ∨
      Precedence.ofOperator "|" ≤ e.precedence := by
  obtain ⟨l, op, r, rfl⟩ | hlower | hhigher := h.precedence_cases
  · cases h with
    | logical hop _ _ => exact .inl ⟨l, op, r, rfl, logical_cases hop⟩
  · exact absurd (Int.le_trans hle hlower.2) (by decide)
  · exact .inr hhigher.1

/-- The left operand of `||`: another one with `||`, or one that binds tighter. -/
theorem Plain.derives_eitherOperand (h : Plain e) (hd : Derives e.nonterminal ts e) :
    Derives .either (logicalOperandTokens "||" e (.ofOperator "||") ts) e := by
  have hlevel := level_of_nonterminal hd
  obtain ⟨hlow, hhigh⟩ := h.precedence_range
  obtain heq | ⟨heq, hclash, hle⟩ := logicalOperandTokens_cases "||" e (.ofOperator "||") ts
  · rw [heq]
    exact .ofConjunction (hlevel.parenthesized hlow hhigh (by decide) (by decide))
  · rw [heq]
    obtain ⟨l, op, r, rfl, rfl | rfl | rfl⟩ | htighter := h.logical_or_tighter hle
    · cases hclash
    · exact hd
    · exact .ofConjunction hd
    · exact .ofConjunction (hlevel.lower (by decide) (Int.le_trans (by decide) htighter) hhigh)

/-- The left operand of `??`: another one with `??`, or one that binds tighter than every logical
operator. -/
theorem Plain.derives_coalesceOperand (h : Plain e) (hd : Derives e.nonterminal ts e) :
    Derives .coalesce (logicalOperandTokens "??" e (.ofOperator "??") ts) e ∨
      Derives (.level (.ofOperator "|")) (logicalOperandTokens "??" e (.ofOperator "??") ts) e := by
  have hlevel := level_of_nonterminal hd
  obtain ⟨hlow, hhigh⟩ := h.precedence_range
  obtain heq | ⟨heq, hclash, hle⟩ := logicalOperandTokens_cases "??" e (.ofOperator "??") ts
  · rw [heq]
    exact .inr (hlevel.parenthesized hlow hhigh (by decide) (by decide))
  · rw [heq]
    obtain ⟨l, op, r, rfl, rfl | rfl | rfl⟩ | htighter := h.logical_or_tighter hle
    · exact .inl hd
    · cases hclash
    · cases hclash
    · exact .inr (hlevel.lower (by decide) htighter hhigh)

/-- The right operand of `??` binds tighter than every logical operator. -/
theorem Plain.derives_coalesceRight (h : Plain e) (hd : Derives (.level e.precedence) ts e) :
    Derives (.level (.ofOperator "|"))
      (logicalOperandTokens "??" e (.ofOperator "??" + 1) ts) e := by
  obtain ⟨hlow, hhigh⟩ := h.precedence_range
  obtain heq | ⟨heq, hclash, hle⟩ := logicalOperandTokens_cases "??" e (.ofOperator "??" + 1) ts
  · rw [heq]
    exact hd.parenthesized hlow hhigh (by decide) (by decide)
  · rw [heq]
    obtain ⟨l, op, r, rfl, rfl | rfl | rfl⟩ | htighter :=
      h.logical_or_tighter (Int.le_trans (by decide) hle)
    · exact absurd hle (by simp only [precedence]; decide)
    · cases hclash
    · cases hclash
    · exact hd.lower (by decide) htighter hhigh

theorem listTokens_eq (es : List Expr) : listTokens es =
    commaSeparated (es.map fun e => groupTokens e.precedence .assignment e.tokens) := by
  have hrest : ∀ es : List Expr, restTokens es =
      (es.map fun e => groupTokens e.precedence .assignment e.tokens).flatMap ("," :: ·) := by
    intro es
    induction es with
    | nil => rfl
    | cons e es ih => rw [restTokens, ih]; rfl
  cases es with
  | nil => rfl
  | cons e es => rw [listTokens, hrest]; rfl

theorem items_of_derives {es : List Expr} (h : ∀ e ∈ es,
    Derives (.level .assignment) (groupTokens e.precedence .assignment e.tokens) e) :
    ∃ items : List (List Token × Expr), items.map (·.2) = es ∧
      commaSeparated (items.map (·.1)) = listTokens es ∧
      ∀ item ∈ items, Derives (.level .assignment) item.1 item.2 := by
  refine ⟨es.map fun e => (groupTokens e.precedence .assignment e.tokens, e), ?_, ?_, ?_⟩
  · rw [List.map_map]
    exact List.map_id es
  · rw [List.map_map, listTokens_eq]
    rfl
  · intro item hitem
    obtain ⟨e, he, rfl⟩ := List.mem_map.mp hitem
    exact h e he

theorem Plain.derives_memberTarget (h : Plain e) (hd : Derives (.level e.precedence) ts e) :
    Derives (.level .call) (memberTargetTokens e ts) e := by
  have hgroup : Derives (.level .call) (groupTokens e.precedence .call ts) e :=
    h.derives_group hd (by decide) (by decide)
  unfold memberTargetTokens
  split
  · exact hgroup.parenthesized (by decide) (by decide) (by decide) (by decide)
  · exact hgroup

/-- **The tokens of an expression are derived from its nonterminal, and make the expression.** -/
theorem Plain.derives (h : Plain e) : Derives e.nonterminal e.tokens e := by
  induction h with
  | name hn hreserved => rw [tokens]; exact .name hn hreserved
  | literal hv => rw [tokens]; exact .literal hv
  | unary hop he ih =>
    rw [tokens]
    exact .unary hop (he.derives_group (level_of_nonterminal ih) (by decide) (by decide))
  | @binary op l r hop hl hr ihl ihr =>
    have ihl := level_of_nonterminal ihl
    have ihr := level_of_nonterminal ihr
    rw [tokens]
    by_cases hpower : op = "**"
    · subst hpower
      exact .power (hl.derives_group ihl (by decide) (by decide))
        (hr.derives_group ihr (by decide) (by decide))
    · obtain ⟨hsix, hlt⟩ := binary_range hop
      have hlt := hlt hpower
      rw [if_neg (by simpa using hpower)]
      exact .binary hop hlt
        (hl.derives_group ihl (Int.le_trans (by decide) hsix)
          (Int.le_trans (Int.le_of_lt hlt) (by decide)))
        (hr.derives_group ihr (Int.le_trans (by decide) (Int.add_le_add_right hsix 1))
          (Int.le_trans (Int.add_one_le_of_lt hlt) (by decide)))
  | @logical op l r hop hl hr ihl ihr =>
    have hright := level_of_nonterminal ihr
    rw [tokens]
    rcases logical_cases hop with rfl | rfl | rfl
    · rcases hl.derives_coalesceOperand ihl with hleft | hleft
      · exact .coalesceMore hleft (hr.derives_coalesceRight hright)
      · exact .coalesceFirst hleft (hr.derives_coalesceRight hright)
    · exact .either (hl.derives_eitherOperand ihl)
        (hr.derives_logicalOperand hright "||" (by decide) (by decide))
    · exact .conjunction
        (hl.derives_logicalOperand (level_of_nonterminal ihl) "&&" (by decide) (by decide))
        (hr.derives_logicalOperand hright "&&" (by decide) (by decide))
  | cond ht hy hn iht ihy ihn =>
    rw [tokens]
    exact .cond (ht.derives_group (level_of_nonterminal iht) (by decide) (by decide))
      (hy.derives_group (level_of_nonterminal ihy) (by decide) (by decide))
      (hn.derives_group (level_of_nonterminal ihn) (by decide) (by decide))
  | @call f args opt hf hargs ihf ihargs =>
    obtain ⟨items, rfl, htokens, hitems⟩ := items_of_derives fun a ha =>
      (hargs a ha).derives_group (level_of_nonterminal (ihargs a ha)) (by decide) (by decide)
    rw [tokens, ← htokens]
    exact .call (hf.derives_group (level_of_nonterminal ihf) (by decide) (by decide)) hitems
  | member he hp ih =>
    rw [tokens]
    exact .member (he.derives_memberTarget (level_of_nonterminal ih)) hp
  | index he hi ihe ihi =>
    rw [tokens]
    obtain ⟨hlow, hhigh⟩ := hi.precedence_range
    exact .index (he.derives_group (level_of_nonterminal ihe) (by decide) (by decide))
      ((level_of_nonterminal ihi).lower (Int.le_refl 1) hlow hhigh)
  | @sequence es hlength hes ih =>
    obtain ⟨items, rfl, htokens, hitems⟩ := items_of_derives fun e he =>
      (hes e he).derives_group (level_of_nonterminal (ih e he)) (by decide) (by decide)
    rw [tokens, ← htokens]
    exact .sequence (by rwa [List.length_map] at hlength) hitems

/-! ## Reading a text back -/

theorem Plain.isPrintable (h : Plain e) : e.isPrintable = true := by
  induction h with
  | name | literal => rfl
  | unary _ _ ih => exact ih
  | binary _ _ _ hl hr => rw [Expr.isPrintable, hl, hr]; rfl
  | logical hop _ _ hl hr => rw [Expr.isPrintable, isSome_of_logical hop, hl, hr]; rfl
  | cond _ _ _ ht hy hn => rw [Expr.isPrintable, ht, hy, hn]; rfl
  | call _ _ hf hargs => rw [Expr.isPrintable, hf, arePrintable_iff.mpr hargs]; rfl
  | member _ _ he => exact he
  | index _ _ he hi => rw [Expr.isPrintable, he, hi]; rfl
  | sequence _ _ hes => exact arePrintable_iff.mpr hes

theorem Plain.lex_text (h : Plain e) : lex e.text.toList = e.tokens := by
  have hlex := h.lexes [] (fun c hc => by cases hc)
  rwa [List.append_nil, lex, List.append_nil] at hlex

/-- **The text of an expression is read back as that expression.** Lexing cuts it into the tokens it
was made from, and these are derived at the level of the expression's precedence, with the expression
as the tree. -/
theorem Plain.render_reads_back (h : Plain e) :
    e.render = .ok e.text ∧ Spelled e.tokens e.text.toList ∧ lex e.text.toList = e.tokens ∧
      Derives (.level e.precedence) e.tokens e := by
  have hlex := h.lex_text
  refine ⟨render_of_isPrintable h.isPrintable, ?_, hlex, level_of_nonterminal h.derives⟩
  have hspelled := spelled_lex e.text.toList
  rwa [hlex] at hspelled

namespace MixedOperators

/-- A conditional whose parts need their parentheses, or must not have them. -/
def choice : Expr :=
  let a := .name "a"
  let b := .name "b2"
  let c := .name "$c"
  let x := .name "typeofx"
  .cond (.logical (.logical a "??" b) "||" (.unary "-" (.unary "-" x)))
    (.binary (.unary "typeof" c) "**" (.binary x "**" (.literal "2")))
    (.index (.call x [.sequence [a, b], .literal "'? s'"] false)
      (.member (.literal "1") "in" true) false)

theorem name_plain {n : String} (hne : n ≠ "") (hhead : n.toList.head?.all (!·.isDigit) = true)
    (hchars : n.toList.all (fun c => c.isAlphanum || c == '_' || c == '$') = true)
    (hreserved : Lexeme.isReserved n = false) : Plain (.name n) := by
  refine .name (isIdentifier_of_ascii hne ?_ ?_) hreserved
  · intro c hc
    rw [Option.mem_def.mp hc] at hhead
    simpa using hhead
  · intro c hc
    simpa [or_assoc] using List.all_eq_true.mp hchars c hc

theorem choice_plain : Plain choice := by
  have ha : Plain (.name "a") := name_plain (by decide) rfl rfl rfl
  have hb : Plain (.name "b2") := name_plain (by decide) rfl rfl rfl
  have hc : Plain (.name "$c") := name_plain (by decide) rfl rfl rfl
  have hx : Plain (.name "typeofx") := name_plain (by decide) rfl rfl rfl
  have hstring : IsLiteral "'? s'" :=
    .inr (.inr ⟨'\'', "? s".toList, .inr rfl, rfl, List.all_iff_forall_prop.mp (by decide)⟩)
  have hlist : Plain (.sequence [.name "a", .name "b2"]) :=
    .sequence (by decide) (List.forall_mem_cons.mpr ⟨ha, List.forall_mem_singleton.mpr hb⟩)
  have hcall : Plain (.call (.name "typeofx") [.sequence [.name "a", .name "b2"],
      .literal "'? s'"] false) :=
    .call hx (List.forall_mem_cons.mpr ⟨hlist, List.forall_mem_singleton.mpr (.literal hstring)⟩)
  exact .cond (.logical rfl (.logical rfl ha hb) (.unary (by decide) (.unary (by decide) hx)))
    (.binary ⟨rfl, rfl⟩ (.unary (by decide) hc)
      (.binary ⟨rfl, rfl⟩ hx (.literal (.inl ⟨by decide, List.all_eq_true.mp rfl⟩))))
    (.index hcall (.member (.literal (.inl ⟨by decide, List.all_eq_true.mp rfl⟩)) ⟨by decide, rfl⟩))

theorem choice_reads_back :
    Plain choice ∧
      choice.render = .ok
        "(a ?? b2) || - -typeofx ? (typeof $c) ** typeofx ** 2 : typeofx((a, b2), '? s')[(1)?.in]" ∧
      lex ("(a ?? b2) || - -typeofx ? (typeof $c) ** typeofx ** 2 : " ++
          "typeofx((a, b2), '? s')[(1)?.in]").toList =
        ["(", "a", "??", "b2", ")", "||", "-", "-", "typeofx", "?", "(", "typeof", "$c", ")", "**",
          "typeofx", "**", "2", ":", "typeofx", "(", "(", "a", ",", "b2", ")", ",", "'? s'", ")", "[",
          "(", "1", ")", "?.", "in", "]"] ∧
      Derives (.level .conditional)
        ["(", "a", "??", "b2", ")", "||", "-", "-", "typeofx", "?", "(", "typeof", "$c", ")", "**",
          "typeofx", "**", "2", ":", "typeofx", "(", "(", "a", ",", "b2", ")", ",", "'? s'", ")", "[",
          "(", "1", ")", "?.", "in", "]"] choice := by
  obtain ⟨hrender, _, hlex, hderives⟩ := choice_plain.render_reads_back
  have htext : choice.text = "(a ?? b2) || - -typeofx ? (typeof $c) ** typeofx ** 2 : " ++
      "typeofx((a, b2), '? s')[(1)?.in]" := by decide +kernel
  have htokens : choice.tokens =
      ["(", "a", "??", "b2", ")", "||", "-", "-", "typeofx", "?", "(", "typeof", "$c", ")", "**",
        "typeofx", "**", "2", ":", "typeofx", "(", "(", "a", ",", "b2", ")", ",", "'? s'", ")", "[",
        "(", "1", ")", "?.", "in", "]"] := by decide +kernel
  rw [htokens] at hlex hderives
  rw [htext] at hlex
  exact ⟨choice_plain, hrender.trans (congrArg Except.ok htext), hlex, hderives⟩

end MixedOperators
end Expr
end CondUnfold
