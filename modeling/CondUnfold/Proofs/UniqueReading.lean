import CondUnfold.Proofs.ExprGrammar

/-!
# Unique reading

Tokens derive at most one expression. They are read from left to right with a stack of what stands
open, and an operator on top of the stack is closed as soon as the next token binds no tighter. From
whatever the grammar derives the reader makes the derived expression (`Derives.reads`), so that two
derivations of one list of tokens agree and two expressions with one text are the same
(`Expr.Plain.eq_of_text_eq`).
-/

namespace CondUnfold

open Lexing

def Nonterminal.rank : Nonterminal → Int
  | .level p => p
  | .coalesce | .either => Precedence.disjunction

namespace TokenReader

/-! ## The reader -/

/-- Something that stands open: an operator that waits for its last operand, or a bracket. -/
inductive Frame where
  | unary (op : String)
  | binary (left : Expr) (op : String)
  | logical (left : Expr) (op : String)
  /-- The last part of a conditional. -/
  | otherwise (test yes : Expr)
  /-- The items of a sequence behind which a comma stands. -/
  | items (es : List Expr)
  | parenthesis
  | arguments (callee : Expr) (args : List Expr) (optional : Bool)
  | index (target : Expr) (optional : Bool)
  /-- The middle part of a conditional. -/
  | choice (test : Expr)

namespace Frame

/-- How tight an open operator binds. Brackets are never closed by what follows an operand. -/
def level : Frame → Int
  | .unary _ => Precedence.unary
  | .binary _ op | .logical _ op => Precedence.ofOperator op
  | .otherwise .. => Precedence.conditional
  | .items _ => Precedence.sequence
  | .parenthesis | .arguments .. | .index .. | .choice _ => 0

/-- The least level of the operand that is waited for. -/
def slot : Frame → Int
  | .unary _ => Precedence.unary
  | .binary _ op => if op == "**" then Precedence.exponent else Precedence.ofOperator op + 1
  | .logical _ op => Precedence.ofOperator op + 1
  | .otherwise .. | .items _ | .arguments .. | .choice _ => Precedence.assignment
  | .parenthesis | .index .. => Precedence.sequence

/-- The expression that an operator makes from its last operand. -/
def close : Frame → Expr → Expr
  | .unary op, e => .unary op e
  | .binary l op, e => .binary l op e
  | .logical l op, e => .logical l op e
  | .otherwise t y, e => .cond t y e
  | .items es, e => .sequence (es ++ [e])
  | .parenthesis, e | .arguments .., e | .index .., e | .choice _, e => e

end Frame

/-- What has been read last. -/
inductive Focus where
  /-- Nothing that could stand alone: an operand is next. -/
  | operand
  | value (e : Expr)
  /-- A target and a point: the name of a property is next. -/
  | property (target : Expr)
  /-- A target and `?.`: an argument list, an index or the name of a property is next. -/
  | chain (target : Expr)

/-- Close the operators on top that bind at least as tight as `p`. -/
def settle (p : Int) : List Frame → Expr → List Frame × Expr
  | [], e => ([], e)
  | frame :: stack, e =>
    if p ≤ frame.level then settle p stack (frame.close e) else (frame :: stack, e)

/-- How tight a token behind an operand binds that operand. The left operand of `**` is no unary
expression, and the test of a conditional no conditional. -/
def strength : Token → Int
  | ")" | "]" => Precedence.sequence
  | "," | ":" => Precedence.assignment
  | "?" => Precedence.disjunction
  | "**" => Precedence.unary
  | "." | "?." | "(" | "[" => Precedence.call
  | op => Precedence.ofOperator op

/-- The strength of what follows an operand, where the end of the tokens is a closing bracket. -/
def follow : List Token → Int
  | [] => Precedence.sequence
  | t :: _ => strength t

structure State where
  stack : List Frame
  focus : Focus

def startsWith (t : Token) (cs : List Char) : Bool := t.toList.head?.any cs.contains

/-- Is the token a literal, once it is known to be an operand? -/
def isLiteralToken (t : Token) : Bool :=
  startsWith t "0123456789\"'".toList || ["true", "false", "null"].contains t

def stepOperand (stack : List Frame) (t : Token) : Option State :=
  if t = "(" then some ⟨.parenthesis :: stack, .operand⟩
  else if t = ")" then
    match stack with
    -- a call without arguments is the only bracket that may be empty
    | .arguments f [] opt :: stack => some ⟨stack, .value (.call f [] opt)⟩
    | _ => none
  else if t ∈ Expr.unaryOperators then some ⟨.unary t :: stack, .operand⟩
  else if isLiteralToken t then some ⟨stack, .value (.literal t)⟩
  else some ⟨stack, .value (.name t)⟩

/-- Read a token behind an operand that everything open in it has been closed for. -/
def stepValue (stack : List Frame) (e : Expr) : Token → Option State
  | ")" =>
    match stack with
    | .parenthesis :: stack => some ⟨stack, .value e⟩
    | .arguments f es opt :: stack => some ⟨stack, .value (.call f (es ++ [e]) opt)⟩
    | _ => none
  | "]" =>
    match stack with
    | .index t opt :: stack => some ⟨stack, .value (.index t e opt)⟩
    | _ => none
  | "," =>
    match stack with
    | .arguments f es opt :: stack => some ⟨.arguments f (es ++ [e]) opt :: stack, .operand⟩
    | .items es :: stack => some ⟨.items (es ++ [e]) :: stack, .operand⟩
    | stack => some ⟨.items [e] :: stack, .operand⟩
  | ":" =>
    match stack with
    | .choice t :: stack => some ⟨.otherwise t e :: stack, .operand⟩
    | _ => none
  | "?" => some ⟨.choice e :: stack, .operand⟩
  | "." => some ⟨stack, .property e⟩
  | "?." => some ⟨stack, .chain e⟩
  | "(" => some ⟨.arguments e [] false :: stack, .operand⟩
  | "[" => some ⟨.index e false :: stack, .operand⟩
  | op =>
    if Expr.isLogicalOperator op then some ⟨.logical e op :: stack, .operand⟩
    else if (Precedence.ofOperator? op).isSome then some ⟨.binary e op :: stack, .operand⟩
    else none

def stepChain (stack : List Frame) (e : Expr) (t : Token) : State :=
  if t = "(" then ⟨.arguments e [] true :: stack, .operand⟩
  else if t = "[" then ⟨.index e true :: stack, .operand⟩
  else ⟨stack, .value (.member e t true)⟩

namespace State

def step (s : State) (t : Token) : Option State :=
  match s.focus with
  | .operand => stepOperand s.stack t
  | .value e =>
    let (stack, e) := settle (strength t) s.stack e
    stepValue stack e t
  | .property e => some ⟨s.stack, .value (.member e t false)⟩
  | .chain e => some (stepChain s.stack e t)

/-- The expression at the end of the tokens, if nothing is left open. -/
def finish (s : State) : Option Expr :=
  match s.focus with
  | .value e =>
    match settle Precedence.sequence s.stack e with
    | ([], e) => some e
    | _ => none
  | _ => none

def read (s : State) : List Token → Option Expr
  | [] => s.finish
  | t :: ts => (s.step t).bind fun s => s.read ts

end State

/-! ## Single steps -/

variable {stack : List Frame} {frame : Frame} {e : Expr} {t : Token} {rest : List Token}

/-- The operand asked for may be of level `p`. -/
def Admits (stack : List Frame) (p : Int) : Prop := ∀ frame ∈ stack.head?, frame.slot ≤ p

theorem Admits.mono {p q : Int} (h : Admits stack p) (hpq : p ≤ q) : Admits stack q :=
  fun frame hframe => Int.le_trans (h frame hframe) hpq

theorem admits_cons {p : Int} (h : frame.slot ≤ p) : Admits (frame :: stack) p := by
  intro top htop
  cases htop
  exact h

theorem settle_of_lt {p : Int} (h : ∀ frame ∈ stack.head?, frame.level < p) :
    settle p stack e = (stack, e) := by
  cases stack with
  | nil => rfl
  | cons frame stack => rw [settle, if_neg (Int.not_le.mpr (h frame rfl))]

/-- What is open around an operand of level `p` stays open before a token of strength `q`. The
operators whose operands may be of their own level are `**` and the unary ones, and the last part of a
conditional may even be of a lower level. -/
theorem Frame.level_lt {p q : Int} (h : frame.slot ≤ p) (hpq : p ≤ q)
    (hassoc : p < q ∨ q < Precedence.exponent ∨ Precedence.unary < q)
    (hcond : p < Precedence.assignment ∨ Precedence.conditional < q) : frame.level < q := by
  have hassoc : p < q ∨ q < (14 : Int) ∨ (15 : Int) < q := hassoc
  have hcond : p < (2 : Int) ∨ (3 : Int) < q := hcond
  cases frame with
  | binary l op =>
    simp only [slot] at h
    split at h
    · next hop =>
      -- the right operand of `**` may be of the level of `**`
      have h : (14 : Int) ≤ p := h
      rw [level, beq_iff_eq.mp hop]
      change (14 : Int) < q
      omega
    · exact Int.lt_of_lt_of_le (Int.lt_of_add_one_le h) hpq
  | logical l op => exact Int.lt_of_lt_of_le (Int.lt_of_add_one_le h) hpq
  | unary op =>
    have h : (15 : Int) ≤ p := h
    change (15 : Int) < q
    omega
  | otherwise t y =>
    have h : (2 : Int) ≤ p := h
    change (3 : Int) < q
    omega
  | items es =>
    have h : (2 : Int) ≤ p := h
    change (1 : Int) < q
    omega
  | arguments f es opt | choice t =>
    have h : (2 : Int) ≤ p := h
    change (0 : Int) < q
    omega
  | parenthesis | index e opt =>
    have h : (1 : Int) ≤ p := h
    change (0 : Int) < q
    omega

/-- An operand of level `p` keeps what is open around it before a token that binds as tight. -/
theorem Admits.settle {p q : Int} (h : Admits stack p) (hpq : p ≤ q)
    (hassoc : p < q ∨ q < Precedence.exponent ∨ Precedence.unary < q)
    (hcond : p < Precedence.assignment ∨ Precedence.conditional < q) :
    settle q stack e = (stack, e) :=
  settle_of_lt fun frame hframe => Frame.level_lt (h frame hframe) hpq hassoc hcond

/-- An operator on top is closed when what follows binds no tighter. -/
theorem read_close (h : follow rest ≤ frame.level) :
    State.read ⟨frame :: stack, .value e⟩ rest =
      State.read ⟨stack, .value (frame.close e)⟩ rest := by
  cases rest with
  | nil =>
    have hsettle : settle Precedence.sequence (frame :: stack) e = _ := if_pos h
    simp only [State.read, State.finish, hsettle]
  | cons t rest =>
    have hsettle : settle (strength t) (frame :: stack) e = _ := if_pos h
    simp only [State.read, State.step, hsettle]

theorem read_operand : State.read ⟨stack, .operand⟩ (t :: rest) =
    (stepOperand stack t).bind (·.read rest) := rfl

theorem read_chain : State.read ⟨stack, .chain e⟩ (t :: rest) = (stepChain stack e t).read rest := rfl

theorem read_value (h : settle (strength t) stack e = (stack, e)) :
    State.read ⟨stack, .value e⟩ (t :: rest) = (stepValue stack e t).bind (·.read rest) := by
  simp only [State.read, State.step, h]

theorem strength_eq {op : String} (h : (Precedence.ofOperator? op).isSome = true)
    (hpower : op ≠ "**") : strength op = Precedence.ofOperator op := by
  have hall : ∀ op ∈ Expr.operators, op ≠ "**" → strength op = Precedence.ofOperator op := by decide
  exact hall op (Expr.mem_operators h) hpower

/-- Nothing binds its left operand as tight as a conditional. -/
theorem follow_le (h : follow rest ≤ Precedence.conditional) : follow rest ≤ 2 := by
  cases rest with
  | nil => decide
  | cons t rest =>
    simp only [follow] at h ⊢
    unfold strength at h ⊢
    split at h
    all_goals first
      | decide
      | exact absurd h (by decide)
      | exact absurd (Int.le_trans (Expr.ofOperator_range _).1 h) (by decide)

theorem stepValue_logical {op : String} (h : Expr.isLogicalOperator op = true) :
    stepValue stack e op = some ⟨.logical e op :: stack, .operand⟩ := by
  rcases Expr.logical_cases h with rfl | rfl | rfl <;> rfl

theorem stepValue_binary {op : String} (h : Expr.IsBinaryOperator op) :
    stepValue stack e op = some ⟨.binary e op :: stack, .operand⟩ := by
  obtain ⟨hsome, hlogical⟩ := h
  unfold Precedence.ofOperator? at hsome
  split at hsome
  all_goals first | rfl | cases hlogical | cases hsome

/-- The first comma of a sequence. -/
theorem stepValue_comma (h : Admits stack Precedence.sequence) :
    stepValue stack e "," = some ⟨.items [e] :: stack, .operand⟩ := by
  cases stack with
  | nil => rfl
  | cons frame stack =>
    have hslot := h frame rfl
    cases frame with
    | items es => exact absurd hslot (by decide : ¬(2 : Int) ≤ 1)
    | arguments f es opt => exact absurd hslot (by decide : ¬(2 : Int) ≤ 1)
    | _ => rfl

/-! ## Operands that are single tokens -/

theorem stepOperand_unary {op : String} (h : op ∈ Expr.unaryOperators) :
    stepOperand stack op = some ⟨.unary op :: stack, .operand⟩ := by
  have hne : ∀ op ∈ Expr.unaryOperators, op ≠ "(" ∧ op ≠ ")" := by decide
  unfold stepOperand
  rw [if_neg (hne op h).1, if_neg (hne op h).2, if_pos h]

theorem startsWith_eq {c : Char} {cs l : List Char} (h : t.toList = c :: cs) :
    startsWith t l = l.contains c := by
  rw [startsWith, h]
  rfl

theorem ne_of_startsWith {s : Token} {l : List Char} (ht : startsWith t l = false)
    (hs : startsWith s l = true) : t ≠ s := by
  rintro rfl
  rw [ht] at hs
  cases hs

/-- An identifier begins with no digit and no punctuation other than a backslash. -/
theorem startsWith_identifier {n : String} (h : IsIdentifier n) {l : List Char}
    (hl : l.all (fun c => c.isDigit || Lexeme.punctuation.contains c && c != '\\') = true) :
    startsWith n l = false := by
  obtain ⟨c, cs, hlist, hdigit, hhead⟩ := h.head
  rw [startsWith_eq hlist, Bool.eq_false_iff]
  intro hmem
  have hc := List.all_eq_true.mp hl c (List.contains_iff_mem.mp hmem)
  rw [hdigit, Bool.false_or, Bool.and_eq_true, List.contains_iff_mem, bne_iff_ne] at hc
  rcases hhead with hchar | hslash
  · exact ne_of_isIdentifierChar hchar hc.1 rfl
  · exact hc.2 hslash

/-- A token that is no operator and no bracket. -/
theorem stepOperand_atom (h : startsWith t "()!~+-".toList = false)
    (hword : t ∉ ["typeof", "void", "delete"]) :
    stepOperand stack t =
      some ⟨stack, .value (if isLiteralToken t then .literal t else .name t)⟩ := by
  have hsign : ∀ s ∈ ["(", ")", "!", "~", "+", "-"], t ≠ s := fun s hs =>
    ne_of_startsWith h ((by decide : ∀ s ∈ ["(", ")", "!", "~", "+", "-"],
      startsWith s "()!~+-".toList = true) s hs)
  have hunary : t ∉ Expr.unaryOperators := by
    intro hmem
    have hsplit : ∀ s ∈ Expr.unaryOperators,
        s ∈ ["(", ")", "!", "~", "+", "-"] ∨ s ∈ ["typeof", "void", "delete"] := by decide
    rcases hsplit t hmem with hs | hs
    · exact hsign t hs rfl
    · exact hword hs
  unfold stepOperand
  rw [if_neg (hsign _ (by decide)), if_neg (hsign _ (by decide)), if_neg hunary]
  split <;> rfl

theorem stepOperand_name {n : String} (h : IsIdentifier n) (hreserved : Lexeme.isReserved n = false) :
    stepOperand stack n = some ⟨stack, .value (.name n)⟩ := by
  have hword : ∀ w ∈ ["typeof", "void", "delete", "true", "false", "null"], n ≠ w := by
    rintro w hw rfl
    have hall : ∀ w ∈ ["typeof", "void", "delete", "true", "false", "null"],
        Lexeme.isReserved w = true := by decide
    rw [hall _ hw] at hreserved
    cases hreserved
  have hliteral : isLiteralToken n = false := by
    rw [isLiteralToken, startsWith_identifier h (by decide), Bool.false_or, Bool.eq_false_iff]
    intro hmem
    exact hword n (List.mem_append_right ["typeof", "void", "delete"]
      (List.contains_iff_mem.mp hmem)) rfl
  rw [stepOperand_atom (startsWith_identifier h (by decide)), hliteral]
  · rfl
  · intro hmem
    exact hword n (List.mem_append_left ["true", "false", "null"] hmem) rfl

theorem stepOperand_literal {v : String} (h : Expr.IsLiteral v) :
    stepOperand stack v = some ⟨stack, .value (.literal v)⟩ := by
  have hcases : (∃ c cs, v.toList = c :: cs ∧ c ∈ "0123456789\"'".toList) ∨
      v ∈ ["true", "false", "null"] := by
    rcases h with ⟨hne, hdigits⟩ | hword | ⟨quote, content, hquote, hlist, _⟩
    · cases hlist : v.toList with
      | nil => exact absurd (String.toList_eq_nil_iff.mp hlist) hne
      | cons c cs =>
        have hc := mem_of_isDigit (hdigits c (hlist ▸ List.mem_cons_self))
        exact .inl ⟨c, cs, rfl, List.mem_append_left ['"', '\''] hc⟩
    · exact .inr hword
    · exact .inl ⟨_, _, hlist, by rcases hquote with rfl | rfl <;> decide⟩
  have hatom : isLiteralToken v = true ∧ startsWith v "()!~+-".toList = false ∧
      v ∉ ["typeof", "void", "delete"] := by
    rcases hcases with ⟨c, cs, hlist, hc⟩ | hword
    · have hspec : ∀ c ∈ "0123456789\"'".toList,
          "()!~+-".toList.contains c = false ∧ ['t', 'v', 'd'].contains c = false :=
        List.all_iff_forall_prop.mp (by decide)
      obtain ⟨hsign, hletter⟩ := hspec c hc
      refine ⟨?_, (startsWith_eq hlist).trans hsign, fun hmem => ?_⟩
      · rw [isLiteralToken, startsWith_eq hlist, List.contains_iff_mem.mpr hc, Bool.true_or]
      · have hwords : ∀ w ∈ ["typeof", "void", "delete"], startsWith w ['t', 'v', 'd'] = true := by
          decide
        exact ne_of_startsWith ((startsWith_eq hlist).trans hletter) (hwords v hmem) rfl
    · exact (by decide : ∀ v ∈ ["true", "false", "null"], isLiteralToken v = true ∧
        startsWith v "()!~+-".toList = false ∧ v ∉ ["typeof", "void", "delete"]) v hword
  rw [stepOperand_atom hatom.2.1 hatom.2.2, hatom.1]
  rfl

/-! ## Whole operands -/

/-- Wherever an operand of the nonterminal may stand, reading the tokens leaves the expression
there. -/
def Reads (nt : Nonterminal) (ts : List Token) (e : Expr) : Prop :=
  ∀ stack rest, Admits stack nt.rank → follow rest ≤ nt.rank →
    State.read ⟨stack, .operand⟩ (ts ++ rest) = State.read ⟨stack, .value e⟩ rest

theorem Reads.mono {nt nt' : Nonterminal} {ts : List Token} (h : Reads nt ts e)
    (hle : nt'.rank ≤ nt.rank) : Reads nt' ts e :=
  fun stack rest hstack hrest => h stack rest (hstack.mono hle) (Int.le_trans hrest hle)

theorem reads_atom {nt : Nonterminal}
    (h : ∀ stack, stepOperand stack t = some ⟨stack, .value e⟩) : Reads nt [t] e := by
  intro stack rest _ _
  rw [List.singleton_append, read_operand, h, Option.bind_some]

/-- Two operands and an operator between them. The left one is complete when the operator comes, as
the strength of the operator is that of the left operand at most and exceeds all that is open. -/
theorem reads_infixed (frame : Frame) {nt left right : Nonterminal} {ls rs : List Token}
    {l r : Expr} {op : Token} (hl : Reads left ls l) (hr : Reads right rs r)
    (hleft : nt.rank ≤ left.rank) (hop : strength op ≤ left.rank)
    (hopen : ∀ stack, Admits stack nt.rank → settle (strength op) stack l = (stack, l))
    (hstep : ∀ stack, stepValue stack l op = some ⟨frame :: stack, .operand⟩)
    (hslot : frame.slot ≤ right.rank) (hright : nt.rank ≤ right.rank)
    (hlevel : nt.rank ≤ frame.level) : Reads nt (ls ++ op :: rs) (frame.close r) := by
  intro stack rest hstack hrest
  rw [List.append_assoc, List.cons_append, hl stack (op :: (rs ++ rest)) (hstack.mono hleft) hop,
    read_value (hopen stack hstack), hstep, Option.bind_some,
    hr _ _ (admits_cons hslot) (Int.le_trans hrest hright), read_close (Int.le_trans hrest hlevel)]

/-- Tokens in brackets that the frame on top waits for. -/
theorem read_bracketed (frame : Frame) {nt : Nonterminal} {ts : List Token} {close : Token}
    {s : State} (h : Reads nt ts e) (hslot : frame.slot ≤ nt.rank) (hclose : strength close ≤ nt.rank)
    (hlevel : frame.level < strength close)
    (hstep : stepValue (frame :: stack) e close = some s) :
    State.read ⟨frame :: stack, .operand⟩ (ts ++ close :: rest) = s.read rest := by
  have hsettle : settle (strength close) (frame :: stack) e = (frame :: stack, e) :=
    settle_of_lt fun top htop => by cases htop; exact hlevel
  rw [h _ (close :: rest) (admits_cons hslot) hclose, read_value hsettle, hstep, Option.bind_some]

theorem commaSeparated_cons_cons (ts us : List Token) (tss : List (List Token)) :
    commaSeparated (ts :: us :: tss) = ts ++ "," :: commaSeparated (us :: tss) := rfl

/-- Items between commas. The frame on top collects all of them but the last. -/
theorem read_items (collect : List Expr → Frame) (hslot : ∀ es, (collect es).slot = 2)
    (hlevel : ∀ es, (collect es).level < 2)
    (hstep : ∀ stack es e, stepValue (collect es :: stack) e "," =
      some ⟨collect (es ++ [e]) :: stack, .operand⟩)
    (stack : List Frame) {items : List (List Token × Expr)} (hne : items ≠ [])
    (hitems : ∀ item ∈ items, Reads (.level .assignment) item.1 item.2) (hrest : follow rest ≤ 2)
    (es : List Expr) : ∃ init last, items.map (·.2) = init ++ [last] ∧
      State.read ⟨collect es :: stack, .operand⟩ (commaSeparated (items.map (·.1)) ++ rest) =
        State.read ⟨collect (es ++ init) :: stack, .value last⟩ rest := by
  induction items generalizing es with
  | nil => exact absurd rfl hne
  | cons item items ih =>
    have hitem := hitems item List.mem_cons_self
    cases items with
    | nil =>
      refine ⟨[], item.2, rfl, ?_⟩
      have hsame : commaSeparated ([item].map (·.1)) = item.1 := List.append_nil _
      rw [hsame, List.append_nil, hitem _ _ (admits_cons (Int.le_of_eq (hslot es))) hrest]
    | cons item' items =>
      obtain ⟨init, last, hmap, hread⟩ := ih (List.cons_ne_nil _ _)
        (fun i hi => hitems i (List.mem_cons_of_mem _ hi)) (es ++ [item.2])
      have hopen : (collect es).level < strength "," := hlevel es
      refine ⟨item.2 :: init, last, by rw [List.map_cons, hmap, List.cons_append], ?_⟩
      rw [List.map_cons, List.map_cons, commaSeparated_cons_cons, List.append_assoc,
        List.cons_append, read_bracketed (collect es) hitem (Int.le_of_eq (hslot es))
          (Int.le_refl _) hopen (hstep stack es item.2), ← List.map_cons, hread,
        List.append_assoc, List.singleton_append]

/-- The target of an access, before a token that binds as tight as an access. -/
theorem read_target {ts : List Token} (h : Reads (.level .call) ts e)
    (hstack : Admits stack Precedence.call) (ht : strength t = Precedence.call) :
    State.read ⟨stack, .operand⟩ (ts ++ t :: rest) =
      (stepValue stack e t).bind (·.read rest) := by
  rw [h stack (t :: rest) hstack (Int.le_of_eq ht), read_value]
  rw [ht]
  exact hstack.settle (Int.le_refl _) (by decide) (by decide)

/-- The target of a call or of an access by index, up to the opening bracket. -/
theorem read_opened (opened : Bool → Frame) {ts : List Token} {bracket : Token} {opt : Bool}
    (h : Reads (.level .call) ts e) (hstack : Admits stack Precedence.call)
    (hstrength : strength bracket = Precedence.call)
    (hplain : stepValue stack e bracket = some ⟨opened false :: stack, .operand⟩)
    (hchain : stepChain stack e bracket = ⟨opened true :: stack, .operand⟩) :
    State.read ⟨stack, .operand⟩ (ts ++ (Expr.optionalTokens opt ++ bracket :: rest)) =
      State.read ⟨opened opt :: stack, .operand⟩ rest := by
  cases opt with
  | false =>
    have hnone : Expr.optionalTokens false ++ bracket :: rest = bracket :: rest := rfl
    rw [hnone, read_target h hstack hstrength, hplain, Option.bind_some]
  | true =>
    have hone : Expr.optionalTokens true ++ bracket :: rest = "?." :: bracket :: rest := rfl
    have hstep : stepValue stack e "?." = some ⟨stack, .chain e⟩ := rfl
    rw [hone, read_target h hstack rfl, hstep, Option.bind_some, read_chain, hchain]

theorem read_property {ts : List Token} {p : String} {opt : Bool} (h : Reads (.level .call) ts e)
    (hstack : Admits stack Precedence.call) (hp : IsIdentifier p) :
    State.read ⟨stack, .operand⟩ (ts ++ (if opt then "?." else ".") :: p :: rest) =
      State.read ⟨stack, .value (.member e p opt)⟩ rest := by
  cases opt with
  | false => rw [if_neg (by decide), read_target h hstack rfl]; rfl
  | true =>
    have hbracket : startsWith p ['(', '['] = false := startsWith_identifier hp (by decide)
    have hchain : stepChain stack e p = ⟨stack, .value (.member e p true)⟩ := by
      rw [stepChain, if_neg (ne_of_startsWith hbracket (by decide)),
        if_neg (ne_of_startsWith hbracket (by decide))]
    have hstep : stepValue stack e "?." = some ⟨stack, .chain e⟩ := rfl
    rw [if_pos rfl, read_target h hstack rfl, hstep, Option.bind_some, read_chain, hchain]

/-! ## One lemma for each form of expression -/

variable {ts : List Token} {opt : Bool} {items : List (List Token × Expr)}

theorem reads_parenthesized (h : Reads (.level .sequence) ts e) :
    Reads (.level .primary) (Expr.parenthesized ts) e := by
  intro stack rest _ _
  have hopen : State.read ⟨stack, .operand⟩ (Expr.parenthesized ts ++ rest) =
      State.read ⟨.parenthesis :: stack, .operand⟩ (ts ++ ")" :: rest) := by
    rw [Expr.parenthesized, List.cons_append, List.append_assoc]
    rfl
  rw [hopen]
  exact read_bracketed .parenthesis h (Int.le_refl _) (Int.le_refl _) Int.zero_lt_one rfl

theorem reads_call (h : Reads (.level .call) ts e)
    (hitems : ∀ item ∈ items, Reads (.level .assignment) item.1 item.2) :
    Reads (.level .call) (ts ++ (Expr.optionalTokens opt ++
      Expr.parenthesized (commaSeparated (items.map (·.1))))) (.call e (items.map (·.2)) opt) := by
  intro stack rest hstack _
  rw [Expr.parenthesized, List.append_assoc, List.append_assoc, List.cons_append,
    List.append_assoc, List.singleton_append,
    read_opened (.arguments e []) h hstack rfl rfl rfl]
  cases hcases : items with
  | nil => rfl
  | cons item more =>
    have hne : items ≠ [] := by rw [hcases]; exact List.cons_ne_nil _ _
    have hend : follow (")" :: rest) ≤ 2 := (by decide : (1 : Int) ≤ 2)
    obtain ⟨init, last, hmap, hread⟩ := read_items (.arguments e · opt) (fun _ => rfl)
      (fun _ => (by decide : (0 : Int) < 2)) (fun _ _ _ => rfl) stack hne hitems hend []
    rw [← hcases, hread, hmap, read_value]
    · rfl
    · exact settle_of_lt fun top htop => by cases htop; exact Int.zero_lt_one

theorem reads_index {is : List Token} {i : Expr} (h : Reads (.level .call) ts e)
    (hi : Reads (.level .sequence) is i) :
    Reads (.level .call) (ts ++ (Expr.optionalTokens opt ++ "[" :: (is ++ ["]"])))
      (.index e i opt) := by
  intro stack rest hstack _
  rw [List.append_assoc, List.append_assoc, List.cons_append, List.append_assoc,
    List.singleton_append, read_opened (.index e) h hstack rfl rfl rfl]
  exact read_bracketed (.index e opt) hi (Int.le_refl _) (Int.le_refl _) Int.zero_lt_one rfl

theorem reads_unary {op : String} (hop : op ∈ Expr.unaryOperators)
    (h : Reads (.level .unary) ts e) : Reads (.level .unary) (op :: ts) (.unary op e) := by
  intro stack rest _ hrest
  rw [List.cons_append, read_operand, stepOperand_unary hop, Option.bind_some,
    h _ _ (admits_cons (Int.le_refl _)) hrest, read_close hrest]
  rfl

theorem reads_binary {op : String} {ls rs : List Token} {l r : Expr}
    (hop : Expr.IsBinaryOperator op) (hlt : Precedence.ofOperator op < .exponent)
    (hl : Reads (.level (.ofOperator op)) ls l) (hr : Reads (.level (.ofOperator op + 1)) rs r) :
    Reads (.level (.ofOperator op)) (ls ++ op :: rs) (.binary l op r) := by
  have hpower : op ≠ "**" := by
    rintro rfl
    exact absurd hlt (by decide)
  have hstrength := strength_eq hop.1 hpower
  have hslot : (Frame.binary l op).slot = Precedence.ofOperator op + 1 :=
    if_neg (by simpa using hpower)
  have hsix := (Expr.binary_range hop).1
  refine reads_infixed (.binary l op) hl hr (Int.le_refl _) (Int.le_of_eq hstrength)
    (fun stack hstack => ?_) (fun stack => stepValue_binary hop) (Int.le_of_eq hslot)
    (Int.le_of_lt (Int.lt_succ _)) (Int.le_refl _)
  rw [hstrength]
  exact hstack.settle (Int.le_refl _) (.inr (.inl hlt))
    (.inr (Int.lt_of_lt_of_le (by decide) hsix))

theorem reads_cond {ys ns : List Token} {y n : Expr} (ht : Reads (.level .disjunction) ts e)
    (hy : Reads (.level .assignment) ys y) (hn : Reads (.level .assignment) ns n) :
    Reads (.level .conditional) (ts ++ "?" :: (ys ++ ":" :: ns)) (.cond e y n) := by
  intro stack rest hstack hrest
  have htest : settle (strength "?") stack e = (stack, e) :=
    hstack.settle (by decide) (by decide) (by decide)
  have hquestion : stepValue stack e "?" = some ⟨.choice e :: stack, .operand⟩ := rfl
  have hopen : (Frame.choice e).level < strength ":" := (by decide : (0 : Int) < 2)
  have hcolon : stepValue (.choice e :: stack) y ":" = some ⟨.otherwise e y :: stack, .operand⟩ :=
    rfl
  -- the last part may be of a lower level, and what ends the conditional ends that part as well
  rw [List.append_assoc, List.cons_append, List.append_assoc, List.cons_append,
    ht stack ("?" :: _) (hstack.mono (by decide)) (Int.le_refl _), read_value htest, hquestion,
    Option.bind_some, read_bracketed (.choice e) hy (Int.le_refl _) (Int.le_refl _) hopen hcolon,
    hn _ _ (admits_cons (Int.le_refl _)) (follow_le hrest), read_close hrest]
  rfl

theorem reads_sequence (hlength : 2 ≤ items.length)
    (hitems : ∀ item ∈ items, Reads (.level .assignment) item.1 item.2) :
    Reads (.level .sequence) (commaSeparated (items.map (·.1))) (.sequence (items.map (·.2))) := by
  intro stack rest hstack hrest
  obtain ⟨first, second, more, rfl⟩ : ∃ first second more, items = first :: second :: more := by
    cases items with
    | nil => exact absurd hlength (by decide)
    | cons first items =>
      cases items with
      | nil => exact absurd hlength (by decide : ¬2 ≤ 1)
      | cons second more => exact ⟨first, second, more, rfl⟩
  have hsettle : settle (strength ",") stack first.2 = (stack, first.2) :=
    hstack.settle (by decide) (by decide) (by decide)
  -- the first comma opens the sequence, the others find it open
  obtain ⟨init, last, hmap, hread⟩ := read_items .items (fun _ => rfl)
    (fun _ => (by decide : (1 : Int) < 2)) (fun _ _ _ => rfl) stack (List.cons_ne_nil second more)
    (fun item hitem => hitems item (List.mem_cons_of_mem _ hitem))
    (Int.le_trans hrest (by decide)) [first.2]
  rw [List.map_cons, List.map_cons, commaSeparated_cons_cons, List.append_assoc, List.cons_append,
    hitems first List.mem_cons_self stack ("," :: _) (hstack.mono (by decide)) (Int.le_refl _),
    read_value hsettle, stepValue_comma hstack, Option.bind_some, ← List.map_cons, hread,
    read_close hrest, List.map_cons, hmap]
  rfl

end TokenReader

open TokenReader

namespace Derives

variable {nt : Nonterminal} {ts : List Token} {e f : Expr}

/-- **The reader makes from the tokens the expression that the grammar derives from them.** -/
theorem reads (h : Derives nt ts e) : Reads nt ts e := by
  induction h with
  | chain _ _ _ _ ih => exact ih.mono (Int.le_of_lt (Int.lt_succ _))
  | ofCoalesce _ ih | ofEither _ ih => exact ih
  | ofConjunction _ ih => exact ih.mono (by decide)
  | name hn hreserved => exact reads_atom fun stack => stepOperand_name hn hreserved
  | literal hv => exact reads_atom fun stack => stepOperand_literal hv
  | parentheses _ ih => exact reads_parenthesized ih
  | call _ _ ihf ihitems => exact reads_call ihf ihitems
  | member _ hp ih =>
    intro stack rest hstack _
    rw [List.append_assoc]
    exact read_property ih hstack hp
  | index _ _ ihe ihi => exact reads_index ihe ihi
  | unary hop _ ih => exact reads_unary hop ih
  | @power ls l rs r _ _ ihl ihr =>
    exact reads_infixed (.binary l "**") ihl ihr (by decide) (by decide)
      (fun stack hstack => hstack.settle (by decide) (by decide) (by decide))
      (fun stack => stepValue_binary ⟨rfl, rfl⟩) (Int.le_refl _) (Int.le_refl _) (Int.le_refl _)
  | binary hop hlt _ _ ihl ihr => exact reads_binary hop hlt ihl ihr
  | @conjunction ls l rs r _ _ ihl ihr =>
    exact reads_infixed (.logical l "&&") ihl ihr (by decide) (by decide)
      (fun stack hstack => hstack.settle (by decide) (by decide) (by decide))
      (fun stack => stepValue_logical rfl) (Int.le_refl _) (by decide) (Int.le_refl _)
  | @either ls l rs r _ _ ihl ihr =>
    exact reads_infixed (.logical l "||") ihl ihr (by decide) (by decide)
      (fun stack hstack => hstack.settle (by decide) (by decide) (by decide))
      (fun stack => stepValue_logical rfl) (Int.le_refl _) (by decide) (Int.le_refl _)
  | @coalesceFirst ls l rs r _ _ ihl ihr | @coalesceMore ls l rs r _ _ ihl ihr =>
    exact reads_infixed (.logical l "??") ihl ihr (by decide) (by decide)
      (fun stack hstack => hstack.settle (by decide) (by decide) (by decide))
      (fun stack => stepValue_logical rfl) (by decide : (5 : Int) ≤ 6) (by decide) (Int.le_refl _)
  | cond _ _ _ iht ihy ihn => exact reads_cond iht ihy ihn
  | sequence hlength _ ih => exact reads_sequence hlength ih

/-- **Tokens derive one expression at most.** -/
theorem unique (he : Derives (.level .sequence) ts e) (hf : Derives (.level .sequence) ts f) :
    e = f := by
  have hread : ∀ {g : Expr}, Derives (.level .sequence) ts g →
      State.read ⟨[], .operand⟩ ts = some g := by
    intro g hg
    have hend := hg.reads [] [] (fun frame hframe => by cases hframe) (Int.le_refl _)
    rwa [List.append_nil] at hend
  exact Option.some.inj ((hread he).symm.trans (hread hf))

end Derives

namespace Expr

variable {e f : Expr}

/-- Two expressions with one text are the same. -/
theorem Plain.eq_of_text_eq (he : Plain e) (hf : Plain f) (h : e.text = f.text) : e = f := by
  have hderives : ∀ {g : Expr}, Plain g → Derives (.level .sequence) g.tokens g := fun hg =>
    (level_of_nonterminal hg.derives).lower (Int.le_refl 1) hg.precedence_range.1
      hg.precedence_range.2
  have htokens : e.tokens = f.tokens := by rw [← he.lex_text, ← hf.lex_text, h]
  exact (hderives he).unique (htokens ▸ hderives hf)

/-- **Expressions are found to be the same if they are, and only then**: writing an expression loses
nothing. -/
theorem Plain.same_iff_eq (he : Plain e) (hf : Plain f) :
    (e.same f = .ok true ↔ e = f) ∧ (e.same f = .ok false ↔ e ≠ f) ∧
      (e.render = f.render ↔ e = f) := by
  have htext : e.text = f.text ↔ e = f := ⟨he.eq_of_text_eq hf, congrArg Expr.text⟩
  have hsame : e.same f = .ok (e.text == f.text) := by
    rw [same, render_of_isPrintable he.isPrintable, render_of_isPrintable hf.isPrintable]
    rfl
  refine ⟨?_, ?_, ?_⟩
  · rw [hsame, Except.ok.injEq, beq_iff_eq, htext]
  · rw [hsame, Except.ok.injEq, beq_eq_false_iff_ne, ne_eq, htext]
  · rw [render_of_isPrintable he.isPrintable, render_of_isPrintable hf.isPrintable,
      Except.ok.injEq, htext]

namespace MixedOperators

def groupedLeft : Expr := .binary (.binary choice "-" (.name "a")) "-" (.name "b2")

def groupedRight : Expr := .binary choice "-" (.binary (.name "a") "-" (.name "b2"))

theorem same_grouped : groupedLeft.same groupedRight = .ok false ∧
    groupedRight.same groupedRight = .ok true := by
  have ha : Plain (.name "a") := name_plain (by decide) rfl rfl rfl
  have hb : Plain (.name "b2") := name_plain (by decide) rfl rfl rfl
  have hleft : Plain groupedLeft := .binary ⟨rfl, rfl⟩ (.binary ⟨rfl, rfl⟩ choice_plain ha) hb
  have hright : Plain groupedRight := .binary ⟨rfl, rfl⟩ choice_plain (.binary ⟨rfl, rfl⟩ ha hb)
  have hne : groupedLeft ≠ groupedRight := by
    intro heq
    injection heq with hchoice
    cases hchoice
  exact ⟨(hleft.same_iff_eq hright).2.1.mpr hne, (hright.same_iff_eq hright).1.mpr rfl⟩

end MixedOperators
end Expr
end CondUnfold
