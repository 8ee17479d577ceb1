import CondUnfold.Proofs.NodeExpr
import CondUnfold.Proofs.Replacements

/-!
# Members, subscripts and calls

A member access, a subscript and a call go one step further from a target. Written behind its target, a
step belongs to the chain that the target is. Parentheses around the target would end a chain with `?.`
in it before the step, but no trace of them is left in the expression, so that the step is written as
part of the chain (`Node.toExpr_joins_chain`).

The callee of a call is written as it stands in the source if it is a name. The word `import` is no
name, but source text of low precedence, and so it is put in parentheses (`Node.toExpr_call_word`).
-/

namespace CondUnfold

open Except

namespace Expr

/-- `target.StepsTo optional e` says that `e` goes one step further from `target`. -/
inductive StepsTo (target : Expr) (optional : Bool) : Expr → Prop where
  | member (property : String) : StepsTo target optional (.member target property optional)
  | index (i : Expr) : StepsTo target optional (.index target i optional)
  | call (args : List Expr) : StepsTo target optional (.call target args optional)

/-- A step can be written right behind the expression. -/
def IsTight (e : Expr) : Prop := e.precedence = .call ∧ e.endsInInteger = false

variable {e target : Expr} {optional : Bool}

theorem StepsTo.isTight (h : target.StepsTo optional e) : e.IsTight := by
  cases h with
  | member | index | call => exact ⟨rfl, rfl⟩

theorem StepsTo.text_eq (h : target.StepsTo false e) (htight : target.IsTight) :
    ∃ step, e.text = target.text ++ step ∧
      ∃ c ∈ ['.', '[', '('], step.toList.head? = some c := by
  obtain ⟨hprecedence, hinteger⟩ := htight
  have hgroup (text : String) : group target.precedence .call text = text :=
    if_neg (hprecedence ▸ Int.lt_irrefl _)
  cases h with
  | member property =>
    refine ⟨"." ++ property, ?_, '.', by simp, by simp⟩
    simp [text, memberTarget, hinteger, hgroup, String.append_assoc]
  | index i =>
    refine ⟨"[" ++ i.text ++ "]", ?_, '[', by simp, by simp⟩
    simp [text, hgroup, String.append_assoc]
  | call args =>
    refine ⟨"(" ++ listText args ++ ")", ?_, '(', by simp, by simp⟩
    simp [text, hgroup, String.append_assoc]

end Expr

namespace Node

/-- The role of the child from which a node of this kind goes one step further. -/
def accessRole? : String → Option String
  | "member_expression" | "subscript_expression" => some "object"
  | "call_expression" => some "function"
  | _ => none

/-- The child from which a member access, a subscript or a call goes one step further. -/
def target? (n : Node) : Option Node := (accessRole? n.kind).bind n.child?

/-- The node is a chain of accesses, one of which is made with `?.`. -/
inductive OptionalChain : Node → Prop where
  | here {n : Node} : (accessRole? n.kind).isSome = true → n.hasOptionalChain = true →
    OptionalChain n
  | before {n target : Node} : n.target? = some target → OptionalChain target → OptionalChain n

/-- The nodes with the parentheses removed from around the first of them that has the role. -/
def ungroupFirst (role : String) : List Node → List Node
  | [] => []
  | c :: cs =>
    if c.role == some role then { c.unwrap with role := c.role } :: cs
    else c :: ungroupFirst role cs

/-- The node with the parentheses removed from around its target. -/
def ungroup (n : Node) : Node :=
  match accessRole? n.kind with
  | none => n
  | some role => { n with children := ungroupFirst role n.children }

variable {source : Bytes} {n group : Node} {role other : String}

theorem render_of_toExpr {e : Expr} (h : n.toExpr source = .ok e) : e.render = .ok e.text :=
  Expr.render_of_isPrintable (toExpr_isPrintable h)

theorem exists_render_of_text {text : String}
    (h : (n.toExpr source).toOption.map Expr.text = some text) :
    ∃ e, n.toExpr source = .ok e ∧ e.render = .ok text := by
  obtain ⟨e, he, rfl⟩ := exists_ok_of_toOption h
  exact ⟨e, he, render_of_toExpr he⟩

theorem accessRole?_cases {kind : String} (h : accessRole? kind = some role) :
    role = "object" ∧ (kind = "member_expression" ∨ kind = "subscript_expression") ∨
      role = "function" ∧ kind = "call_expression" := by
  unfold accessRole? at h
  split at h
  · cases h; exact .inl ⟨rfl, .inl rfl⟩
  · cases h; exact .inl ⟨rfl, .inr rfl⟩
  · cases h; exact .inr ⟨rfl, rfl⟩
  · cases h

theorem find?_ungroupFirst (role : String) (cs : List Node) :
    (ungroupFirst role cs).find? (·.role == some role) =
      (cs.find? (·.role == some role)).map fun c => { c.unwrap with role := c.role } := by
  induction cs with
  | nil => rfl
  | cons c cs ih =>
    cases h : c.role == some role with
    | true => simp only [ungroupFirst, h, if_true, List.find?_cons, Option.map_some]
    | false => simp only [ungroupFirst, h, Bool.false_eq_true, if_false, List.find?_cons, ih]

theorem find?_ungroupFirst_of_ne (hne : other ≠ role) (cs : List Node) :
    (ungroupFirst role cs).find? (·.role == some other) = cs.find? (·.role == some other) := by
  induction cs with
  | nil => rfl
  | cons c cs ih =>
    cases h : c.role == some role with
    | true =>
      have hother : (c.role == some other) = false := by
        rw [eq_of_beq h]
        simpa using Ne.symm hne
      simp only [ungroupFirst, h, if_true, List.find?_cons, hother]
    | false =>
      simp only [ungroupFirst, h, Bool.false_eq_true, if_false, List.find?_cons, ih]

theorem any_ungroupFirst {p : Node → Bool} {cs : List Node}
    (h : ∀ c, cs.find? (·.role == some role) = some c → p { c.unwrap with role := c.role } = p c) :
    (ungroupFirst role cs).any p = cs.any p := by
  induction cs with
  | nil => rfl
  | cons c cs ih =>
    cases hc : c.role == some role with
    | true =>
      have hfirst := h c (by rw [List.find?_cons, hc])
      simp only [ungroupFirst, hc, if_true, List.any_cons, hfirst]
    | false =>
      have hrest := ih fun d hd => h d (by rw [List.find?_cons, hc]; exact hd)
      simp only [ungroupFirst, hc, Bool.false_eq_true, if_false, List.any_cons, hrest]

theorem ungroup_eq (hrole : accessRole? n.kind = some role) :
    n.ungroup = { n with children := ungroupFirst role n.children } := by
  simp only [ungroup, hrole]

theorem withChild_ungroup (hrole : accessRole? n.kind = some role) :
    n.ungroup.withChild role (toExpr source) = n.withChild role (toExpr source) := by
  have hchild : n.ungroup.child? role =
      (n.child? role).map fun c => { c.unwrap with role := c.role } := by
    rw [ungroup_eq hrole]
    exact find?_ungroupFirst role n.children
  rw [withChild, hchild, withChild]
  cases n.child? role with
  | none => rfl
  | some c => exact (toExpr_setRole source c.unwrap c.role).trans (toExpr_unwrap source c)

theorem child?_ungroup_of_ne (hrole : accessRole? n.kind = some role) (hne : other ≠ role) :
    n.ungroup.child? other = n.child? other := by
  rw [ungroup_eq hrole]
  exact find?_ungroupFirst_of_ne hne n.children

theorem hasOptionalChain_ungroup (hrole : accessRole? n.kind = some role)
    (htarget : n.child? role = some group) (hgroup : group.kind = "parenthesized_expression")
    (hinner : group.unwrap.kind ≠ "optional_chain") :
    n.ungroup.hasOptionalChain = n.hasOptionalChain := by
  rw [ungroup_eq hrole]
  apply any_ungroupFirst
  intro c hc
  cases htarget.symm.trans hc
  rw [hgroup]
  exact beq_false_of_ne hinner

theorem ungroup_kind (n : Node) : n.ungroup.kind = n.kind := by
  unfold ungroup
  split <;> rfl

/-- The parentheses around the target of an access are not in its expression, unless the whole access
is kept as source text. -/
theorem toExpr_ungroup (hrole : accessRole? n.kind = some role)
    (htarget : n.child? role = some group) (hgroup : group.kind = "parenthesized_expression")
    (hinner : group.unwrap.kind ≠ "optional_chain")
    (hargs : n.kind = "call_expression" → n.hasArguments = true) :
    n.ungroup.toExpr source = n.toExpr source := by
  have hkind := n.ungroup_kind
  have hoptional := hasOptionalChain_ungroup hrole htarget hgroup hinner
  have hsame : n.ungroup.withChild role (toExpr source) = n.withChild role (toExpr source) :=
    withChild_ungroup hrole
  obtain ⟨rfl, h | h⟩ | ⟨rfl, h⟩ := accessRole?_cases hrole
  · have hproperty : n.ungroup.child? "property" = n.child? "property" :=
      child?_ungroup_of_ne hrole (by decide)
    rw [toExpr_member (hkind.trans h), toExpr_member h, hsame, hoptional]
    simp only [withChild, hproperty]
  · have hindex : n.ungroup.child? "index" = n.child? "index" :=
      child?_ungroup_of_ne hrole (by decide)
    rw [toExpr_subscript (hkind.trans h), toExpr_subscript h, hsame, hoptional]
    simp only [withChild, hindex]
  · obtain ⟨args, hchild, hlist⟩ := (Option.any_eq_true _ _).mp (hargs h)
    have hchild' : n.ungroup.child? "arguments" = some args :=
      (child?_ungroup_of_ne hrole (by decide)).trans hchild
    rw [toExpr_call (hkind.trans h) hchild' (eq_of_beq hlist),
      toExpr_call h hchild (eq_of_beq hlist), hsame, hoptional]

theorem toExpr_access {e : Expr} (hrole : accessRole? n.kind = some role)
    (h : n.toExpr source = .ok e) :
    (n.kind = "call_expression" ∧ n.hasArguments = false ∧ ∃ text, e = .raw text .call n.kind) ∨
      ∃ target, n.withChild role (toExpr source) = .ok target ∧
        target.StepsTo n.hasOptionalChain e := by
  obtain ⟨rfl, hkind | hkind⟩ | ⟨rfl, hkind⟩ := accessRole?_cases hrole
  · rw [toExpr_member hkind] at h
    obtain ⟨target, htarget, h⟩ := bind_eq_ok.mp h
    obtain ⟨property, _, h⟩ := bind_eq_ok.mp h
    cases h
    exact .inr ⟨target, htarget, .member property⟩
  · rw [toExpr_subscript hkind] at h
    obtain ⟨target, htarget, h⟩ := bind_eq_ok.mp h
    obtain ⟨index, _, h⟩ := bind_eq_ok.mp h
    cases h
    exact .inr ⟨target, htarget, .index index⟩
  · cases hargs : n.hasArguments with
    | true =>
      obtain ⟨args, hchild, hlist⟩ := (Option.any_eq_true _ _).mp hargs
      rw [toExpr_call hkind hchild (eq_of_beq hlist)] at h
      obtain ⟨callee, hcallee, h⟩ := bind_eq_ok.mp h
      obtain ⟨es, _, h⟩ := bind_eq_ok.mp h
      cases h
      exact .inr ⟨callee, hcallee, .call es⟩
    | false =>
      rw [toExpr_tagged hkind hargs] at h
      obtain ⟨text, _, h⟩ := bind_eq_ok.mp h
      cases h
      exact .inl ⟨hkind, rfl, text, by rw [hkind]; rfl⟩

theorem toExpr_isTight {e : Expr} (hrole : accessRole? n.kind = some role)
    (h : n.toExpr source = .ok e) : e.IsTight := by
  obtain ⟨_, _, text, rfl⟩ | ⟨target, _, hstep⟩ := toExpr_access hrole h
  · exact ⟨rfl, rfl⟩
  · exact hstep.isTight

theorem OptionalChain.accessRole? (h : n.OptionalChain) :
    ∃ role, Node.accessRole? n.kind = some role := by
  cases h with
  | here h => exact Option.isSome_iff_exists.mp h
  | before h =>
    obtain ⟨role, hrole, _⟩ := Option.bind_eq_some_iff.mp h
    exact ⟨role, hrole⟩

/-- **A step behind a grouped chain is written as part of the chain.** Whether or not there are
parentheses around a chain with `?.` in it, the step that follows has one and the same expression. The
text of that expression is the text of the chain with the step right behind it. -/
theorem toExpr_joins_chain (source : Bytes) (htarget : n.target? = some group)
    (hgroup : group.kind = "parenthesized_expression") (hchain : group.unwrap.OptionalChain)
    (hown : n.hasOptionalChain = false)
    (hargs : n.kind = "call_expression" → n.hasArguments = true) :
    n.ungroup.toExpr source = n.toExpr source ∧
      ∀ e, n.toExpr source = .ok e → ∃ chain text step,
        group.unwrap.toExpr source = .ok chain ∧ chain.render = .ok text ∧
          e.render = .ok (text ++ step) ∧ ∃ c ∈ ['.', '[', '('], step.toList.head? = some c := by
  obtain ⟨role, hrole, hchild⟩ := Option.bind_eq_some_iff.mp htarget
  obtain ⟨innerRole, hinner⟩ := hchain.accessRole?
  constructor
  · apply toExpr_ungroup hrole hchild hgroup ?_ hargs
    intro hkind
    rw [hkind] at hinner
    cases hinner
  · intro e h
    obtain ⟨hkind, htagged, _⟩ | ⟨chain, hread, hstep⟩ := toExpr_access hrole h
    · cases htagged.symm.trans (hargs hkind)
    · rw [withChild, hchild] at hread
      have hok : group.unwrap.toExpr source = .ok chain := (toExpr_unwrap source group).trans hread
      rw [hown] at hstep
      obtain ⟨step, htext, hhead⟩ := hstep.text_eq (toExpr_isTight hinner hok)
      have hrender : e.render = .ok (chain.text ++ step) := htext ▸ render_of_toExpr h
      exact ⟨chain, chain.text, step, hok, render_of_toExpr hok, hrender, hhead⟩

end Node

namespace GroupedChain

open Sample

/-- The node of `b` in an access. -/
def property (start : Nat) : Node :=
  part "property" (node "property_identifier" start (start + 1))

/-- The node of `a?.b`. -/
def chain (start : Nat) : Node :=
  node "member_expression" start (start + 4)
    [part "object" (word start), node "optional_chain" (start + 1) (start + 3),
      property (start + 3)]

/-- The node of parentheses right around another node. -/
def around (inner : Node) : Node :=
  node "parenthesized_expression" (inner.start - 1) (inner.stop + 1)
    [token "(" (inner.start - 1) inner.start, inner, token ")" inner.stop (inner.stop + 1)]

/-- The same node as the target of an access. -/
def grouped (inner : Node) : Node := part "object" (around inner)

theorem optionalChain_chain (start : Nat) : (chain start).OptionalChain := .here rfl rfl

theorem unwrap_chain (start : Nat) : (chain start).unwrap = chain start :=
  Node.unwrap_of_ne fun h => absurd h (by decide : "member_expression" ≠ "parenthesized_expression")

/-- The node of `(a?.b).c`. -/
def member : Node :=
  node "member_expression" 0 8 [grouped (chain 1), token "." 6 7, property 7]

/-- The parentheses of `(a?.b).c` make a difference, since without them `c` is not looked up where `a` is
nullish. The text is the same with them and without. -/
theorem member_text_forgets_group :
    member.target? = some (grouped (chain 1)) ∧ (grouped (chain 1)).unwrap.OptionalChain ∧
      member.hasOptionalChain = false ∧
      ∃ e f, member.toExpr (Utf8.encode "(a?.b).c") = .ok e ∧
        member.ungroup.toExpr (Utf8.encode "(a?.b).c") = .ok f ∧
        e.render = .ok "a?.b.c" ∧ f.render = .ok "a?.b.c" := by
  have hunwrap : (grouped (chain 1)).unwrap = chain 1 :=
    (Node.unwrap_group rfl rfl).trans (unwrap_chain 1)
  have htext : (member.toExpr (Utf8.encode "(a?.b).c")).toOption.map Expr.text =
      some "a?.b.c" := by
    decide +kernel
  obtain ⟨e, he, hrender⟩ := Node.exists_render_of_text htext
  have hungroup : member.ungroup.toExpr (Utf8.encode "(a?.b).c") = _ :=
    Node.toExpr_ungroup rfl rfl rfl (by rw [hunwrap]; decide) (by decide)
  refine ⟨rfl, ?_, rfl, e, e, he, hungroup.trans he, hrender, hrender⟩
  rw [hunwrap]
  exact optionalChain_chain 1

/-- The node of `((a?.b))[i]`. -/
def subscript : Node :=
  node "subscript_expression" 0 11
    [grouped (around (chain 2)), token "[" 8 9, part "index" (word 9), token "]" 10 11]

/-- Two pairs of parentheses end the chain before the subscript, and are lost. -/
theorem subscript_joins_chain :
    ∃ e, subscript.toExpr (Utf8.encode "((a?.b))[i]") = .ok e ∧
      subscript.ungroup.toExpr (Utf8.encode "((a?.b))[i]") = .ok e ∧ e.render = .ok "a?.b[i]" ∧
      ∃ target text step, (chain 2).toExpr (Utf8.encode "((a?.b))[i]") = .ok target ∧
        target.render = .ok text ∧ e.render = .ok (text ++ step) ∧
        ∃ c ∈ ['.', '[', '('], step.toList.head? = some c := by
  have htarget : subscript.target? = some (grouped (around (chain 2))) := rfl
  have hunwrap : (grouped (around (chain 2))).unwrap = chain 2 := by
    have hinner : (around (chain 2)).unwrap = (chain 2).unwrap := Node.unwrap_group rfl rfl
    exact (Node.unwrap_group rfl rfl).trans (hinner.trans (unwrap_chain 2))
  have hchain : (grouped (around (chain 2))).unwrap.OptionalChain := by
    rw [hunwrap]
    exact optionalChain_chain 2
  have htext : (subscript.toExpr (Utf8.encode "((a?.b))[i]")).toOption.map Expr.text =
      some "a?.b[i]" := by
    decide +kernel
  obtain ⟨e, he, hrender⟩ := Node.exists_render_of_text htext
  obtain ⟨hsame, hjoins⟩ := Node.toExpr_joins_chain (Utf8.encode "((a?.b))[i]") htarget rfl
    hchain rfl (by decide)
  rw [hunwrap] at hjoins
  exact ⟨e, he, hsame.trans he, hrender, hjoins e he⟩

end GroupedChain

/-! ## Callees -/

namespace Expr

/-- The text of an expression among the arguments of a call. -/
def argumentText (e : Expr) : String := group e.precedence .assignment e.text

/-- What is written behind the callee of a call. -/
def callTail (optional : Bool) (args : List Expr) : String :=
  (if optional then "?." else "") ++ "(" ++ ", ".intercalate (args.map argumentText) ++ ")"

theorem listText_eq (es : List Expr) : listText es = ", ".intercalate (es.map argumentText) := by
  induction es with
  | nil => rfl
  | cons e es ih =>
    cases es with
    | nil => simp [listText, restText, argumentText]
    | cons f fs =>
      rw [List.map_cons, List.map_cons, String.intercalate_cons_cons, ← List.map_cons, ← ih]
      simp [listText, restText, argumentText, String.append_assoc]

theorem text_call (callee : Expr) (args : List Expr) (optional : Bool) :
    (call callee args optional).text =
      group callee.precedence .call callee.text ++ callTail optional args := by
  rw [text, listText_eq, callTail]
  simp only [String.append_assoc]

end Expr

namespace Node

variable {source : Bytes} {n callee args : Node} {word : String} {es : List Expr}

theorem toExpr_word (hkind : callee.kind ∈ ["identifier", "this", "super"])
    (htext : callee.text source = .ok word) : callee.toExpr source = .ok (.name word) := by
  rw [toExpr_eq, assemble]
  simp only [List.mem_cons, List.not_mem_nil, or_false] at hkind
  rcases hkind with hkind | hkind | hkind
  all_goals
    rw [hkind, htext]
    rfl

theorem toExpr_import (hkind : callee.kind = "import") (htext : callee.text source = .ok word) :
    callee.toExpr source = .ok (.raw word .assignment "import") := by
  rw [toExpr_eq, assemble, hkind]
  simp only [raw, htext, hkind]
  rfl

theorem toExpr_call_of_callee (hkind : n.kind = "call_expression")
    (hcallee : n.child? "function" = some callee) (hargs : n.child? "arguments" = some args)
    (hlist : args.kind = "arguments") (hes : args.operands.mapM (toExpr source) = .ok es) {c : Expr}
    (hc : callee.toExpr source = .ok c) :
    n.toExpr source = .ok (.call c es n.hasOptionalChain) ∧
      (Expr.call c es n.hasOptionalChain).render =
        .ok (Expr.group c.precedence .call c.text ++ Expr.callTail n.hasOptionalChain es) := by
  have hcall : n.toExpr source = .ok (.call c es n.hasOptionalChain) := by
    rw [toExpr_call hkind hargs hlist, withChild, hcallee]
    simp only [hc, hes, bind_ok_eq, pure_eq_ok]
  exact ⟨hcall, by rw [render_of_toExpr hcall, Expr.text_call]⟩

/-- **A call begins with its callee as it stands in the source exactly if the callee is not the word
`import`.** That word is put in parentheses. Behind the callee there are `?.`, if the call is optional,
and the arguments in parentheses. -/
theorem toExpr_call_word (hkind : n.kind = "call_expression")
    (hcallee : n.child? "function" = some callee) (hargs : n.child? "arguments" = some args)
    (hlist : args.kind = "arguments")
    (hword : callee.kind ∈ ["identifier", "this", "super", "import"])
    (htext : callee.text source = .ok word) (hes : args.operands.mapM (toExpr source) = .ok es) :
    ∃ e, n.toExpr source = .ok e ∧
      (e.render = .ok (word ++ Expr.callTail n.hasOptionalChain es) ↔ callee.kind ≠ "import") ∧
      (callee.kind = "import" →
        e.render = .ok ("(" ++ word ++ ")" ++ Expr.callTail n.hasOptionalChain es)) := by
  by_cases himport : callee.kind = "import"
  · obtain ⟨hcall, hrender⟩ :=
      toExpr_call_of_callee hkind hcallee hargs hlist hes (toExpr_import himport htext)
    have hgroup : Expr.group .assignment .call word = "(" ++ word ++ ")" := if_pos (by decide)
    change _ = Except.ok (Expr.group .assignment .call word ++ _) at hrender
    rw [hgroup] at hrender
    refine ⟨_, hcall, iff_of_false ?_ (fun hne => hne himport), fun _ => hrender⟩
    -- The text with the parentheses is longer by two.
    intro hplain
    have heq := congrArg String.length (Except.ok.inj (hrender.symm.trans hplain))
    simp only [String.length_append] at heq
    have hopen : "(".length = 1 := rfl
    omega
  · have hname : callee.kind ∈ ["identifier", "this", "super"] := by
      simpa [himport] using hword
    obtain ⟨hcall, hrender⟩ :=
      toExpr_call_of_callee hkind hcallee hargs hlist hes (toExpr_word hname htext)
    have hgroup : Expr.group .primary .call word = word := if_neg (by decide)
    change _ = Except.ok (Expr.group .primary .call word ++ _) at hrender
    rw [hgroup] at hrender
    exact ⟨_, hcall, iff_of_true hrender himport, fun h => absurd h himport⟩

end Node

namespace CalledWord

open Sample

/-- The node of `import(x)`. -/
def dynamicImport : Node :=
  call (node "import" 0 6) 9 [token "(" 6 7, word 7, token ")" 8 9]

/-- `(import)(x)` is no expression. -/
theorem dynamicImport_in_parentheses :
    ∃ e, dynamicImport.toExpr (Utf8.encode "import(x)") = .ok e ∧
      e.render = .ok "(import)(x)" := by
  have htext : (dynamicImport.toExpr (Utf8.encode "import(x)")).toOption.map Expr.text =
      some "(import)(x)" := by
    decide +kernel
  exact Node.exists_render_of_text htext

/-- The arguments of `this?.((a, b), c)`. -/
def arguments : Node :=
  part "arguments" (node "arguments" 6 17
    [token "(" 6 7,
      GroupedChain.around (node "sequence_expression" 8 12 [word 8, token "," 9 10, word 11]),
      token "," 13 14, word 15, token ")" 16 17])

/-- The node of `this?.((a, b), c)`. -/
def optionalCall : Node :=
  node "call_expression" 0 17
    [part "function" (node "this" 0 4), node "optional_chain" 4 6, arguments]

/-- The parentheses around the sequence are kept, since a comma would divide the arguments. -/
theorem optionalCall_keeps_callee :
    ∃ e, optionalCall.toExpr (Utf8.encode "this?.((a, b), c)") = .ok e ∧
      e.render = .ok "this?.((a, b), c)" := by
  have hargs : (arguments.operands.mapM
      (Node.toExpr (Utf8.encode "this?.((a, b), c)"))).toOption.map (·.map Expr.argumentText) =
        some ["(a, b)", "c"] := by
    decide +kernel
  have htext : (Node.text (part "function" (node "this" 0 4))
      (Utf8.encode "this?.((a, b), c)")).toOption.map id = some "this" := by
    decide +kernel
  obtain ⟨es, hes, htexts⟩ := exists_ok_of_toOption hargs
  obtain ⟨_, htext, rfl⟩ := exists_ok_of_toOption htext
  obtain ⟨e, he, hrender, _⟩ := Node.toExpr_call_word (n := optionalCall) rfl rfl rfl rfl
    (by decide) htext hes
  refine ⟨e, he, (hrender.mpr (by decide)).trans ?_⟩
  rw [Expr.callTail, htexts]
  rfl

end CalledWord
end CondUnfold
