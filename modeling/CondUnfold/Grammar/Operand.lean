import CondUnfold.Grammar.Object

/-! Operands: what stands between operators. -/

namespace CondUnfold.Grammar

open Parse

/-- The substitutions of a template behind its opening quote. -/
def templateRest (self : Self) : Parse (List Node) := do
  let parts ← many do
    let cs := (← get).rest
    match cs with
    | [] => fail
    | '\x60' :: _ =>
      advance 1
      return none
    | '\\' :: _ =>
      let n := Lexeme.escape cs
      if n == 0 then fail
      advance n
      return some []
    | '$' :: '\x7b' :: _ =>
      let start ← pos
      advance 2
      let e ← expressions self .never
      symbol "\x7d"
      return some [← node "template_substitution" start [e]]
    | _ :: rest =>
      advance (1 + Lexeme.span (fun c => c != '\x60' && c != '\\' && c != '$') rest)
      return some []
  return parts.flatten

/-- A template. -/
def template (self : Self) : Parse Node := do
  toToken
  let start ← pos
  symbol "`"
  node "template_string" start (← templateRest self)

/-- An expression in parentheses, or an arrow function with parameters in parentheses. -/
def parenthesizedOrArrow (self : Self) (semi : Semi) : Parse Node := do
  toToken
  let start ← pos
  symbol "("
  let items ← slots (element self ")") ")"
  let stop ← pos
  if (← nextSymbol .never) == "=>" then
    arrow self semi start (← parameterList start stop items)
  else
    match items.mapM id with
    | none => fail
    | some es =>
      if es.any (·.kind == "spread_element") then fail
      match es with
      | [e] => node "parenthesized_expression" start [e]
      | _ =>
        let first := (es.head?.map (·.start)).getD start
        let last := (es.getLast?.map (·.stop)).getD stop
        let inner : Node :=
          { kind := "sequence_expression", start := first, stop := last, children := es }
        node "parenthesized_expression" start [inner]

/-- An operand that begins with the word `async`, from that word on. -/
def asyncOperand (self : Self) (semi : Semi) : Parse Node := do
  let start ← pos
  let name ← leaf "identifier" 5
  match ← gap semi with
  | .stop _ => return name
  | .token c _ =>
    let w := String.ofList (c.rest.take (Lexeme.identifier c.rest))
    if w == "function" then function self start false
    else if c.rest.head? == some '(' then
      let argsStart := c.pos
      symbol "("
      let items ← slots (element self ")") ")"
      let argsStop ← pos
      if (← nextSymbol .never) == "=>" then
        arrow self semi start (← parameterList argsStart argsStop items)
      else
        let args : Node :=
          { kind := "arguments", start := argsStart, stop := argsStop,
            role := some "arguments", children := items.filterMap id }
        node "call_expression" start [name.withRole "function", args]
    else if w.isEmpty || Lexeme.isReserved w then return name
    else
      either
        (do
          let param ← identifier
          arrow self semi start (param.withRole "parameter"))
        (do
          return name)

/-- The arguments behind an operand of `new`, if there are any. -/
def creationArguments (self : Self) (semi : Semi) : Parse (List Node) := do
  if (← nextSymbol semi) == "(" then return [(← arguments self).withRole "arguments"]
  return []

/-- What stands behind `new`, with arguments if there are any. -/
def creation (self : Self) (semi : Semi) : Parse Node := do
  toToken
  let start ← pos
  keyword "new"
  if ← accept "." then
    keyword "target"
    node "meta_property" start
  else
    let callee ← self .constructor
    let args ← creationArguments self semi
    node "new_expression" start (callee.withRole "constructor" :: args)

/-- A unary operator with its operand. -/
def unary (self : Self) (semi : Semi) (op : String) : Parse Node := do
  let start ← pos
  let o ← operator op
  let e ← self (.expression updateBinding semi)
  node "unary_expression" start [o, e.withRole "argument"]

/-- `yield` with or without an expression. -/
def yielding (self : Self) (semi : Semi) : Parse Node := do
  let start ← pos
  keyword "yield"
  match ← gap semi with
  | .stop _ => node "yield_expression" start
  | .token c _ =>
    if Lexeme.symbol c.rest == "*" then
      symbol "*"
      let e ← self (.expression 0 semi)
      node "yield_expression" start [e]
    else if beginsExpression c.rest then
      let e ← self (.expression 0 semi)
      node "yield_expression" start [e]
    else node "yield_expression" start

/-- An operand that begins with a word. -/
def wordOperand (self : Self) (semi : Semi) (w : String) : Parse Node := do
  let start ← pos
  match w with
  | "typeof" | "void" | "delete" => unary self semi w
  | "await" =>
    keyword "await"
    let e ← self (.expression updateBinding semi)
    node "await_expression" start [e]
  | "yield" => yielding self semi
  | "function" => function self start false
  | "class" => classLike self start [] false
  | "new" => creation self semi
  | "async" => asyncOperand self semi
  | "this" | "super" | "null" | "true" | "false" | "undefined" => leaf w w.length
  | "import" =>
    let n ← leaf "import" w.length
    match ← nextSymbol .never with
    | "(" => return n
    | "." =>
      symbol "."
      keyword "meta"
      node "meta_property" start
    | _ => fail
  | _ => identifier

/-- An operand before any operator behind it. -/
def operand (self : Self) (least : Nat) (semi : Semi) : Parse Node := do
  toToken
  let start ← pos
  let cs := (← get).rest
  let w ← wordHere
  if !w.isEmpty then wordOperand self semi w
  else if Lexeme.number cs ≠ 0 then leaf "number" (Lexeme.number cs)
  else
    match cs.head? with
    | some '(' => parenthesizedOrArrow self semi
    | some '[' => array self
    | some '\x7b' => object self
    | some '"' | some '\'' => leaf "string" (Lexeme.string cs)
    | some '\x60' => template self
    | some '/' => leaf "regex" (Lexeme.regex cs)
    | some '#' =>
      let n ← leaf "private_property_identifier" (Lexeme.privateName cs)
      if least ≤ relationBinding && (← nextWord) == "in" then return n else fail
    | some '@' =>
      let head ← decorators self
      toToken
      classLike self start head false
    | _ =>
      match Lexeme.symbol cs with
      | "!" | "~" | "+" | "-" => unary self semi (Lexeme.symbol cs)
      | "++" | "--" =>
        let o ← operator (Lexeme.symbol cs)
        let e ← self (.expression callBinding semi)
        node "update_expression" start [o, e.withRole "argument"]
      | _ => fail

end CondUnfold.Grammar
