import CondUnfold.Grammar.Function

/-! Objects, arrays and classes. -/

namespace CondUnfold.Grammar

open Parse

/-- May the name of a property begin with the text? -/
def beginsName (cs : List Char) : Bool :=
  Lexeme.identifier cs ≠ 0 || Lexeme.number cs ≠ 0 ||
    cs.head?.any fun c => c == '"' || c == '\'' || c == '[' || c == '#'

/-- The name of a property. -/
def propertyName (self : Self) : Parse Node := do
  toToken
  let start ← pos
  let cs := (← get).rest
  if Lexeme.identifier cs ≠ 0 then leaf "property_identifier" (Lexeme.identifier cs)
  else if cs.head? == some '#' then leaf "private_property_identifier" (Lexeme.privateName cs)
  else if Lexeme.number cs ≠ 0 then leaf "number" (Lexeme.number cs)
  else if cs.head? == some '[' then
    symbol "["
    let e ← self (.expression 0 .never)
    symbol "]"
    node "computed_property_name" start [e]
  else leaf "string" (Lexeme.string cs)

/-- Is the word ahead one of `words`, and does the name of a property or a star follow it? -/
def modifierAhead (words : List String) : Parse Bool := ahead do
  toToken
  let w ← wordHere
  if !words.contains w then return false
  advance w.length
  toToken
  let cs := (← get).rest
  return beginsName cs || cs.head? == some '*'

/-- Read the modifiers of a method; tell whether there are any. -/
def methodModifiers : Parse Bool := do
  let async ← modifierAhead ["async"]
  if async then keyword "async"
  let accessor ← modifierAhead ["get", "set"]
  if accessor then
    toToken
    advance (← wordHere).length
  let star ← accept "*"
  return async || accessor || star

/-- The rest of a method behind its name. -/
def method (self : Self) (start : Nat) (name : Node) : Parse Node := do
  let params ← formalParameters self
  let body ← block self
  node "method_definition" start [name.withRole "name", params, body.withRole "body"]

/-- A field of an object, if the place is not empty. A name with a default value is accepted here;
it is an error unless the object becomes a pattern. -/
def objectField (self : Self) : Parse (Option Node) := do
  let s ← nextSymbol .never
  if s == "," || s == "\x7d" then return none
  if s == "..." then return some (← spread self)
  toToken
  let start ← pos
  let modified ← methodModifiers
  let w ← nextWord
  let plain := !modified && !w.isEmpty && !Lexeme.isReserved w
  let name ← propertyName self
  match ← nextSymbol .never with
  | "(" => return some (← method self start name)
  | ":" =>
    if modified then fail
    symbol ":"
    let value ← self (.expression 0 .never)
    return some (← node "pair" start [name.withRole "key", value.withRole "value"])
  | "=" =>
    if !plain then fail
    symbol "="
    let value ← self (.expression 0 .never)
    let left := { name with kind := "shorthand_property_identifier_pattern" }
    return some (← node "object_assignment_pattern" start
      [left.withRole "left", value.withRole "right"])
  | _ => if plain then return some { name with kind := "shorthand_property_identifier" } else fail

/-- An object. -/
def object (self : Self) : Parse Node := do
  toToken
  let start ← pos
  symbol "\x7b"
  let fields ← slots (objectField self) "\x7d"
  node "object" start (fields.filterMap id)

/-- An array. -/
def array (self : Self) : Parse Node := do
  toToken
  let start ← pos
  symbol "["
  let items ← slots (element self "]") "]"
  node "array" start (items.filterMap id)

/-- A decorator. -/
def decorator (self : Self) : Parse Node := do
  toToken
  let start ← pos
  symbol "@"
  let e ← self (.expression callBinding .never)
  return (← node "decorator" start [e]).withRole "decorator"

/-- Decorators, as many as there are. -/
def decorators (self : Self) : Parse (List Node) := many do
  if (← nextSymbol .never) == "@" then return some (← decorator self)
  return none

/-- A field of a class behind its name. -/
def classField (self : Self) (start : Nat) (head : List Node) (name : Node) : Parse Node := do
  let name := name.withRole "property"
  if (← nextSymbol .afterWord) == "=" then
    symbol "="
    let value ← self (.expression 0 .afterExpr)
    let n ← node "field_definition" start (head ++ [name, value.withRole "value"])
    semicolon .afterExpr
    return n
  else
    let n ← node "field_definition" start (head ++ [name])
    semicolon .afterWord
    return n

/-- A member of a class. -/
def classMember (self : Self) : Parse Node := do
  toToken
  let start ← pos
  let head ← decorators self
  let static ← ahead do
    toToken
    if (← wordHere) != "static" then return ""
    advance 6
    toToken
    let cs := (← get).rest
    if cs.head? == some '\x7b' then return "block"
    return if beginsName cs || cs.head? == some '*' then "member" else ""
  if static == "block" then
    keyword "static"
    let body ← block self
    node "class_static_block" start [body.withRole "body"]
  else
    if static == "member" then keyword "static"
    let modified ← methodModifiers
    let name ← propertyName self
    if (← nextSymbol .never) == "(" then
      let m ← method self start name
      return { m with children := head ++ m.children }
    else if modified then fail
    else classField self start head name

/-- The body of a class. -/
def classBody (self : Self) : Parse Node := do
  toToken
  let start ← pos
  symbol "\x7b"
  let members ← many do
    if ← accept "\x7d" then return none
    if ← accept ";" then return some []
    return some [(← classMember self).withRole "member"]
  node "class_body" start members.flatten

/-- A class from the word `class` on; a declaration has to have a name. -/
def classLike (self : Self) (start : Nat) (head : List Node) (declaration : Bool) :
    Parse Node := do
  keyword "class"
  let w ← nextWord
  let name ←
    if declaration || (!w.isEmpty && !Lexeme.isReserved w) then do
      pure [(← identifier).withRole "name"]
    else pure []
  let heritage ←
    if (← nextWord) == "extends" then do
      toToken
      let at' ← pos
      keyword "extends"
      let e ← self (.expression 0 .never)
      pure [← node "class_heritage" at' [e]]
    else pure []
  let body ← classBody self
  node (if declaration then "class_declaration" else "class") start
    (head ++ name ++ heritage ++ [body.withRole "body"])

end CondUnfold.Grammar
