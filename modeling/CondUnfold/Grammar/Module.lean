import CondUnfold.Grammar.Declaration

/-! Imports and exports. -/

namespace CondUnfold.Grammar

open Parse

/-- A string. -/
def stringLiteral : Parse Node := do
  toToken
  leaf "string" (Lexeme.string (← get).rest)

/-- A name of a module's export: any word, or a string. -/
def exportName : Parse Node := do
  toToken
  let n := Lexeme.identifier (← get).rest
  if n == 0 then stringLiteral else leaf "identifier" n

/-- A name with or without another name behind `as`, if the place is not empty. -/
def specifier (kind : String) : Parse (Option Node) := do
  let s ← nextSymbol .never
  if s == "," || s == "\x7d" then return none
  let name ← exportName
  let otherName ←
    if (← nextWord) == "as" then do
      keyword "as"
      pure [(← exportName).withRole "alias"]
    else pure []
  return some (← node kind name.start (name.withRole "name" :: otherName))

/-- Names in braces. Only the last place may be empty. -/
def specifiers (kind each : String) : Parse Node := do
  toToken
  let start ← pos
  symbol "\x7b"
  let items ← slots (specifier each) "\x7d"
  if items.dropLast.any Option.isNone then fail
  node kind start (items.filterMap id)

/-- `from` and the name of a module. -/
def fromClause : Parse Node := do
  keyword "from"
  return (← stringLiteral).withRole "source"

/-- Attributes of an import, if there are any. -/
def importAttributes (self : Self) : Parse (List Node) := do
  if (← nextWord) != "with" then return []
  toToken
  let start ← pos
  keyword "with"
  let o ← object self
  return [← node "import_attribute" start [o]]

/-- `*` and the name that stands for the whole module. -/
def namespaceImport : Parse Node := do
  toToken
  let start ← pos
  symbol "*"
  keyword "as"
  let name ← identifier
  node "namespace_import" start [name]

/-- What is imported under names in braces or under one name for all. -/
def importedNames : Parse Node := do
  if (← nextSymbol .never) == "*" then namespaceImport
  else specifiers "named_imports" "import_specifier"

/-- An import of a module. -/
def importStatement (self : Self) : Parse Node := do
  toToken
  let start ← pos
  keyword "import"
  let s ← nextSymbol .never
  let parts ←
    if s == "\"" || s == "'" then do pure [(← stringLiteral).withRole "source"]
    else do
      toToken
      let at' ← pos
      let names ←
        if s == "*" || s == "\x7b" then do pure [← importedNames]
        else do
          let name ← identifier
          if ← accept "," then do pure [name, ← importedNames] else pure [name]
      let clause ← node "import_clause" at' names
      pure [clause, ← fromClause]
  let attributes ← importAttributes self
  semicolon .afterWord
  node "import_statement" start (parts ++ attributes)

/-- What stands behind `export default`. -/
def exportedValue (self : Self) : Parse Node := do
  if ← declarationAhead then
    return (← declaration self).withRole "declaration"
  else
    let e ← self (.expression 0 .afterExpr)
    semicolon .afterExpr
    return e.withRole "value"

/-- An export from a module. -/
def exportStatement (self : Self) : Parse Node := do
  toToken
  let start ← pos
  keyword "export"
  let parts ←
    match ← nextSymbol .never with
    | "*" => do
      toToken
      let at' ← pos
      symbol "*"
      let name ←
        if (← nextWord) == "as" then do
          keyword "as"
          let n ← exportName
          pure [← node "namespace_export" at' [n]]
        else pure []
      let source ← fromClause
      let attributes ← importAttributes self
      semicolon .afterWord
      pure (name ++ [source] ++ attributes)
    | "\x7b" => do
      let names ← specifiers "export_clause" "export_specifier"
      let source ← if (← nextWord) == "from" then do pure [← fromClause] else pure []
      let attributes ← if source.isEmpty then pure [] else importAttributes self
      semicolon .afterWord
      pure ([names] ++ source ++ attributes)
    | _ => do
      if (← nextWord) == "default" then
        keyword "default"
        pure [← exportedValue self]
      else pure [(← declaration self).withRole "declaration"]
  node "export_statement" start parts

end CondUnfold.Grammar
