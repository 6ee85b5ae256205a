import WebAudit.Script.Grammar.Expression

/-!
Declarations: variables, functions, classes, and in a typed language types and
namespaces; imports and exports.
-/

namespace WebAudit.Script.Grammar

open Reader

def declarator (g : Grammar) : Reader Node := do
  let s ← start
  let name ← g.binding
  if g.language.isTyped then
    if ← seesNot "!" "=" then
      symbol "!"
      require (← sees ":")
  let type ← g.declaredType true
  let value ← g.initializer { ends := true }
  node .declarator s ([name.withRole .name] ++ type ++ value.toList)

def declarators (g : Grammar) (s : Nat) : Reader Node := do
  let ds ← sepBy1 "," g.declarator
  let hasValue := (ds.getLast?.bind (Node.child? · .value)).isSome
  g.semicolon hasValue
  node .other s ds

/-- Whether the word `let` declares variables here. -/
def letDeclares (g : Grammar) : Reader Bool :=
  wouldRead do
    word "let"
    require (!(← g.endsHere true false))
    match ← peekWord with
    | some w => require (w != "in" && w != "instanceof")
    | none => require ((← sees "[") || (← sees "\x7b"))

def variableDeclaration (g : Grammar) : Reader Node := do
  let s ← start
  let _ ← anyWord
  g.declarators s

/-- A declaration of a function. In a typed language the body may be missing. -/
def functionDeclaration (g : Grammar) : Reader Node := do
  let s ← start
  let _ ← acceptWord "async"
  word "function"
  let _ ← accept "*"
  let name ← identifier
  let sig ← g.signature g.language.isTyped
  if ← sees "\x7b" then
    let body ← g.rule .block
    node .other s ([name] ++ sig ++ [body])
  else
    require g.language.isTyped
    if !(← g.endsHere false true) then symbol ";"
    node .other s ([name] ++ sig)

def seesFunctionDeclaration (g : Grammar) : Reader Bool :=
  wouldRead do
    if ← acceptWord "async" then require (!(← g.endsHere true false))
    word "function"
    let _ ← accept "*"
    let _ ← anyWord

def seesClassDeclaration (g : Grammar) : Reader Bool :=
  wouldRead do
    word "class"
    let name ← anyWord
    require (name != "extends" && (name != "implements" || !g.language.isTyped))

def classDeclaration (g : Grammar) (s : Nat) (decorators : List Node) : Reader Node := do
  if g.language.isTyped then
    let _ ← acceptWord "abstract"
  g.classRest s decorators false

def typeAlias (g : Grammar) : Reader Node := do
  let s ← start
  word "type"
  require (!(← g.endsHere true false))
  let _ ← anyWord
  let generics ← if ← sees "<" then g.typeParameters else pure []
  symbol "="
  let t ← g.rule (.type true)
  g.semicolon false
  node .other s (generics ++ [t])

def interface (g : Grammar) : Reader Node := do
  let s ← start
  word "interface"
  let _ ← anyWord
  let generics ← if ← sees "<" then g.typeParameters else pure []
  let bases ← if ← acceptWord "extends" then sepBy1 "," (g.rule (.type false)) else pure []
  let body ← g.objectType
  node .other s (generics ++ bases ++ [body])

def enumeration (g : Grammar) : Reader Node := do
  let s ← start
  let _ ← acceptWord "const"
  word "enum"
  let _ ← anyWord
  symbol "\x7b"
  let members ← items "\x7d" do
    let m ← start
    let name ← g.propertyName
    let value ← g.initializer {}
    node .other m (name :: value.toList)
  node .other s members

def namespaceName : Reader Unit := do
  if (← sees "'") || (← sees "\"") then
    let _ ← string
  else
    let _ ← sepBy1 "." anyWord

def namespaceDeclaration (g : Grammar) : Reader Node := do
  let s ← start
  let w ← anyWord
  require (!(← g.endsHere true false))
  require (w == "module" || (← peekWord).isSome)
  namespaceName
  if ← sees "\x7b" then
    let body ← g.rule .block
    node .other s [body]
  else node .other s []

def moduleName : Reader Unit := do
  if (← sees "'") || (← sees "\"") then
    let _ ← string
  else
    let _ ← anyWord

def specifier (g : Grammar) : Reader Unit := do
  let plain : Reader Unit := do
    moduleName
    if ← acceptWord "as" then moduleName
    require ((← sees ",") || (← sees "\x7d"))
  let typed : Reader Unit := do
    require (g.language.isTyped && ((← seesWord "type") || (← seesWord "typeof")))
    let _ ← anyWord
    plain
  match ← attempt plain with
  | some _ => return ()
  | none => typed

def specifiers (g : Grammar) : Reader Unit := do
  symbol "\x7b"
  let _ ← items "\x7d" g.specifier

def source : Reader Node := do
  word "from"
  string

def importAttributes (g : Grammar) : Reader (List Node) := do
  if ← seesWord "with" then
    let read : Reader Node := do
      word "with"
      g.object
    return (← attempt read).toList
  else return []

def importClause (g : Grammar) : Reader Unit := do
  let grouped : Reader Unit := do
    if ← accept "*" then
      word "as"
      let _ ← anyWord
    else g.specifiers
  if (← peekWord).isSome then
    let _ ← anyWord
    if ← accept "," then grouped
  else grouped

def importDeclaration (g : Grammar) : Reader Node := do
  let s ← start
  word "import"
  let clause : Reader (List Node) := do
    g.importClause
    return [← source]
  let required : Reader (List Node) := do
    let _ ← anyWord
    symbol "="
    word "require"
    symbol "("
    let m ← string
    symbol ")"
    return [m]
  let renamed : Reader (List Node) := do
    let _ ← anyWord
    symbol "="
    let _ ← sepBy1 "." anyWord
    return []
  let bound : Reader (List Node) := do
    if (← sees "'") || (← sees "\"") then return [← string]
    else
      match ← attempt clause with
      | some m => return m
      | none =>
        require g.language.isTyped
        match ← attempt required with
        | some m => return m
        | none => renamed
  let typed : Reader (List Node) := do
    require (g.language.isTyped && ((← seesWord "type") || (← seesWord "typeof")))
    let _ ← anyWord
    bound
  let m ← match ← attempt typed with
    | some m => pure m
    | none => bound
  let attributes ← g.importAttributes
  g.semicolon false
  node .other s (m ++ attributes)

/-- Whether the word `import` starts a declaration here. -/
def importDeclares (g : Grammar) : Reader Bool :=
  wouldRead do
    word "import"
    require (!(← sees "(") && !(← sees ".") && !(g.language.isTyped && (← sees "<")))

/-- A declaration in a typed language that other code provides. -/
def ambient (g : Grammar) (declaration : Reader Node) : Reader Node := do
  let s ← start
  word "declare"
  require (!(← g.endsHere true false))
  let whole : Reader Node := do
    word "global"
    g.rule .block
  let member : Reader Node := do
    word "module"
    symbol "."
    let _ ← anyWord
    symbol ":"
    let t ← g.rule (.type true)
    g.semicolon false
    return t
  let inner ← match ← attempt whole with
    | some n => pure n
    | none =>
      match ← attempt member with
      | some n => pure n
      | none => declaration
  node .other s [inner]

/-- A declaration after its decorators; `fuel` bounds how deep declarations
stand in front of each other. -/
def declarationFrom (g : Grammar) (s : Nat) (decorators : List Node) : Nat → Reader Node
  | 0 => failure
  | fuel + 1 => do
    if !decorators.isEmpty then g.classDeclaration s decorators
    else
      match ← peekWord with
      | some "function" => g.functionDeclaration
      | some "async" => g.functionDeclaration
      | some "class" => g.classDeclaration s []
      | some "var" => g.variableDeclaration
      | some "let" =>
        require (← g.letDeclares)
        g.variableDeclaration
      | some "const" =>
        let listed : Reader Node := do
          require g.language.isTyped
          g.enumeration
        match ← attempt listed with
        | some n => return n
        | none => g.variableDeclaration
      | some w =>
        require g.language.isTyped
        match w with
        | "abstract" => g.classDeclaration s []
        | "interface" => g.interface
        | "enum" => g.enumeration
        | "type" => g.typeAlias
        | "namespace" => g.namespaceDeclaration
        | "module" => g.namespaceDeclaration
        | "import" => g.importDeclaration
        | "declare" => g.ambient (declarationFrom g s [] fuel)
        | _ => failure
      | none =>
        require (← sees "@")
        let more ← many g.decorator
        g.classDeclaration s more

def declaration (g : Grammar) (s : Nat) (decorators : List Node) : Reader Node := do
  g.declarationFrom s decorators ((← place).rest.length + 1)

/-- What is exported as the default: a declaration or an expression. -/
def defaultExport (g : Grammar) (s : Nat) (decorators : List Node) : Reader Node := do
  let isDeclaration ← do
    if !decorators.isEmpty || (← g.seesFunctionDeclaration) || (← g.seesClassDeclaration) then
      pure true
    else wouldRead do
      require (g.language.isTyped || (← sees "@") || (← seesWord "var") || (← seesWord "const") ||
        (← seesWord "let"))
      g.declaration s []
  if isDeclaration then g.declaration s decorators
  else
    let e ← g.expression { ends := true }
    g.semicolon true
    return e

def exportDeclaration (g : Grammar) (s : Nat) (decorators : List Node) : Reader Node := do
  word "export"
  let optionalSource : Reader (List Node) := do
    if ← seesWord "from" then return [← source] else return []
  if ← sees "*" then
    symbol "*"
    if ← acceptWord "as" then moduleName
    let m ← source
    g.semicolon false
    node .other s [m]
  else if ← sees "\x7b" then
    g.specifiers
    let m ← optionalSource
    g.semicolon false
    node .other s m
  else if ← acceptWord "default" then
    node .other s (decorators ++ [← g.defaultExport s decorators])
  else
    let named : Reader Node := do
      word "type"
      g.specifiers
      let m ← optionalSource
      g.semicolon false
      node .other s m
    let assigned : Reader Node := do
      symbol "="
      let e ← g.expression { ends := true }
      g.semicolon true
      node .other s [e]
    let globally : Reader Node := do
      word "as"
      word "namespace"
      let _ ← anyWord
      g.semicolon false
      node .other s []
    let typed : Reader Node := do
      require g.language.isTyped
      if ← sees "=" then assigned
      else if ← seesWord "as" then globally
      else named
    match ← attempt typed with
    | some n => return n
    | none => node .other s [← g.declaration s decorators]

end WebAudit.Script.Grammar
