import WebAudit.Script.Grammar.Signature

/-!
Types.
-/

namespace WebAudit.Script.Grammar

open Reader

def typeArguments (g : Grammar) : Reader Node := do
  let s ← start
  symbol "<"
  let ts ← sepBy1 "," (g.rule (.type false))
  let _ ← accept ","
  symbol ">"
  node .other s ts

/-- Reads the mark in front of the type of an index signature. -/
def indexMark : Reader Unit := do
  if ← accept "-?:" then return ()
  else if ← accept "+?:" then return ()
  else if ← accept "?:" then return ()
  else symbol ":"

/-- An index signature, or the clause of a mapped type. -/
def indexSignature (g : Grammar) : Reader Node := do
  let s ← start
  if (← sees "+") || (← sees "-") then
    advance 0
    let _ ← accept "+"
    let _ ← accept "-"
    word "readonly"
  else
    let _ ← attempt do
      word "readonly"
      require (← sees "[")
  symbol "["
  let _ ← anyWord
  let inner ←
    if ← accept ":" then do pure [← g.rule (.type false)]
    else do
      word "in"
      let source ← g.rule (.type false)
      if ← acceptWord "as" then pure [source, ← g.rule (.type false)] else pure [source]
  symbol "]"
  indexMark
  let t ← g.rule (.type true)
  node .other s (inner ++ [t])

def memberModifiers : List String :=
  ["public", "private", "protected", "static", "override", "readonly", "async", "get", "set"]

def typeMember (g : Grammar) : Reader Node := do
  let s ← start
  let c ← peek
  let construct : Reader Node := do
    let _ ← acceptWord "abstract"
    word "new"
    require ((← sees "(") || (← sees "<"))
    node .other s (← g.signature true)
  let named : Reader Node := do
    let _ ← g.modifiers true memberModifiers
    let _ ← accept "*"
    let name ← g.propertyName
    let _ ← accept "?"
    if (← sees "(") || (← sees "<") then node .other s (name :: (← g.signature true))
    else node .other s (name :: (← g.declaredType true))
  if c == some '(' || c == some '<' then node .other s (← g.signature true)
  else
    match ← attempt g.indexSignature with
    | some n => return n
    | none =>
      match ← attempt construct with
      | some n => return n
      | none => named

/-- An object type: members with commas, semicolons or line breaks between
them. -/
def objectType (g : Grammar) : Reader Node := do
  let s ← start
  symbol "\x7b"
  let _ ← accept "|"
  if !(← accept ",") then
    let _ ← accept ";"
  let member : Reader Node := do
    require (!(← sees "\x7d"))
    let m ← g.typeMember
    if (← sees "\x7d") || (← sees "|\x7d") then return m
    else if ← accept "," then return m
    else
      g.semicolon false
      return m
  let ms ← many member
  let _ ← accept "|"
  symbol "\x7d"
  node .other s ms

/-- A member of a tuple type, which may have a name. -/
def tupleMember (g : Grammar) : Reader Node := do
  let s ← start
  let named : Reader Node := do
    let _ ← accept "..."
    let _ ← anyWord
    let _ ← accept "?"
    symbol ":"
    g.rule (.type false)
  match ← attempt named with
  | some t => node .other s [t]
  | none =>
    let _ ← accept "..."
    let t ← g.rule (.type false)
    let _ ← accept "?"
    node .other s [t]

def importType (g : Grammar) : Reader Node := do
  let s ← start
  word "import"
  let callee ← node .other s []
  let args ← g.rule .arguments
  let call ← node .call s [callee.withRole .callee, args.withRole .arguments]
  let names ← many do
    symbol "."
    identifier
  node .other s (call :: names)

def namedType (g : Grammar) (ends : Bool) : Reader Node := do
  let s ← start
  let _ ← sepBy1 "." anyWord
  if (← sees "<") && !(ends && (← g.endsHere false false)) then node .other s [← g.typeArguments]
  else node .other s []

/-- The name of a value with dots; a part of it may be private. -/
def valueName : Reader Unit := do
  let _ ← sepBy1 "." do
    if ← sees "#" then
      let _ ← privateName
    else
      let _ ← anyWord

/-- What the operator for the type of a value is applied to. -/
def typeQuery (g : Grammar) (ends : Bool) : Reader Node := do
  let s ← start
  word "typeof"
  if ← seesWord "import" then node .other s [← g.importType]
  else
    let base ← start
    valueName
    let callee ← node .other base []
    if (← sees "(") && !(ends && (← g.endsHere false false)) then
      let args ← g.rule .arguments
      let call ← node .call base [callee.withRole .callee, args.withRole .arguments]
      node .other s [call]
    else if (← sees "<") && !(ends && (← g.endsHere false false)) then
      node .other s [← g.typeArguments]
    else node .other s []

def functionType (g : Grammar) (ends : Bool) : Reader Node := do
  let s ← start
  if ← seesWord "abstract" then word "abstract"
  let _ ← acceptWord "new"
  let generics ← if ← sees "<" then g.typeParameters else pure []
  let ps ← g.rule .parameters
  symbol "=>"
  node .other s (generics ++ [ps] ++ (← g.returnType ends))

def typeAtom (g : Grammar) (ends : Bool) : Reader Node := do
  let s ← start
  match ← peek with
  | some '(' =>
    match ← attempt (g.functionType ends) with
    | some t => return t
    | none =>
      symbol "("
      let t ← g.rule (.type false)
      symbol ")"
      node .other s [t]
  | some '<' => g.functionType ends
  | some '\x7b' => g.objectType
  | some '[' =>
    symbol "["
    let ms ← items "]" g.tupleMember
    node .other s ms
  | some '`' => template (g.rule (.type false))
  | some '"' => string
  | some '\'' => string
  | some '*' =>
    symbol "*"
    node .other s []
  | some '?' =>
    symbol "?"
    node .other s [← g.rule (.type ends)]
  | some '-' =>
    symbol "-"
    number
  | some '+' =>
    symbol "+"
    number
  | some c =>
    if c.isDigit || c == '.' then number
    else
      match ← peekWord with
      | some "typeof" => g.typeQuery ends
      | some "import" => g.importType
      | some "new" => g.functionType ends
      | some "abstract" =>
        match ← attempt (g.functionType ends) with
        | some t => return t
        | none => g.namedType ends
      | some "unique" =>
        word "unique"
        let _ ← acceptWord "symbol"
        node .other s []
      | some "infer" =>
        word "infer"
        let _ ← anyWord
        if ← acceptWord "extends" then node .other s [← g.rule (.type ends)]
        else node .other s []
      | some _ => g.namedType ends
      | none => failure
  | none => failure

/-- A type with prefix words and with brackets behind it. -/
def typeOperand (g : Grammar) (ends : Bool) : Reader Node := do
  let s ← start
  let words ← many do
    match ← peekWord with
    | some w =>
      require (w == "keyof" || w == "readonly")
      word w
      require ((← peekWord).isSome || (← sees "(") || (← sees "\x7b") || (← sees "[") ||
        (← sees "'") || (← sees "\""))
    | none => failure
  let atom ← g.typeAtom ends
  let brackets ← many do
    require (← sees "[")
    require (!(ends && (← g.endsHere false false)))
    symbol "["
    if ← accept "]" then return []
    else
      let t ← g.rule (.type false)
      symbol "]"
      return [t]
  if words.isEmpty && brackets.isEmpty then return atom
  else node .other s (atom :: brackets.flatten)

def seesTypeOperator : Reader Bool := do
  return (← seesNot "|" "|\x7d") || (← seesNot "&" "&")

/-- A type: operands joined by operators, and the branches of a condition on
it. -/
def type (g : Grammar) (ends : Bool) : Reader Node := do
  let s ← start
  if ← seesTypeOperator then advanceOperator
  let first ← g.typeOperand ends
  let more ← many do
    require (← seesTypeOperator)
    advanceOperator
    if ← seesTypeOperator then advanceOperator
    g.typeOperand ends
  let branches ←
    if (← seesWord "extends") && !(ends && (← g.endsHere false false)) then
      attempt do
        word "extends"
        let right ← g.rule (.type false)
        symbol "?"
        let yes ← g.rule (.type false)
        symbol ":"
        return [right, yes, ← g.rule (.type ends)]
    else pure none
  node .other s (first :: more ++ branches.getD [])
where
  advanceOperator : Reader Unit := do
    skip
    advance 1

end WebAudit.Script.Grammar
