import WebAudit.Script.Grammar.Type

/-!
Arrays, objects and classes with their members.
-/

namespace WebAudit.Script.Grammar

open Reader

def spread (g : Grammar) (mode : Mode) : Reader Node := do
  let s ← start
  symbol "..."
  let e ← g.expression mode
  node .spread s [e]

/-- Arguments in parentheses. A comment in markup before an argument counts as
one. -/
def arguments (g : Grammar) : Reader Node := do
  let s ← start
  symbol "("
  let args ← slots ")" (many markup) do
    if ← sees "..." then g.spread {} else g.expression {}
  node .arguments s args

/-- An array, whose items may turn out to be patterns. -/
def array (g : Grammar) : Reader Node := do
  let s ← start
  symbol "["
  let xs ← slots "]" skipMarkup do
    if ← sees "..." then g.spread { cover := true } else g.expression { cover := true }
  node .array s xs

/-- The rest of a method from its parameters on. In a typed language the body
may be missing if `bodiless` is set. -/
def methodRest (g : Grammar) (s : Nat) (before : List Node) (name : Node) (bodiless : Bool) :
    Reader Node := do
  let sig ← g.signature true
  if bodiless && !(← sees "\x7b") then
    node .other s (before ++ [name.withRole .name] ++ sig)
  else
    let body ← g.rule .block
    node .method s (before ++ [name.withRole .name] ++ sig ++ [body])

def methodWords (g : Grammar) : List String :=
  ["static", "async", "get", "set"] ++
    if g.language.isTyped then ["public", "private", "protected", "override", "readonly"] else []

def seesSignature (g : Grammar) : Reader Bool := do
  return (← sees "(") || (g.language.isTyped && (← sees "<"))

/-- A member of an object: a spread, a method, a pair, or a name that stands for
itself, possibly with a default if the object turns out to be a pattern. -/
def objectMember (g : Grammar) : Reader Node := do
  if ← sees "..." then g.spread { cover := true }
  else
    let s ← start
    let decorators ← many g.decorator
    let words ← g.modifiers false g.methodWords
    let star ← accept "*"
    let plainWord := (← peekWord).isSome
    let name ← g.propertyName
    if g.language.isTyped && (← sees "?") then
      let _ ← attempt do
        symbol "?"
        require (← g.seesSignature)
    if ← g.seesSignature then g.methodRest s decorators name false
    else
      require (words.isEmpty && !star && decorators.isEmpty)
      if ← accept ":" then
        let value ← g.expression { cover := true }
        node .pair s [name.withRole .key, value.withRole .value]
      else
        require plainWord
        match ← g.initializer {} with
        | some value => node .defaulted s [name, value]
        | none => node .shorthand s []

/-- An object, whose members may turn out to be patterns. -/
def object (g : Grammar) : Reader Node := do
  let s ← start
  symbol "\x7b"
  let ms ← slots "\x7d" skipMarkup g.objectMember
  node .object s ms

def literal (g : Grammar) : Reader Node := do
  if ← sees "[" then g.array else g.object

def classWords (g : Grammar) : List String :=
  ["static", "async", "get", "set"] ++
    if g.language.isTyped then
      ["public", "private", "protected", "declare", "abstract", "override", "readonly", "accessor"]
    else []

def memberEnd (g : Grammar) ( operator body : Bool) : Reader Unit := do
  if g.language.isTyped && (← sees ",") then symbol ","
  else if ← g.endsHere operator body then
    if ← sees ";" then symbol ";"
  else symbol ";"

def field (g : Grammar) (s : Nat) (before : List Node) (name : Node) : Reader Node := do
  let type ← g.declaredType true
  let value ← g.initializer { ends := true }
  g.memberEnd value.isSome false
  node .other s (before ++ [name.withRole .name] ++ type ++ value.toList)

def namedMember (g : Grammar) (s : Nat) (decorators : List Node) : Reader Node := do
  let _ ← g.modifiers true g.classWords
  let _ ← accept "*"
  let name ← g.propertyName
  if g.language.isTyped then
    if !(← accept "?") then
      if ← seesNot "!" "=" then symbol "!"
  if ← g.seesSignature then
    let m ← g.methodRest s decorators name g.language.isTyped
    if m.kind == .method then
      let _ ← accept ";"
      return m
    else
      g.memberEnd false true
      return m
  else g.field s decorators name

/-- A member of a class; a semicolon on its own is none. -/
def classMember (g : Grammar) : Reader (List Node) := do
  if ← accept ";" then return []
  else
    let s ← start
    let block : Reader Node := do
      word "static"
      require (← sees "\x7b")
      g.rule .block
    let index : Reader Node := do
      require g.language.isTyped
      let _ ← g.modifiers true ["static"]
      let n ← g.indexSignature
      g.memberEnd false false
      return n
    match ← attempt block with
    | some b => return [b]
    | none =>
      match ← attempt index with
      | some n => return [n]
      | none =>
        let decorators ← many g.decorator
        return [← g.namedMember s decorators]

def classBody (g : Grammar) : Reader Node := do
  let s ← start
  symbol "\x7b"
  let ms ← many g.classMember
  symbol "\x7d"
  node .other s ms.flatten

def heritage (g : Grammar) : Reader (List Node) := do
  let base ←
    if ← acceptWord "extends" then
      if g.language.isTyped then
        sepBy1 "," do
          let e ← g.expression {}
          if ← sees "<" then
            let _ ← attempt g.typeArguments
          return e
      else do pure [← g.expression {}]
    else pure []
  let interfaces ←
    if g.language.isTyped && (← seesWord "implements") then do
      word "implements"
      sepBy1 "," (g.rule (.type false))
    else pure []
  return base ++ interfaces

/-- A class from the word on; the name may be left out if `anonymous` is set. -/
def classRest (g : Grammar) (s : Nat) (before : List Node) (anonymous : Bool) : Reader Node := do
  word "class"
  let named : Bool :=
    match ← peekWord with
    | some w => w != "extends" && (w != "implements" || !g.language.isTyped)
    | none => false
  require (named || anonymous)
  let name ← if named then do pure [← identifier] else pure []
  let generics ← if g.language.isTyped && (← sees "<") then g.typeParameters else pure []
  let base ← g.heritage
  let body ← g.classBody
  node .other s (before ++ name ++ generics ++ base ++ [body])

end WebAudit.Script.Grammar
