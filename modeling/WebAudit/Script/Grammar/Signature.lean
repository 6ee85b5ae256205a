import WebAudit.Script.Grammar.Literal

/-!
Signatures of functions: type parameters, parameters and what is returned, and
the patterns that parameters are bound by.
-/

namespace WebAudit.Script

namespace Node

/-- Whether a node can be assigned to as a whole: a name or a place in an
object. -/
def isTarget (n : Node) : Bool :=
  match n.kind with
  | .identifier => true
  | .undefined => true
  | .member => true
  | .subscript => true
  | .nonNull => true
  | _ => false

mutual

/-- Whether a literal can be read as a pattern. -/
def isPattern : Node → Bool
  | mk kind _ _ _ children =>
    match kind with
    | .array => allPatterns children
    | .object => allPatterns children
    | .pair => valuesPatterns children
    | .spread => allPatterns children
    | .assignment => firstPattern children
    | .defaulted => true
    | .shorthand => true
    | .identifier => true
    | .undefined => true
    | .member => true
    | .subscript => true
    | .nonNull => true
    | .pattern => true
    | _ => false

def allPatterns : List Node → Bool
  | [] => true
  | n :: rest => isPattern n && allPatterns rest

def valuesPatterns : List Node → Bool
  | [] => true
  | n :: rest => (n.role != .value || isPattern n) && valuesPatterns rest

def firstPattern : List Node → Bool
  | [] => true
  | n :: _ => isPattern n

end

mutual

/-- Whether a literal can be read as a pattern only. -/
def isPatternOnly : Node → Bool
  | mk kind _ _ _ children =>
    match kind with
    | .array => anyPatternOnly children
    | .object => anyPatternOnly children
    | .pair => anyPatternOnly children
    | .spread => anyPatternOnly children
    | .defaulted => true
    | _ => false

def anyPatternOnly : List Node → Bool
  | [] => false
  | n :: rest => isPatternOnly n || anyPatternOnly rest

end

end Node

namespace Grammar

open Reader

/-- An array or object in the place of a pattern. -/
def literalPattern (g : Grammar) : Reader Node := do
  let n ← g.rule .literal
  require n.isPattern
  return n.withKind .pattern

def binding (g : Grammar) : Reader Node := do
  match ← peek with
  | some '[' => g.literalPattern
  | some '\x7b' => g.literalPattern
  | _ => identifier

/-- Words that start an expression and hence are no names of parameters. -/
def operandWords : List String :=
  ["function", "class", "new", "this", "super", "true", "false", "null", "typeof", "void",
    "delete", "await", "yield", "import"]

def parameterPattern (g : Grammar) : Reader Node := do
  let s ← start
  if ← accept "..." then
    let p ← g.binding
    node .pattern s [p]
  else
    match ← peekWord with
    | some w =>
      require (!operandWords.contains w || (g.language.isTyped && (w == "this" || w == "new")))
      identifier
    | none => g.literalPattern

/-- A decorator: a name, a member of one, a call of either, or in a typed
language an expression in parentheses. -/
def decorator (g : Grammar) : Reader Node := do
  let s ← start
  symbol "@"
  if g.language.isTyped && (← sees "(") then
    symbol "("
    let e ← g.sequence {}
    symbol ")"
    node .other s [e]
  else
    let base ← start
    let first ← identifier
    let names ← many do
      symbol "."
      identifier
    let callee ← names.foldlM
      (fun object name => do
        return Node.mk .member .item base name.stop
          [object.withRole .object, (name.withKind .other).withRole .property])
      first
    let generics ← if g.language.isTyped && (← sees "<")
      then (attempt do
        symbol "<"
        let ts ← sepBy1 "," (g.rule (.type false))
        let _ ← accept ","
        symbol ">"
        require (← sees "(")
        return ts)
      else pure none
    if ← sees "(" then
      let args ← g.rule .arguments
      let call ← node .call base
        ([callee.withRole .callee] ++ generics.getD [] ++ [args.withRole .arguments])
      node .other s [call]
    else node .other s [callee]

/-- Words that may stand before a parameter in a typed language. -/
def parameterModifiers : List String := ["public", "private", "protected", "override", "readonly"]

def seesParameter : Reader Bool := do
  match ← peek with
  | some c => return c == '[' || c == '\x7b' || (← peekWord).isSome || (← sees "...")
  | none => return false

def parameter (g : Grammar) : Reader Node := do
  let s ← start
  if g.language.isTyped then
    let decorators ← many g.decorator
    let _ ← many do
      match ← peekWord with
      | some w =>
        require (parameterModifiers.contains w)
        let _ ← anyWord
        require (← seesParameter)
      | none => failure
    let p ← g.parameterPattern
    let _ ← accept "?"
    let type ← g.declaredType false
    let value ← g.initializer {}
    node .other s (decorators ++ [p] ++ type ++ value.toList)
  else
    let p ← g.parameterPattern
    match ← g.initializer {} with
    | some value => node .other s [p, value]
    | none => return p

def parameters (g : Grammar) : Reader Node := do
  let s ← start
  symbol "("
  let ps ← items ")" g.parameter
  node .other s ps

/-- What a function returns: a type, or what it says about an argument. -/
def returnType (g : Grammar) (ends : Bool) : Reader (List Node) := do
  let predicate : Reader (List Node) := do
    let _ ← anyWord
    word "is"
    return [← g.rule (.type ends)]
  let assertion : Reader (List Node) := do
    word "asserts"
    let subject ← anyWord
    require (subject != "is")
    if ← acceptWord "is" then return [← g.rule (.type ends)] else return []
  match ← attempt assertion with
  | some ts => return ts
  | none =>
    match ← attempt predicate with
    | some ts => return ts
    | none => return [← g.rule (.type ends)]

def typeParameter (g : Grammar) : Reader (List Node) := do
  if ← seesWord "const" then
    let _ ← attempt do
      word "const"
      require (← peekWord).isSome
  let _ ← anyWord
  let bound ←
    if (← acceptWord "extends") || (← accept ":") then do pure [← g.rule (.type false)]
    else pure []
  let fallback ← if ← seesNot "=" "=>" then do
      symbol "="
      pure [← g.rule (.type false)]
    else pure []
  return bound ++ fallback

def typeParameters (g : Grammar) : Reader (List Node) := do
  symbol "<"
  let ps ← sepBy1 "," g.typeParameter
  let _ ← accept ","
  symbol ">"
  return ps.flatten

def signature (g : Grammar) (ends : Bool) : Reader (List Node) := do
  let generics ← if g.language.isTyped && (← sees "<") then g.typeParameters else pure []
  let ps ← g.rule .parameters
  let result ← if g.language.isTyped && (← sees ":") then do
      symbol ":"
      g.returnType ends
    else pure []
  return generics ++ [ps] ++ result

end Grammar

end WebAudit.Script
