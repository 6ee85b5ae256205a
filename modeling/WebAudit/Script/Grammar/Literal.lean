import WebAudit.Script.Grammar.Basic

/-!
Literals and the names of properties.
-/

namespace WebAudit.Script

namespace Reader

def advance (n : Nat) : Reader Unit := modify (Place.advance n)

def markup : Reader Node := do
  let s ← start
  let cs := (← place).rest
  require (startsMarkup cs)
  advance (cs.takeWhile fun c => !endsMarkup c).length
  node .other s []

/-- Moves over comments in markup where they stand for nothing. -/
def skipMarkup {α : Type} : Reader (List α) := do
  skipToOperand
  return []

def string : Reader Node := do
  let s ← start
  match (← place).rest with
  | c :: rest =>
    require (c == '"' || c == '\'')
    match stringLength? c .plain rest with
    | some n =>
      advance (n + 1)
      node .other s []
    | none => failure
  | [] => failure

def number : Reader Node := do
  let s ← start
  let n := numberLength (← place).rest
  require (n != 0)
  advance n
  node .other s []

def regex : Reader Node := do
  let s ← start
  match (← place).rest with
  | '/' :: rest =>
    match regexTokenLength? rest with
    | some n =>
      advance (n + 1)
      node .other s []
    | none => failure
  | _ => failure

/-- The characters of a template up to an escape, a substitution or its end. -/
def templateChars : List Char → Nat
  | [] => 0
  | '`' :: _ => 0
  | '\\' :: _ => 0
  | '$' :: '\x7b' :: _ => 0
  | _ :: cs => templateChars cs + 1

def templatePiece (substitution : Reader Node) : Reader (List Node) := do
  match (← place).rest with
  | '$' :: '\x7b' :: _ =>
    advance 2
    let e ← substitution
    symbol "\x7d"
    return [e]
  | '\\' :: rest =>
    match escapeLength? .escaped rest with
    | some n =>
      advance (n + 1)
      return []
    | none => failure
  | rest =>
    let n := templateChars rest
    require (n != 0)
    advance n
    return []

def template (substitution : Reader Node) : Reader Node := do
  let s ← start
  symbol "`"
  let parts ← many (templatePiece substitution)
  match (← place).rest with
  | '`' :: _ =>
    advance 1
    node .other s parts.flatten
  | _ => failure

def privateName : Reader Node := do
  let s ← start
  match (← place).rest with
  | '#' :: rest =>
    match (Place.mk rest 0).word? with
    | some (w, _) =>
      advance (w.length + 1)
      node .other s []
    | none => failure
  | _ => failure

end Reader

namespace Grammar

open Reader

def templateLiteral (g : Grammar) : Reader Node := template (g.sequence {})

/-- The name of a property: a word, a private name, a string, a number or an
expression in brackets. -/
def propertyName (g : Grammar) : Reader Node := do
  match ← peek with
  | some '[' =>
    let s ← start
    symbol "["
    let e ← g.expression {}
    symbol "]"
    node .other s [e]
  | some '#' => privateName
  | some '"' => string
  | some '\'' => string
  | some c =>
    if c.isDigit || c == '.' then number
    else
      let s ← start
      let _ ← anyWord
      node .other s []
  | none => failure

/-- Whether the name of a property comes next, or the mark of a generator. -/
def seesPropertyName : Reader Bool := do
  match ← peek with
  | some c =>
    return c == '[' || c == '#' || c == '"' || c == '\'' || c == '*' || c.isDigit ||
      (← peekWord).isSome
  | none => return false

/-- Reads the words of a list that stand in front of a property name. A word is
itself the name when no name follows, or when a field may end after it. -/
def modifiers (g : Grammar) (fields : Bool) (words : List String) : Reader (List String) :=
  many do
    match ← peekWord with
    | some w =>
      require (words.contains w)
      let _ ← anyWord
      require (← seesPropertyName)
      if fields then require (!(← g.endsHere false false))
      return w
    | none => failure

end Grammar

end WebAudit.Script
