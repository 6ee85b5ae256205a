import WebAudit.Script.Semicolon
import WebAudit.Script.Tree

/-!
The means that the grammar is written with. A reader goes on from a place and
either fails or gives a result and the place after it. The constructs of the
grammar refer to each other through the rules of a `Grammar`, so each of them
is an ordinary function.
-/

namespace WebAudit.Script

abbrev Reader (α : Type) := StateT Place Option α

structure Mode where
  /-- A statement may end with the expression. -/
  ends : Bool := false
  /-- The expression may turn out to be a pattern. -/
  cover : Bool := false
  /-- An arrow function may declare what it returns. -/
  returns : Bool := true
  deriving DecidableEq, Repr, Inhabited

inductive Rule where
  | expression (mode : Mode)
  | statement
  | type (ends : Bool)
  | literal
  | parameters
  | arguments
  | element
  | block

structure Grammar where
  language : Language
  rule : Rule → Reader Node

namespace Reader

def place : Reader Place := get

/-- Moves to the next token. -/
def skip : Reader Unit := modify Place.skip

/-- Moves to the next token where an operand is expected. -/
def skipToOperand : Reader Unit := modify Place.skipToOperand

def ahead : Reader (List Char) := do return (← place).skip.rest

def peek : Reader (Option Char) := do return (← ahead).head?

def start : Reader Nat := do
  skip
  return (← place).index

def node (kind : Kind) (start : Nat) (children : List Node) : Reader Node := do
  return .mk kind .item start (← place).index children

def sees (text : String) : Reader Bool := do return Text.startsWith text.toList (← ahead)

/-- Whether the next token starts with a text that is not followed by one of
some characters. -/
def seesNot (text stops : String) : Reader Bool := do
  return match Text.after? text.toList (← ahead) with
    | some (c :: _) => !stops.toList.contains c
    | some [] => true
    | none => false

def symbol (text : String) : Reader Unit := do
  skip
  let s ← place
  match Text.after? text.toList s.rest with
  | some rest => set (Place.mk rest (s.index + text.length))
  | none => failure

def accept (text : String) : Reader Bool := do
  if ← sees text then
    symbol text
    return true
  else return false

def peekWord : Reader (Option String) := do
  return (← place).skip.word?.map fun (w, _) => String.ofList w

def seesWord (word : String) : Reader Bool := do return (← peekWord) == some word

def anyWord : Reader String := do
  match (← place).skip.word? with
  | some (w, s) =>
    set s
    return String.ofList w
  | none => failure

def word (text : String) : Reader Unit := do
  if (← anyWord) == text then return () else failure

def acceptWord (text : String) : Reader Bool := do
  if ← seesWord text then
    word text
    return true
  else return false

def identifier : Reader Node := do
  let s ← start
  let _ ← anyWord
  node .identifier s []

def require (condition : Bool) : Reader Unit := if condition then return () else failure

/-- A reader that may fail. -/
def attempt {α : Type} (p : Reader α) : Reader (Option α) := fun s =>
  match p s with
  | some (a, t) => some (some a, t)
  | none => some (none, s)

/-- Whether a reader would succeed here. -/
def wouldRead {α : Type} (p : Reader α) : Reader Bool := fun s => some ((p s).isSome, s)

/-- Results of a reader as long as it succeeds and moves on, at most `fuel` of
them; `acc` holds those so far, reversed. -/
def manyFrom {α : Type} (p : Reader α) : Nat → List α → Place → Option (List α × Place)
  | 0, acc, s => some (acc.reverse, s)
  | fuel + 1, acc, s =>
    match p s with
    | none => some (acc.reverse, s)
    | some (a, t) =>
      if t.index == s.index then some (acc.reverse, s) else manyFrom p fuel (a :: acc) t

/-- Results of a reader as long as it succeeds and moves on. -/
def many {α : Type} (p : Reader α) : Reader (List α) := fun s =>
  manyFrom p (s.rest.length + 1) [] s

def sepBy1 {α : Type} (separator : String) (p : Reader α) : Reader (List α) := do
  let first ← p
  let more ← many do
    symbol separator
    p
  return first :: more

/-- Items between commas up to a closing text. Items may be left out; `lead`
reads what stands before the place of an item. -/
def slots {α : Type} (close : String) (lead : Reader (List α)) (item : Reader α) :
    Reader (List α) := do
  let comma : Reader (List α) := do
    symbol ","
    lead
  let slot : Reader (List α) := do
    if ← sees "," then comma
    else if ← sees close then failure
    else
      let a ← item
      if ← sees close then return [a] else return a :: (← comma)
  let first ← lead
  let more ← many slot
  symbol close
  return first ++ more.flatten

/-- Items between commas up to a closing text. No item may be left out; a comma
may stand before the closing text. -/
def items {α : Type} (close : String) (item : Reader α) : Reader (List α) := do
  if ← accept close then return []
  else
    let xs ← sepBy1 "," item
    let _ ← accept ","
    symbol close
    return xs

end Reader

namespace Grammar

open Reader

def expression (g : Grammar) (mode : Mode) : Reader Node := g.rule (.expression mode)

/-- Whether a statement ends here without a semicolon being written. -/
def endsHere (g : Grammar) ( operator body : Bool) : Reader Bool := do
  return (← place).endsStatement ⟨g.language, operator, body⟩

/-- The end of a statement: an inserted semicolon or a written one. -/
def semicolon (g : Grammar) ( operator : Bool) : Reader Unit := do
  if ← g.endsHere operator false then return ()
  else symbol ";"

def sequence (g : Grammar) (mode : Mode) : Reader Node := do
  let s ← start
  let first ← g.expression mode
  if ← sees "," then
    let more ← many do
      symbol ","
      g.expression mode
    node .other s (first :: more)
  else return first

def initializer (g : Grammar) (mode : Mode) : Reader (Option Node) := do
  if ← seesNot "=" "=>" then
    symbol "="
    return some ((← g.expression mode).withRole .value)
  else return none

def declaredType (g : Grammar) (ends : Bool) : Reader (List Node) := do
  if g.language.isTyped && (← sees ":") then
    symbol ":"
    return [← g.rule (.type ends)]
  else return []

end Grammar

end WebAudit.Script
