import WebAudit.Script.Grammar.Type

/-!
Markup elements with their attributes and children.
-/

namespace WebAudit.Script

def isDashedPart (c : Char) : Bool := c.isAlphanum || c == '_' || c == '$' || c == '-'

/-- Whether a name with a dash starts here, and its length. -/
def dashedLength? (cs : List Char) : Option Nat :=
  let name := cs.takeWhile isDashedPart
  match name with
  | c :: _ => if name.contains '-' && !c.isDigit && c != '-' then some name.length else none
  | [] => none

/-- The length of a character reference after its ampersand. -/
def referenceLength? (cs : List Char) : Option Nat :=
  let within (least most : Nat) (digits rest : List Char) (lead : Nat) : Option Nat :=
    if least ≤ digits.length && digits.length ≤ most && rest.head? == some ';' then
      some (lead + digits.length + 1)
    else none
  match cs with
  | '#' :: x :: rest =>
    if x == 'x' || x == 'X' then
      within 1 6 (rest.takeWhile isHexDigit) (rest.dropWhile isHexDigit) 2
    else
      let body := x :: rest
      within 1 5 (body.takeWhile Char.isDigit) (body.dropWhile Char.isDigit) 1
  | _ => within 1 30 (cs.takeWhile Char.isAlpha) (cs.dropWhile Char.isAlpha) 0

/-- The length of the text between elements: no braces, no angle brackets, and
ampersands only in character references. -/
def markupTextLength : Nat → List Char → Nat
  | _, [] => 0
  | skip + 1, _ :: cs => 1 + markupTextLength skip cs
  | 0, c :: cs =>
    if c == '<' || c == '>' || c == '\x7b' || c == '\x7d' then 0
    else if c == '&' then
      match referenceLength? cs with
      | some n => 1 + markupTextLength n cs
      | none => 0
    else 1 + markupTextLength 0 cs

/-- The length of the rest of a string in an attribute with its quote. -/
def attributeStringLength? (quote : Char) : Nat → List Char → Option Nat
  | _, [] => none
  | skip + 1, _ :: cs => (attributeStringLength? quote skip cs).map (· + 1)
  | 0, c :: cs =>
    if c == quote then some 1
    else if c == '&' && (cs.head?.map fun d => d == '#' || d.isAlpha) == some true then
      match referenceLength? cs with
      | some n => (attributeStringLength? quote n cs).map (· + 1)
      | none => none
    else (attributeStringLength? quote 0 cs).map (· + 1)

namespace Grammar

open Reader

def markupWord : Reader Unit := do
  skip
  match dashedLength? (← place).rest with
  | some n => advance n
  | none =>
    let _ ← anyWord

def elementName : Reader Unit := do
  markupWord
  if ← accept ":" then markupWord
  else
    let _ ← many do
      symbol "."
      anyWord

/-- An expression in braces, which may be empty or a spread. -/
def embedded (g : Grammar) : Reader (List Node) := do
  symbol "\x7b"
  if ← accept "\x7d" then return []
  else
    let e ← if ← sees "..." then do
        symbol "..."
        g.expression {}
      else g.sequence {}
    symbol "\x7d"
    return [e]

def attributeString : Reader Unit := do
  skip
  match (← place).rest with
  | c :: rest =>
    require (c == '"' || c == '\'')
    match attributeStringLength? c 0 rest with
    | some n => advance (n + 1)
    | none => failure
  | [] => failure

def elementAttribute (g : Grammar) : Reader (List Node) := do
  if ← sees "\x7b" then g.embedded
  else
    markupWord
    if ← accept ":" then markupWord
    if ← accept "=" then
      match ← peek with
      | some '\x7b' => g.embedded
      | some '<' => return [← g.rule .element]
      | _ =>
        attributeString
        return []
    else return []

def elementChild (g : Grammar) : Reader (List Node) := do
  let n := markupTextLength 0 (← place).rest
  if n != 0 then
    advance n
    return []
  else
    match (← place).rest with
    | '\x7b' :: _ => g.embedded
    | '<' :: _ =>
      require (!(← sees "</"))
      return [← g.rule .element]
    | _ => failure

/-- The closing tag of an element; its name is not compared. -/
def closingTag : Reader Unit := do
  symbol "<"
  symbol "/"
  if !(← sees ">") then elementName
  symbol ">"

def element (g : Grammar) : Reader Node := do
  let s ← start
  symbol "<"
  let inTag ←
    if ← sees ">" then pure []
    else do
      elementName
      let generics ←
        if g.language.isTyped && (← sees "<") then do pure [← g.typeArguments] else pure []
      let attributes ← many g.elementAttribute
      pure (generics ++ attributes.flatten)
  if ← sees "/" then
    symbol "/"
    symbol ">"
    node .element s inTag
  else
    symbol ">"
    let children ← many g.elementChild
    closingTag
    node .element s (inTag ++ children.flatten)

end Grammar

end WebAudit.Script
