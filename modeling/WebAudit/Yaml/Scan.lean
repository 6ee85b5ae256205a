import WebAudit.Yaml.Scalar

/-!
The tokens of a whole text.
-/

namespace WebAudit.Yaml

open Scan

/-- Moves past blanks, comments and line breaks to the next token. Outside
brackets a line break lets a key start, and a tab must not stand where one
may. -/
def toNextToken : Scan Unit :=
  loop do
    let r ← get
    if r.column == 0 && (r.rest.head?.map Char.toNat) == some 0xFEFF then modify Reader.skip
    let r ← get
    let tabs := r.inFlow || !r.keyAllowed
    let _ ← takeWhile fun c => c == ' ' || (tabs && c == '\t')
    if (← ahead).head? == some '#' then
      let _ ← takeWhile fun c => !isBreak c
    if breakAhead (← ahead) then
      modify Reader.skipBreak
      if !(← get).inFlow then allowKey true
      return true
    else return false

/-- Ends all blocks and every key before a mark of the document. -/
def endBlocks : Scan Unit := do
  modify (Reader.closeBlocks none)
  dropKey
  allowKey false

def versionNumber : Scan Nat := do
  let digits ← takeWhile Char.isDigit
  require (!digits.isEmpty && digits.length ≤ 9)
  return digits.foldl (fun n c => n * 10 + (c.toNat - 48)) 0

def isTagChar (verbatim : Bool) (c : Char) : Bool :=
  isName c || ";/?:@&=+$.%!~*'()".toList.contains c || (verbatim && ",[]".toList.contains c)

/-- The number of bytes of a character by its first byte. -/
def byteWidth? (byte : Nat) : Option Nat :=
  if byte < 0x80 then some 1
  else if 0xC0 ≤ byte && byte < 0xE0 then some 2
  else if 0xE0 ≤ byte && byte < 0xF0 then some 3
  else if 0xF0 ≤ byte && byte < 0xF8 then some 4
  else none

def readByte : Scan Nat := do
  match (← ahead) with
  | '%' :: a :: b :: _ =>
    match hexNumber? [a, b] with
    | some n =>
      skipMany 3
      return n
    | none => failure
  | _ => failure

def readMoreBytes : Nat → Nat → Scan Nat
  | 0, code => return code
  | n + 1, code => do
    let byte ← readByte
    require (0x80 ≤ byte && byte < 0xC0)
    readMoreBytes n (code * 64 + byte % 64)

def readPercent : Scan Char := do
  let first ← readByte
  match byteWidth? first with
  | some 1 => return Char.ofNat first
  | some w => return Char.ofNat (← readMoreBytes (w - 1) (first % Nat.pow 2 (7 - w)))
  | none => failure

/-- Reads the characters of the rest of a tag; `text` holds those so far,
reversed. -/
def tagChars (verbatim : Bool) : Nat → List Char → Scan (List Char)
  | 0, _ => failure
  | fuel + 1, text => do
    match (← ahead) with
    | c :: _ =>
      if !isTagChar verbatim c then return text.reverse
      else if c == '%' then
        let d ← readPercent
        tagChars verbatim fuel (d :: text)
      else
        modify Reader.skip
        tagChars verbatim fuel (c :: text)
    | [] => return text.reverse

/-- Reads the rest of a tag after the given start. -/
def tagRest (verbatim : Bool) (before : List Char) : Scan (List Char) := do
  let more ← tagChars verbatim ((← ahead).length + 1) []
  require (!(before.isEmpty && more.isEmpty))
  return before.tail ++ more

/-- Reads the handle of a tag: an exclamation mark, a name, and another mark if
it is there. -/
def tagHandle : Scan (List Char) := do
  require ((← ahead).head? == some '!')
  modify Reader.skip
  let name ← takeWhile isName
  if (← ahead).head? == some '!' then
    modify Reader.skip
    return '!' :: (name ++ ['!'])
  else return '!' :: name

def directive : Scan Token := do
  modify Reader.skip
  let name ← takeWhile isName
  require (!name.isEmpty && blankOrEnd (← ahead))
  if name == "YAML".toList then
    let _ ← takeWhile isBlank
    let major ← versionNumber
    require ((← ahead).head? == some '.')
    modify Reader.skip
    let minor ← versionNumber
    restOfLine
    return .version major minor
  else
    require (name == "TAG".toList)
    let _ ← takeWhile isBlank
    let handle ← tagHandle
    require (handle == ['!'] || (handle.length > 1 && handle.getLast? == some '!'))
    require (blankAhead (← ahead))
    let _ ← takeWhile isBlank
    let lead ← tagRest true []
    require (blankOrEnd (← ahead))
    restOfLine
    return .handle handle lead

def anchorName : Scan (List Char) := do
  modify Reader.skip
  let name ← takeWhile isName
  let rest ← ahead
  require (!name.isEmpty &&
    (blankOrEnd rest || (rest.head?.any fun c => "?:,]\x7d%@`".toList.contains c)))
  return name

def tag : Scan Token := do
  let t ←
    if (← ahead).tail.head? == some '<' then do
      skipMany 2
      let uri ← tagRest true []
      require ((← ahead).head? == some '>')
      modify Reader.skip
      pure (Token.tag [] uri)
    else do
      let handle ← tagHandle
      if handle.length > 1 && handle.getLast? == some '!' then
        pure (Token.tag handle (← tagRest false []))
      else do
        let suffix ← tagRest false handle
        pure (if suffix.isEmpty then Token.tag [] ['!'] else Token.tag ['!'] suffix)
  let r ← get
  require ((r.inFlow && r.rest.head? == some ',') || blankOrEnd r.rest)
  return t

def openFlow (t : Token) : Scan Unit := do
  noteKey
  modify fun r => { r with keys := none :: r.keys }
  allowKey true
  modify Reader.skip
  push t

def closeFlow (t : Token) : Scan Unit := do
  dropKey
  modify fun r => if r.inFlow then { r with keys := r.keys.tail } else r
  allowKey false
  modify Reader.skip
  push t

def blockEntry : Scan Unit := do
  if !(← get).inFlow then
    require (← get).keyAllowed
    modify fun r => r.openBlock r.column r.count .blockSequenceStart
  dropKey
  allowKey true
  modify Reader.skip
  push .blockEntry

def explicitKey : Scan Unit := do
  if !(← get).inFlow then
    require (← get).keyAllowed
    modify fun r => r.openBlock r.column r.count .blockMappingStart
  dropKey
  allowKey (!(← get).inFlow)
  modify Reader.skip
  push .key

/-- Reads the mark of a value. If a key may have started before, it did. -/
def value : Scan Unit := do
  match (← get).keys with
  | some k :: outer =>
    modify fun r =>
      ({ r.insert k.position .key with keys := none :: outer }).openBlock k.column k.position
        .blockMappingStart
    allowKey false
  | _ =>
    if !(← get).inFlow then
      require (← get).keyAllowed
      modify fun r => r.openBlock r.column r.count .blockMappingStart
    allowKey (!(← get).inFlow)
  modify Reader.skip
  push .value

/-- Reads a token before which a key may start and after which none may. -/
def keyLike (t : Scan Token) : Scan Unit := do
  noteKey
  allowKey false
  push (← t)

/-- Whether a plain scalar may start with the characters that come next. -/
def startsPlain (flow : Bool) (cs : List Char) : Bool :=
  match cs with
  | [] => false
  | c :: rest =>
    !(isBlank c || isBreak c || "-?:,[]\x7b\x7d#&*!|>'\"%@`".toList.contains c) ||
      (c == '-' && !blankAhead rest) ||
      (!flow && (c == '?' || c == ':') && !blankOrEnd rest)

/-- Reads the next token, with those that come before it. Tells whether more
tokens follow. -/
def nextToken : Scan Bool := do
  toNextToken
  dropStaleKeys
  modify fun r => r.closeBlocks (some r.column)
  let r ← get
  match r.rest with
  | [] =>
    endBlocks
    push .streamEnd
    return false
  | c :: rest =>
    if r.column == 0 && c == '%' then
      endBlocks
      push (← directive)
    else if r.atMark '-' then
      endBlocks
      skipMany 3
      push .documentStart
    else if r.atMark '.' then
      endBlocks
      skipMany 3
      push .documentEnd
    else if c == '[' then openFlow .flowSequenceStart
    else if c == '\x7b' then openFlow .flowMappingStart
    else if c == ']' then closeFlow .flowSequenceEnd
    else if c == '\x7d' then closeFlow .flowMappingEnd
    else if c == ',' then
      dropKey
      allowKey true
      modify Reader.skip
      push .flowEntry
    else if c == '-' && blankOrEnd rest then blockEntry
    else if c == '?' && (r.inFlow || blankOrEnd rest) then explicitKey
    else if c == ':' && (r.inFlow || blankOrEnd rest) then value
    else if c == '*' then keyLike do return .reference (← anchorName)
    else if c == '&' then keyLike do return .anchor (← anchorName)
    else if c == '!' then keyLike tag
    else if (c == '|' || c == '>') && !r.inFlow then
      dropKey
      allowKey true
      push (← blockScalar (c == '>'))
    else if c == '\'' then keyLike (quotedScalar true)
    else if c == '"' then keyLike (quotedScalar false)
    else if startsPlain r.inFlow r.rest then
      noteKey
      allowKey false
      push (← plainScalar)
    else failure
    return true

def tokens? (cs : List Char) : Option (List Token) :=
  if cs.all isAllowed then
    ((repeatFrom nextToken (cs.length + 2)).run { rest := cs }).map fun (_, r) => r.tokens.reverse
  else none

end WebAudit.Yaml
