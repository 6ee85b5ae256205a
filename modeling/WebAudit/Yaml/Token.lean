import WebAudit.Text.Basic

/-!
Tokens of YAML and the reader that makes them. The reader keeps the place in
the text, the columns of the blocks that are open, and for each level of
brackets the place where a key may have started; when the colon after a key is
reached, the tokens in front of the key are put in.
-/

namespace WebAudit.Yaml

inductive Token where
  | version (major minor : Nat)
  | handle (name lead : List Char)
  | documentStart
  | documentEnd
  | streamEnd
  | blockSequenceStart
  | blockMappingStart
  | blockEnd
  | flowSequenceStart
  | flowSequenceEnd
  | flowMappingStart
  | flowMappingEnd
  | flowEntry
  | blockEntry
  | key
  | value
  | reference (name : List Char)
  | anchor (name : List Char)
  | tag (handle suffix : List Char)
  | scalar (text : List Char) (plain : Bool)
  deriving DecidableEq, Repr, Inhabited

structure KeyStart where
  /-- Whether a colon has to follow. -/
  required : Bool
  /-- The number of tokens before the key. -/
  position : Nat
  index : Nat
  line : Nat
  column : Nat
  deriving Repr, Inhabited

structure Reader where
  rest : List Char
  index : Nat := 0
  line : Nat := 0
  column : Nat := 0
  /-- The tokens so far, the last one first. -/
  tokens : List Token := []
  /-- The number of tokens so far. -/
  count : Nat := 0
  /-- The column of the innermost open block; none if no block is open. -/
  indent : Option Nat := none
  /-- The columns of the blocks around it. -/
  outer : List (Option Nat) := []
  /-- Whether a key may start here. -/
  keyAllowed : Bool := true
  /-- For each open bracket and for the whole, where a key may have started. -/
  keys : List (Option KeyStart) := [none]
  deriving Inhabited

abbrev Scan (α : Type) := StateT Reader Option α

def isBreak (c : Char) : Bool :=
  c == '\n' || c == '\r' || c.toNat == 0x85 || c.toNat == 0x2028 || c.toNat == 0x2029

def isBlank (c : Char) : Bool := c == ' ' || c == '\t'

def breakAhead (cs : List Char) : Bool := cs.head?.any isBreak

def blankAhead (cs : List Char) : Bool := cs.head?.any isBlank

def breakOrEnd (cs : List Char) : Bool := cs.isEmpty || breakAhead cs

def blankOrEnd (cs : List Char) : Bool := breakOrEnd cs || blankAhead cs

def isName (c : Char) : Bool := c.isAlphanum || c == '_' || c == '-'

/-- The characters that a text may consist of. -/
def isAllowed (c : Char) : Bool :=
  let n := c.toNat
  n == 9 || n == 10 || n == 13 || (0x20 ≤ n && n ≤ 0x7E) || n == 0x85 ||
    (0xA0 ≤ n && n ≤ 0xFFFD) || 0x10000 ≤ n

namespace Reader

def inFlow (r : Reader) : Bool := r.keys.length > 1

def skip (r : Reader) : Reader :=
  { r with rest := r.rest.tail, index := r.index + 1, column := r.column + 1 }

def skipMany (n : Nat) (r : Reader) : Reader :=
  { r with rest := r.rest.drop n, index := r.index + n, column := r.column + n }

def skipBreak (r : Reader) : Reader :=
  match r.rest with
  | '\r' :: '\n' :: rest =>
    { r with rest := rest, index := r.index + 2, line := r.line + 1, column := 0 }
  | _ :: rest => { r with rest := rest, index := r.index + 1, line := r.line + 1, column := 0 }
  | [] => r

/-- The text that a line break stands for. -/
def breakText (r : Reader) : List Char :=
  match r.rest with
  | c :: _ => if c.toNat == 0x2028 || c.toNat == 0x2029 then [c] else ['\n']
  | [] => []

def push (t : Token) (r : Reader) : Reader :=
  { r with tokens := t :: r.tokens, count := r.count + 1 }

/-- Adds a token at an earlier position. -/
def insert (position : Nat) (t : Token) (r : Reader) : Reader :=
  let later := r.count - position
  { r with tokens := r.tokens.take later ++ t :: r.tokens.drop later, count := r.count + 1 }

/-- Whether a column lies further in than the innermost block. -/
def isDeeper (column : Nat) (indent : Option Nat) : Bool :=
  match indent with
  | some i => i < column
  | none => true

/-- Opens a block at a column, unless one is open there or inside brackets. -/
def openBlock (column position : Nat) (t : Token) (r : Reader) : Reader :=
  if r.inFlow || !isDeeper column r.indent then r
  else { r.insert position t with indent := some column, outer := r.indent :: r.outer }

/-- Whether the innermost block lies further in than a column; without a column,
whether there is one. -/
def isInside (column indent : Option Nat) : Bool :=
  match indent, column with
  | some i, some c => c < i
  | some _, none => true
  | none, _ => false

/-- Closes the innermost blocks as long as they lie further in than a column;
without a column, all of them. -/
def closeBlocksFrom (column : Option Nat) : List (Option Nat) → Reader → Reader
  | [], r => r
  | next :: outer, r =>
    if isInside column r.indent then
      closeBlocksFrom column outer { r.push .blockEnd with indent := next, outer := outer }
    else r

/-- Closes blocks unless inside brackets. -/
def closeBlocks (column : Option Nat) (r : Reader) : Reader :=
  if r.inFlow then r else closeBlocksFrom column r.outer r

/-- Whether a document mark of three equal characters stands here. -/
def atMark (c : Char) (r : Reader) : Bool :=
  r.column == 0 &&
    match Text.after? [c, c, c] r.rest with
    | some rest => blankOrEnd rest
    | none => false

def atDocumentMark (r : Reader) : Bool := r.atMark '-' || r.atMark '.'

end Reader

namespace Scan

def require (condition : Bool) : Scan Unit := if condition then return () else failure

def ahead : Scan (List Char) := do return (← get).rest

def repeatFrom (step : Scan Bool) : Nat → Scan Unit
  | 0 => failure
  | fuel + 1 => do if ← step then repeatFrom step fuel else return ()

/-- Repeats a step, which moves on each time, as long as it asks for more. -/
def loop (step : Scan Bool) : Scan Unit := do repeatFrom step ((← ahead).length + 2)

def takeWhile (test : Char → Bool) : Scan (List Char) := do
  let cs := (← ahead).takeWhile test
  modify (Reader.skipMany cs.length)
  return cs

def readBreak : Scan (List Char) := do
  let text := (← get).breakText
  modify Reader.skipBreak
  return text

/-- Gives up the place where a key may have started. A colon must not have been
required. -/
def dropKey : Scan Unit := do
  match (← get).keys with
  | some k :: outer =>
    require (!k.required)
    modify fun r => { r with keys := none :: outer }
  | _ => return ()

/-- Notes that a key may start here. -/
def noteKey : Scan Unit := do
  let r ← get
  if r.keyAllowed then
    let k : KeyStart :=
      { required := !r.inFlow && r.indent == some r.column, position := r.count
        index := r.index, line := r.line, column := r.column }
    dropKey
    modify fun r => { r with keys := some k :: r.keys.tail }

/-- Gives up places where a key can no longer have started: on an earlier line
or more than 1024 characters ago. -/
def dropStaleKeys : Scan Unit := do
  let r ← get
  let isStale (k : KeyStart) : Bool := k.line < r.line || k.index + 1024 < r.index
  require (r.keys.all fun k => !(k.any fun k => isStale k && k.required))
  set { r with keys := r.keys.map (Option.filter fun k => !isStale k) }

def allowKey (allowed : Bool) : Scan Unit := modify fun r => { r with keyAllowed := allowed }

def push (t : Token) : Scan Unit := modify (Reader.push t)

def skipMany (n : Nat) : Scan Unit := modify (Reader.skipMany n)

end Scan

end WebAudit.Yaml
