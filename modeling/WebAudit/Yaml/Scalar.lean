import WebAudit.Yaml.Token

/-!
Scalars of YAML: plain ones, quoted ones and block scalars. Line breaks inside
the first two are folded; in a block scalar that depends on its mark.
-/

namespace WebAudit.Yaml

open Scan

structure Gap where
  blanks : List Char := []
  /-- Whether a line has ended. -/
  broken : Bool := false
  /-- The first line break, and those after it. -/
  first : List Char := []
  more : List Char := []

/-- The text that a gap stands for: one line break becomes a space, and of
several the first is dropped. -/
def Gap.text (g : Gap) : List Char :=
  if g.broken then
    if g.first.head? == some '\n' then if g.more.isEmpty then [' '] else g.more
    else g.first ++ g.more
  else g.blanks

/-- Reads blanks and line breaks into a gap. Where a tab must not stand is told
by the column that content has to reach. -/
def readGap (least : Option Nat) (gap : Gap) : Nat → Scan Gap
  | 0 => failure
  | fuel + 1 => do
    let r ← get
    match r.rest with
    | c :: _ =>
      if isBlank c then
        require (!(gap.broken && c == '\t' && (least.any fun n => r.column < n)))
        modify Reader.skip
        readGap least (if gap.broken then gap else { gap with blanks := gap.blanks ++ [c] }) fuel
      else if isBreak c then
        let text ← readBreak
        readGap least
          (if gap.broken then { gap with more := gap.more ++ text }
            else { gap with blanks := [], broken := true, first := text }) fuel
      else return gap
    | [] => return gap

def hexValue? (c : Char) : Option Nat :=
  if c.isDigit then some (c.toNat - 48)
  else if 'a' ≤ c && c ≤ 'f' then some (c.toNat - 87)
  else if 'A' ≤ c && c ≤ 'F' then some (c.toNat - 55)
  else none

def hexNumber? (cs : List Char) : Option Nat :=
  cs.foldlM (fun n c => (hexValue? c).map fun d => n * 16 + d) 0

def escaped? (c : Char) : Option Char :=
  match c with
  | '0' => some (Char.ofNat 0)
  | 'a' => some (Char.ofNat 7)
  | 'b' => some (Char.ofNat 8)
  | 't' => some '\t'
  | '\t' => some '\t'
  | 'n' => some '\n'
  | 'v' => some (Char.ofNat 11)
  | 'f' => some (Char.ofNat 12)
  | 'r' => some '\r'
  | 'e' => some (Char.ofNat 27)
  | ' ' => some ' '
  | '"' => some '"'
  | '/' => some '/'
  | '\\' => some '\\'
  | 'N' => some (Char.ofNat 0x85)
  | '_' => some (Char.ofNat 0xA0)
  | 'L' => some (Char.ofNat 0x2028)
  | 'P' => some (Char.ofNat 0x2029)
  | _ => none

/-- The number of digits of an escape with a code. -/
def codeLength? (c : Char) : Option Nat :=
  match c with
  | 'x' => some 2
  | 'u' => some 4
  | 'U' => some 8
  | _ => none

/-- Reads an escape from its backslash on. -/
def readEscape : Scan Char := do
  match (← ahead) with
  | _ :: c :: rest =>
    match codeLength? c with
    | some n =>
      require ((rest.take n).length == n)
      match hexNumber? (rest.take n) with
      | some code =>
        require (!(0xD800 ≤ code && code ≤ 0xDFFF) && code ≤ 0x10FFFF)
        skipMany (n + 2)
        return Char.ofNat code
      | none => failure
    | none =>
      match escaped? c with
      | some d =>
        skipMany 2
        return d
      | none => failure
  | _ => failure

inductive QuotedStep where
  | char (c : Char)
  | joined
  | pause

/-- Reads one character of a quoted scalar. An escaped line break joins two
lines; a blank, a line break or the closing quote makes a pause. -/
def quotedStep (single : Bool) : Scan QuotedStep := do
  let cs ← ahead
  match cs with
  | [] => return .pause
  | c :: rest =>
    if blankOrEnd cs then return .pause
    else if single && c == '\'' && rest.head? == some '\'' then
      skipMany 2
      return .char '\''
    else if c == (if single then '\'' else '"') then return .pause
    else if !single && c == '\\' then
      if breakAhead rest then
        modify Reader.skip
        modify Reader.skipBreak
        return .joined
      else return .char (← readEscape)
    else
      modify Reader.skip
      return .char c

/-- Reads characters of a quoted scalar up to a pause; tells whether lines were
joined there. -/
def quotedPiece (single : Bool) : Nat → List Char → Scan (List Char × Bool)
  | 0, _ => failure
  | fuel + 1, text => do
    match ← quotedStep single with
    | .char c => quotedPiece single fuel (c :: text)
    | .joined => return (text, true)
    | .pause => return (text, false)

/-- Reads the rest of a quoted scalar; `text` holds it so far, reversed. -/
def quotedRest (single : Bool) : Nat → List Char → Scan (List Char)
  | 0, _ => failure
  | fuel + 1, text => do
    require (!(← get).atDocumentMark)
    require (!(← ahead).isEmpty)
    let (text, joined) ← quotedPiece single ((← ahead).length + 1) text
    if (← ahead).head? == some (if single then '\'' else '"') then
      modify Reader.skip
      return text.reverse
    else
      let gap ← readGap none { broken := joined } ((← ahead).length + 1)
      quotedRest single fuel (gap.text.reverse ++ text)

def quotedScalar (single : Bool) : Scan Token := do
  modify Reader.skip
  let text ← quotedRest single ((← ahead).length + 2) []
  return .scalar text false

def isFlowIndicator (c : Char) : Bool := ",[]\x7b\x7d".toList.contains c

/-- The length of the piece of a plain scalar at the start of a text; none if it
holds a colon that must not stand there. -/
def plainLength? (flow : Bool) : List Char → Option Nat
  | [] => some 0
  | c :: cs =>
    if isBlank c || isBreak c then some 0
    else if flow && c == ':' && (cs.head?.any fun d => d == '?' || isFlowIndicator d) then none
    else if c == ':' && blankOrEnd cs then some 0
    else if flow && isFlowIndicator c then some 0
    else (plainLength? flow cs).map (· + 1)

/-- Reads the rest of a plain scalar; `text` holds it so far, reversed, and
`gap` what stands between it and the next piece. Gives the text and whether a
line has ended behind it. -/
def plainRest (least : Nat) : Nat → List Char → Gap → Scan (List Char × Bool)
  | 0, _, _ => failure
  | fuel + 1, text, gap => do
    let r ← get
    if r.atDocumentMark || r.rest.head? == some '#' then return (text.reverse, gap.broken)
    else
      match plainLength? r.inFlow r.rest with
      | none => failure
      | some n =>
        let piece := r.rest.take n
        let (text, gap) :=
          if n == 0 then (text, gap) else (piece.reverse ++ gap.text.reverse ++ text, {})
        skipMany n
        if !(blankAhead (← ahead) || breakAhead (← ahead)) then
          return (text.reverse, gap.broken)
        else
          let gap ← readGap (some least) gap ((← ahead).length + 1)
          if !(← get).inFlow && (← get).column < least then return (text.reverse, gap.broken)
          else plainRest least fuel text gap

/-- The column that the content of the innermost block has to reach. -/
def Reader.contentColumn (r : Reader) : Nat :=
  match r.indent with
  | some i => i + 1
  | none => 0

/-- Reads a plain scalar. After a line break a key may start. -/
def plainScalar : Scan Token := do
  let r ← get
  let (text, broken) ← plainRest r.contentColumn (r.rest.length + 2) [] {}
  if broken then allowKey true
  return .scalar text true

inductive Chomp where
  | clip
  | strip
  | keep
  deriving DecidableEq, Repr

def readChomp? : Scan (Option Chomp) := do
  match (← ahead) with
  | '+' :: _ =>
    modify Reader.skip
    return some .keep
  | '-' :: _ =>
    modify Reader.skip
    return some .strip
  | _ => return none

def readIncrement? : Scan (Option Nat) := do
  match (← ahead) with
  | c :: _ =>
    if c.isDigit then
      require (c != '0')
      modify Reader.skip
      return some (c.toNat - 48)
    else return none
  | [] => return none

def blockHeader : Scan (Chomp × Option Nat) := do
  match ← readChomp? with
  | some chomp => return (chomp, ← readIncrement?)
  | none =>
    match ← readIncrement? with
    | some n => return ((← readChomp?).getD .clip, some n)
    | none => return (.clip, none)

/-- Moves to the end of a line that holds nothing more but a comment. -/
def restOfLine : Scan Unit := do
  let _ ← takeWhile isBlank
  if (← ahead).head? == some '#' then
    let _ ← takeWhile fun c => !isBreak c
  require (breakOrEnd (← ahead))
  if breakAhead (← ahead) then modify Reader.skipBreak

/-- Moves past indentation and empty lines. Gives the line breaks and the
furthest column that was reached. -/
def blockBreaks (indent : Option Nat) : Nat → List Char → Nat → Scan (List Char × Nat)
  | 0, _, _ => failure
  | fuel + 1, breaks, furthest => do
    let before ← get
    let room := match indent with
      | some n => n - before.column
      | none => before.rest.length
    let spaces := (before.rest.take room).takeWhile (· == ' ')
    skipMany spaces.length
    let r ← get
    let furthest := max furthest r.column
    let inIndent := match indent with
      | some n => r.column < n
      | none => true
    require (!(inIndent && r.rest.head? == some '\t'))
    if breakAhead r.rest then
      let text ← readBreak
      blockBreaks indent fuel (breaks ++ text) furthest
    else return (breaks, furthest)

/-- The lines of a block scalar; `text` holds it so far. Gives it with the line
break of the last line and those after it. -/
def blockLines (folded : Bool) (indent : Nat) :
    Nat → List Char → List Char → List Char → Bool → Scan (List Char × List Char × List Char)
  | 0, _, _, _, _ => failure
  | fuel + 1, text, lead, trailing, leadingBlank => do
    let r ← get
    if r.column == indent && !r.rest.isEmpty then
      let blank := blankAhead r.rest
      let glue :=
        if folded && lead.head? == some '\n' && !leadingBlank && !blank then
          if trailing.isEmpty then [' '] else []
        else lead
      let line ← takeWhile fun c => !isBreak c
      let lead ← readBreak
      let (breaks, _) ← blockBreaks (some indent) ((← ahead).length + 1) [] 0
      blockLines folded indent fuel (text ++ glue ++ trailing ++ line) lead breaks blank
    else return (text, lead, trailing)

def blockScalar (folded : Bool) : Scan Token := do
  modify Reader.skip
  let (chomp, increment) ← blockHeader
  restOfLine
  let r ← get
  let given := increment.map fun n => (r.indent.getD 0) + n
  let (breaks, furthest) ← blockBreaks given ((← ahead).length + 1) [] 0
  let indent := given.getD (max furthest (max r.contentColumn 1))
  let (text, lead, trailing) ←
    blockLines folded indent ((← ahead).length + 2) [] [] breaks false
  let tail := match chomp with
    | .clip => lead
    | .strip => []
    | .keep => lead ++ trailing
  return .scalar (text ++ tail) false

end WebAudit.Yaml
