import WebAudit.Toml.Value

/-!
Quoted texts. A text stands in double quotes, where a backslash starts an
escape, or in single quotes, where it does not; three quotes on either side let
it run over several lines. Reading takes any of the four forms. Writing takes
the first form that shows the text without escapes, if there is one.
-/

namespace WebAudit.Toml

inductive Quoting where
  | basic
  | literal
  | blockBasic
  | blockLiteral
  deriving DecidableEq, Repr, Inhabited

namespace Quoting

def mark : Quoting → Char
  | .basic | .blockBasic => '"'
  | .literal | .blockLiteral => '\''

def hasEscapes : Quoting → Bool
  | .basic | .blockBasic => true
  | .literal | .blockLiteral => false

/-- Whether the text may run over several lines. -/
def isBlock : Quoting → Bool
  | .blockBasic | .blockLiteral => true
  | .basic | .literal => false

def marks (q : Quoting) : List Char := List.replicate (if q.isBlock then 3 else 1) q.mark

end Quoting

def shortEscape? (c : Char) : Option Char :=
  match c with
  | 'b' => some '\x08'
  | 't' => some '\t'
  | 'n' => some '\n'
  | 'f' => some '\x0c'
  | 'r' => some '\r'
  | '"' => some '"'
  | '\\' => some '\\'
  | _ => none

def ofCode? (n : Nat) : Option Char := if n.isValidChar then some (Char.ofNat n) else none

/-- Where a reader stands in a quoted text: in the text, after some quotation
marks that may be the end and, perhaps, in the blanks after a line that a
backslash joins; after a backslash; after a backslash and blanks; or in a code
point, with the digits that are still to come and the value so far. -/
inductive ReadMode where
  | plain (pending : Nat) (joining : Bool)
  | escape
  | seekLine
  | code (left value : Nat)

def andThen (cs : List Char) (read : Option (List Char × List Char)) :
    Option (List Char × List Char) :=
  read.map fun (content, rest) => (cs ++ content, rest)

/-- The quoted text whose marks at the start have been read, and what follows
the marks at its end. Up to two marks within a block, or before the three at
its end, belong to the text. -/
def quotedBody (q : Quoting) : ReadMode → List Char → Option (List Char × List Char)
  | .plain pending _, [] =>
    if q.isBlock && 3 ≤ pending then some (List.replicate (pending - 3) q.mark, []) else none
  | .plain pending joining, c :: rest =>
    if c == q.mark then
      if !q.isBlock then some ([], rest)
      else if pending == 4 then some ([c, c], rest)
      else quotedBody q (.plain (pending + 1) false) rest
    else if 3 ≤ pending then some (List.replicate (pending - 3) q.mark, c :: rest)
    else if joining && (isSpace c || c == '\n') then quotedBody q (.plain 0 true) rest
    else
      andThen (List.replicate pending q.mark)
        (if q.hasEscapes && c == '\\' then quotedBody q .escape rest
        else if isPlain c || (q.isBlock && c == '\n') then
          andThen [c] (quotedBody q (.plain 0 false) rest)
        else none)
  | .escape, c :: rest =>
    match shortEscape? c with
    | some d => andThen [d] (quotedBody q (.plain 0 false) rest)
    | none =>
      if c == 'u' then quotedBody q (.code 4 0) rest
      else if c == 'U' then quotedBody q (.code 8 0) rest
      else if q.isBlock && isSpace c then quotedBody q .seekLine rest
      else if q.isBlock && c == '\n' then quotedBody q (.plain 0 true) rest
      else none
  | .seekLine, c :: rest =>
    if isSpace c then quotedBody q .seekLine rest
    else if c == '\n' then quotedBody q (.plain 0 true) rest
    else none
  | .code left value, c :: rest =>
    match hexDigit? c with
    | none => none
    | some d =>
      if left ≤ 1 then
        match ofCode? (16 * value + d) with
        | some e => andThen [e] (quotedBody q (.plain 0 false) rest)
        | none => none
      else quotedBody q (.code (left - 1) (16 * value + d)) rest
  | _, [] => none

/-- The quoting that a text starts with, and the text after its marks. A line
end right after the marks of a block is left out. -/
def openQuotes? : List Char → Option (Quoting × List Char)
  | '"' :: '"' :: '"' :: '\n' :: rest => some (.blockBasic, rest)
  | '"' :: '"' :: '"' :: rest => some (.blockBasic, rest)
  | '"' :: rest => some (.basic, rest)
  | '\'' :: '\'' :: '\'' :: '\n' :: rest => some (.blockLiteral, rest)
  | '\'' :: '\'' :: '\'' :: rest => some (.blockLiteral, rest)
  | '\'' :: rest => some (.literal, rest)
  | _ => none

def readQuoted? (cs : List Char) : Option (List Char × List Char) :=
  (openQuotes? cs).bind fun (q, rest) => quotedBody q (.plain 0 false) rest

/-- The length of the longest run of a character, when the last `run`
characters before the text were it. -/
def longestRunFrom (mark : Char) (run : Nat) : List Char → Nat
  | [] => run
  | c :: rest =>
    if c == mark then longestRunFrom mark (run + 1) rest
    else max run (longestRunFrom mark 0 rest)

def longestRun (mark : Char) (cs : List Char) : Nat := longestRunFrom mark 0 cs

/-- Control characters that can only be written with an escape. -/
def needsEscape (c : Char) : Bool := !isPlain c && c != '\n'

/-- The first form that shows a text as it is, or else the one for escapes. -/
def preferredQuoting (cs : List Char) : Quoting :=
  let coded := cs.any needsEscape
  let slashed := cs.contains '\\'
  let broken := cs.contains '\n'
  let double := longestRun '"' cs
  let single := longestRun '\'' cs
  if !coded && !slashed && double == 0 && !broken then .basic
  else if !coded && single == 0 && !broken then .literal
  else if !coded && !slashed && double ≤ 2 then .blockBasic
  else if !coded && single ≤ 2 then .blockLiteral
  else if broken then .blockBasic
  else .basic

def upperHexDigit (n : Nat) : Char :=
  if n < 10 then Char.ofNat ('0'.toNat + n) else Char.ofNat ('A'.toNat + (n - 10))

def codeEscape (c : Char) : List Char :=
  let n := c.toNat
  '\\' :: 'u' ::
    [n / 4096 % 16, n / 256 % 16, n / 16 % 16, n % 16].map upperHexDigit

def writeChar (block : Bool) (c : Char) : List Char :=
  match c with
  | '\x08' => ['\\', 'b']
  | '\t' => ['\\', 't']
  | '\n' => if block then ['\n'] else ['\\', 'n']
  | '\x0c' => ['\\', 'f']
  | '\r' => ['\\', 'r']
  | '\\' => ['\\', '\\']
  | c => if isPlain c then [c] else codeEscape c

/-- A text between double quotes. In a block, two quotation marks in a row stay
as they are and the third one is escaped; `run` is the number before the text. -/
def writeEscaped (block : Bool) (run : Nat) : List Char → List Char
  | [] => []
  | c :: rest =>
    if c == '"' then
      if block && run < 2 then c :: writeEscaped block (run + 1) rest
      else '\\' :: c :: writeEscaped block 0 rest
    else writeChar block c ++ writeEscaped block 0 rest

/-- The quoted form of a text. A block that holds a line end starts on a line of
its own. -/
def quote (cs : List Char) : List Char :=
  let q := preferredQuoting cs
  let lead := if q.isBlock && cs.contains '\n' then ['\n'] else []
  q.marks ++ lead ++ (if q.hasEscapes then writeEscaped q.isBlock 0 cs else cs) ++ q.marks

end WebAudit.Toml
