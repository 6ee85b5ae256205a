import WebAudit.Settings.Setting

/-!
Settings written in one line, as environment variables give them: words,
numbers, quoted texts, lists in brackets and maps in braces. A line that is none
of these is a text as it stands.
-/

namespace WebAudit.Inline

def isGap (c : Char) : Bool :=
  c == ' ' || c == '\t' || c == '\n' || c == '\x0c' || c == '\r'

def skipGaps (cs : List Char) : List Char := cs.dropWhile isGap

def isSeparator (c : Char) : Bool :=
  c == ',' || c == '\x7b' || c == '\x7d' || c == '[' || c == ']'

def isKeyChar (c : Char) : Bool := c.isAlphanum || c == '_' || c == '-'

def naturalBelow? (bound : Nat) (cs : List Char) : Option Nat :=
  if cs.isEmpty || !cs.all Char.isDigit then none
  else
    let n := Number.digitsValue cs
    if n < bound then some n else none

/-- A natural number of 64 bits, perhaps with a plus sign. -/
def unsigned? : List Char → Option Nat
  | '+' :: rest => naturalBelow? (Nat.pow 2 64) rest
  | cs => naturalBelow? (Nat.pow 2 64) cs

def negative? : List Char → Option Int
  | '-' :: rest => (naturalBelow? (Nat.pow 2 63 + 1) rest).map fun n => -(n : Int)
  | _ => none

/-- The setting of a word: a number with a point, an integer, or a text. -/
def ofWord (word : List Char) : Setting :=
  let number := if word.contains '.' then Number.readNumeral? .double word else none
  match number with
  | some x => .float x
  | none =>
    match unsigned? word with
    | some n => .unsigned n
    | none =>
      match negative? word with
      | some n => .signed n
      | none => .text (String.ofList word)

/-- A text in double quotes whose first mark has been read, with the same
escapes as in a document, and what follows it. -/
def quoted? (cs : List Char) : Option (String × List Char) :=
  (Toml.quotedBody .basic (.plain 0 false) cs).map fun (s, rest) => (String.ofList s, rest)

def key? (cs : List Char) : Option (String × List Char) :=
  match cs with
  | '"' :: rest => quoted? rest
  | cs =>
    let name := cs.takeWhile isKeyChar
    if name.isEmpty then none else some (String.ofList name, cs.dropWhile isKeyChar)

mutual

/-- A setting with the blanks around it, and what follows. -/
def value? : Nat → List Char → Option (Setting × List Char)
  | 0, _ => none
  | fuel + 1, cs =>
    let read : Option (Setting × List Char) :=
      match skipGaps cs with
      | 't' :: 'r' :: 'u' :: 'e' :: rest => some (.flag true, rest)
      | 'f' :: 'a' :: 'l' :: 's' :: 'e' :: rest => some (.flag false, rest)
      | '\x7b' :: rest => (entries? fuel [] rest).map fun (entries, rest) => (.map entries, rest)
      | '[' :: rest => (items? fuel rest).map fun (items, rest) => (.list items, rest)
      | '"' :: rest => (quoted? rest).map fun (s, rest) => (.text s, rest)
      | '\'' :: c :: '\'' :: rest => some (.letter c, rest)
      | '\'' :: _ => none
      | cs =>
        some (ofWord (Text.trim (cs.takeWhile fun c => !isSeparator c)),
          cs.dropWhile fun c => !isSeparator c)
    read.map fun (v, rest) => (v, skipGaps rest)

def items? : Nat → List Char → Option (List Setting × List Char)
  | 0, _ => none
  | fuel + 1, cs =>
    match cs with
    | ']' :: rest => some ([], rest)
    | cs =>
      match value? fuel cs with
      | some (v, ',' :: rest) =>
        (items? fuel rest).map fun (items, rest) => (v :: items, rest)
      | some (v, ']' :: rest) => some ([v], rest)
      | _ => none

/-- The entries of a map up to its closing brace laid over those read before,
and what follows the brace. -/
def entries? : Nat → List (String × Setting) → List Char →
    Option (List (String × Setting) × List Char)
  | 0, _, _ => none
  | fuel + 1, found, cs =>
    match cs with
    | '\x7d' :: rest => some (found, rest)
    | cs =>
      match key? (skipGaps cs) with
      | none => none
      | some (name, rest) =>
        match skipGaps rest with
        | '=' :: rest =>
          match value? fuel rest with
          | some (v, ',' :: rest) => entries? fuel (Setting.put name v found) rest
          | some (v, '\x7d' :: rest) => some (Setting.put name v found, rest)
          | _ => none
        | _ => none

end

end WebAudit.Inline

namespace WebAudit

def Setting.ofLine (line : String) : Setting :=
  let cs := line.toList
  match Inline.value? (2 * cs.length + 2) cs with
  | some (v, []) => v
  | _ => .text line

end WebAudit
