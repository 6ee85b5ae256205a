/-!
Text as a list of characters. The module holds the few operations that the
rest of the library reads files with: blanks and trimming, lines, pieces
between separators, and occurrences of one text in another.
-/

namespace WebAudit.Text

/-- The characters with the Unicode property `White_Space`. -/
def isBlank (c : Char) : Bool :=
  let n := c.toNat
  (9 ≤ n && n ≤ 13) || n == 0x20 || n == 0x85 || n == 0xA0 || n == 0x1680 ||
    (0x2000 ≤ n && n ≤ 0x200A) || n == 0x2028 || n == 0x2029 || n == 0x202F ||
    n == 0x205F || n == 0x3000

/-- The blanks of ASCII: tab to carriage return, and the space. -/
def isAsciiBlank (c : Char) : Bool :=
  let n := c.toNat
  (9 ≤ n && n ≤ 13) || n == 0x20

def trimStart (cs : List Char) : List Char := cs.dropWhile isBlank

def trimEnd (cs : List Char) : List Char := (cs.reverse.dropWhile isBlank).reverse

def trim (cs : List Char) : List Char := trimEnd (trimStart cs)

/-- ASCII letters in lower case, all else unchanged. -/
def lowerAscii (cs : List Char) : List Char := cs.map Char.toLower

def eqIgnoreCase (a b : List Char) : Bool := lowerAscii a == lowerAscii b

/-- Drops one carriage return from the end of a reversed line. -/
def stripReturn : List Char → List Char
  | '\r' :: rest => rest
  | cs => cs

/-- Lines of a text whose current line so far, reversed, is `acc`. -/
def linesFrom (acc : List Char) : List Char → List (List Char)
  | [] => if acc.isEmpty then [] else [acc.reverse]
  | '\n' :: rest => (stripReturn acc).reverse :: linesFrom [] rest
  | c :: rest => linesFrom (c :: acc) rest

/-- The lines of a text. A line ends with a line feed, and one carriage
return before it belongs to the ending. A last line without a line feed
counts unless it is empty. -/
def lines (cs : List Char) : List (List Char) := linesFrom [] cs

/-- Pieces of a text between separators, when the current piece so far,
reversed, is `acc`. -/
def splitFrom (isSep : Char → Bool) (acc : List Char) : List Char → List (List Char)
  | [] => [acc.reverse]
  | c :: rest =>
    if isSep c then acc.reverse :: splitFrom isSep [] rest
    else splitFrom isSep (c :: acc) rest

/-- The pieces between occurrences of a separator; always at least one. -/
def splitOn (sep : Char) (cs : List Char) : List (List Char) := splitFrom (· == sep) [] cs

/-- The text after `lead`, when the text starts with it. -/
def after? : List Char → List Char → Option (List Char)
  | [], cs => some cs
  | _ :: _, [] => none
  | p :: ps, c :: cs => if p == c then after? ps cs else none

def startsWith (lead cs : List Char) : Bool := (after? lead cs).isSome

def endsWith (tail cs : List Char) : Bool := startsWith tail.reverse cs.reverse

/-- The text before and after the first occurrence of `needle`. -/
def splitAt? (needle : List Char) : List Char → Option (List Char × List Char)
  | [] => if needle.isEmpty then some ([], []) else none
  | c :: cs =>
    match after? needle (c :: cs) with
    | some rest => some ([], rest)
    | none => (splitAt? needle cs).map fun (before, rest) => (c :: before, rest)

def occursIn (needle cs : List Char) : Bool := (splitAt? needle cs).isSome

/-- The piece of a text after the last occurrence of a separator. -/
def afterLast (sep : Char) (cs : List Char) : List Char :=
  (cs.reverse.takeWhile (· != sep)).reverse

def join (sep : String) (parts : List String) : String := sep.intercalate parts

def utf8Width (c : Char) : Nat :=
  let n := c.toNat
  if n < 0x80 then 1 else if n < 0x800 then 2 else if n < 0x10000 then 3 else 4

def byteLength (cs : List Char) : Nat := cs.foldl (fun n c => n + utf8Width c) 0

def utf8Bytes (c : Char) : List UInt8 :=
  let n := c.toNat
  if n < 0x80 then [n.toUInt8]
  else if n < 0x800 then [(0xC0 + n / 64).toUInt8, (0x80 + n % 64).toUInt8]
  else if n < 0x10000 then
    [(0xE0 + n / 4096).toUInt8, (0x80 + n / 64 % 64).toUInt8, (0x80 + n % 64).toUInt8]
  else
    [(0xF0 + n / 262144).toUInt8, (0x80 + n / 4096 % 64).toUInt8,
      (0x80 + n / 64 % 64).toUInt8, (0x80 + n % 64).toUInt8]

def bytes (cs : List Char) : List UInt8 := cs.flatMap utf8Bytes

end WebAudit.Text
