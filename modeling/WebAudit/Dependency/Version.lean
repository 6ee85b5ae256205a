import WebAudit.Text.Basic

/-!
Semantic versions, requirements on them, and the version that a declared
range is looked up at.
-/

namespace WebAudit

/-- A version: three numbers, with the texts of an optional pre-release and of
optional build metadata. An empty text stands for none. -/
structure Version where
  major : Nat
  minor : Nat
  patch : Nat
  pre : List Char
  build : List Char
  deriving DecidableEq, Repr, Inhabited

inductive Relation where
  | exact
  | greater
  | greaterEq
  | less
  | lessEq
  | tilde
  | caret
  | wildcard
  deriving DecidableEq, Repr, Inhabited

structure Comparator where
  relation : Relation
  major : Nat
  minor : Option Nat
  patch : Option Nat
  pre : List Char
  deriving DecidableEq, Repr, Inhabited

namespace Version

/-- Numbers of a version stay below this bound. -/
def numberBound : Nat := Nat.pow 2 64

/-- A number without leading zeros at the start of a text, and the rest. -/
def takeNumber? (cs : List Char) : Option (Nat × List Char) :=
  let digits := cs.takeWhile Char.isDigit
  let rest := cs.dropWhile Char.isDigit
  match digits with
  | [] => none
  | '0' :: _ :: _ => none
  | _ =>
    let n := digits.foldl (fun n c => n * 10 + (c.toNat - 48)) 0
    if n < numberBound then some (n, rest) else none

def isIdentifierChar (c : Char) : Bool := c.isAlphanum || c == '-'

/-- Whether a segment is a number with a needless zero in front. -/
def hasLeadingZero (segment : List Char) : Bool :=
  segment.length > 1 && segment.head? == some '0' && segment.all Char.isDigit

/-- A non-empty identifier with non-empty segments between dots, at the start of
a text, and the rest. Numbers in a pre-release have no leading zeros. -/
def takeIdentifier? (isPre : Bool) (cs : List Char) : Option (List Char × List Char) :=
  let isPart (c : Char) : Bool := isIdentifierChar c || c == '.'
  let text := cs.takeWhile isPart
  let rest := cs.dropWhile isPart
  let fine (segment : List Char) : Bool :=
    !segment.isEmpty && !(isPre && hasLeadingZero segment)
  if (Text.splitOn '.' text).all fine then some (text, rest) else none

/-- A part that is introduced by a mark, such as a pre-release; an absent part
is empty. -/
def takeMarked? (mark : Char) (isPre : Bool) (cs : List Char) : Option (List Char × List Char) :=
  match cs with
  | c :: rest => if c == mark then takeIdentifier? isPre rest else some ([], cs)
  | [] => some ([], [])

def afterDot? : List Char → Option (List Char)
  | '.' :: rest => some rest
  | _ => none

def parse? (cs : List Char) : Option Version := do
  let (major, cs) ← takeNumber? cs
  let cs ← afterDot? cs
  let (minor, cs) ← takeNumber? cs
  let cs ← afterDot? cs
  let (patch, cs) ← takeNumber? cs
  let (pre, cs) ← takeMarked? '-' true cs
  let (build, cs) ← takeMarked? '+' false cs
  if cs.isEmpty then some ⟨major, minor, patch, pre, build⟩ else none

def text (v : Version) : String :=
  let part (mark : String) (cs : List Char) : String :=
    if cs.isEmpty then "" else mark ++ String.ofList cs
  s!"{v.major}.{v.minor}.{v.patch}" ++ part "-" v.pre ++ part "+" v.build

end Version

namespace Comparator

/-- The relation at the start of a text, if one is written, and the rest. -/
def takeRelation : List Char → Option Relation × List Char
  | '=' :: rest => (some .exact, rest)
  | '>' :: '=' :: rest => (some .greaterEq, rest)
  | '>' :: rest => (some .greater, rest)
  | '<' :: '=' :: rest => (some .lessEq, rest)
  | '<' :: rest => (some .less, rest)
  | '~' :: rest => (some .tilde, rest)
  | '^' :: rest => (some .caret, rest)
  | cs => (none, cs)

def skipSpaces (cs : List Char) : List Char := cs.dropWhile (· == ' ')

def afterWildcard? : List Char → Option (List Char)
  | c :: rest => if c == '*' || c == 'x' || c == 'X' then some rest else none
  | [] => none

inductive Part where
  | absent
  | wildcard
  | number (n : Nat)
  deriving DecidableEq, Repr, Inhabited

/-- A dot with a number or a wildcard after it, or nothing. -/
def takePart? (cs : List Char) : Option (Part × List Char) :=
  match Version.afterDot? cs with
  | none => some (.absent, cs)
  | some rest =>
    match afterWildcard? rest with
    | some rest => some (.wildcard, rest)
    | none => (Version.takeNumber? rest).map fun (n, rest) => (.number n, rest)

def Part.number? : Part → Option Nat
  | .number n => some n
  | _ => none

/-- A comparator at the start of a text, and the rest after spaces. No number
follows a wildcard, and only a complete version has a pre-release. -/
def take? (cs : List Char) : Option (Comparator × List Char) := do
  let (written, cs) := takeRelation cs
  let (major, cs) ← Version.takeNumber? (skipSpaces cs)
  let (minor, cs) ← takePart? cs
  let (patch, cs) ← takePart? cs
  if minor == .wildcard && patch.number?.isSome then none
  else
    let hasWildcard := minor == .wildcard || patch == .wildcard
    let relation := written.getD (if hasWildcard then .wildcard else .caret)
    let (pre, cs) ← if patch.number?.isSome then Version.takeMarked? '-' true cs else some ([], cs)
    let (_, cs) ← if patch.number?.isSome then Version.takeMarked? '+' false cs else some ([], cs)
    some (⟨relation, major, minor.number?, patch.number?, pre⟩, skipSpaces cs)

def countLimit : Nat := 32

/-- Comparators with commas between them, at most `limit` of them. -/
def parseList? : Nat → List Char → Option (List Comparator)
  | 0, _ => none
  | limit + 1, cs =>
    match take? cs with
    | none => none
    | some (c, []) => some [c]
    | some (c, ',' :: rest) => (parseList? limit (skipSpaces rest)).map (c :: ·)
    | some _ => none

/-- The comparators of a requirement. A lone wildcard has none. -/
def parseRequirement? (cs : List Char) : Option (List Comparator) :=
  let cs := skipSpaces cs
  match afterWildcard? cs with
  | some rest => if (skipSpaces rest).isEmpty then some [] else none
  | none => parseList? countLimit cs

/-- The version that a comparator names, with open parts read as zero. -/
def version (c : Comparator) : Version := ⟨c.major, c.minor.getD 0, c.patch.getD 0, c.pre, []⟩

end Comparator

/-- The starts of version texts that point outside the registry. -/
def nonRegistryStarts : List String :=
  ["workspace:", "file:", "link:", "portal:", "npm:", "git+", "git:", "github:", "http://",
    "https://"]

/-- Whether a trimmed version text names no version of the registry: nothing, a
lone star, the tag `latest`, or a place outside the registry. -/
def isNonRegistry (spec : List Char) : Bool :=
  spec.isEmpty || spec == ['*'] || Text.eqIgnoreCase spec "latest".toList ||
    nonRegistryStarts.any (fun s => Text.startsWith s.toList spec) || spec.contains '/'

/-- The text before the first occurrence of a separator, trimmed. -/
def firstPiece (sep cs : List Char) : List Char :=
  match Text.splitAt? sep cs with
  | some (before, _) => Text.trim before
  | none => Text.trim cs

/-- The part of a declaration that is read: the lower end of a hyphen range in
the first alternative. -/
def firstAlternative (spec : List Char) : List Char :=
  firstPiece " - ".toList (firstPiece "||".toList spec)

/-- The version that a declared range is looked up at: the version itself when
the text is one, else the version of the first comparator. -/
def normalizeVersion (spec : String) : Option String :=
  let spec := Text.trim spec.toList
  if isNonRegistry spec then none
  else
    let first := firstAlternative spec
    match Version.parse? (first.dropWhile (· == 'v')) with
    | some v => some v.text
    | none =>
      match Comparator.parseRequirement? first with
      | some (c :: _) => some c.version.text
      | _ => none

end WebAudit
