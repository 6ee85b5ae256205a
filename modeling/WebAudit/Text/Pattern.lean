import WebAudit.Text.Basic
import WebAudit.Text.WordClass

/-!
Patterns in texts. A pattern has ends: the places that it can reach from a
place on, the preferred one first. Only single characters repeat, so ends are
found by recursion on the pattern and on the text.
-/

namespace WebAudit.Text

inductive Pattern where
  /-- Matches without reading anything. -/
  | empty
  /-- One character that passes a test. -/
  | one (test : Char → Bool)
  /-- At least `least` and at most `most` characters that pass a test, as many
  as possible if `greedy` is set and as few as possible otherwise. -/
  | run (least : Nat) (most : Option Nat) (greedy : Bool) (test : Char → Bool)
  /-- One pattern and then another. -/
  | seq (p q : Pattern)
  /-- One pattern or else another. -/
  | alt (p q : Pattern)
  /-- A pattern whose text is kept under a number. -/
  | group (index : Nat) (p : Pattern)
  /-- A place between a word character and something else. -/
  | boundary
  /-- The start of the text. -/
  | atStart
  /-- The end of the text. -/
  | atEnd

structure Spot where
  previous : Option Char
  rest : List Char
  index : Nat
  groups : List (Nat × List Char) := []

def isWordAt (c : Option Char) : Bool := c.any isWord

namespace Pattern

/-- The places after zero, one, two and more characters that pass a test, at
most `most` of them. -/
def runFrom (test : Char → Bool) (groups : List (Nat × List Char)) :
    Option Nat → Option Char → Nat → List Char → List Spot
  | _, previous, i, [] => [⟨previous, [], i, groups⟩]
  | most, previous, i, c :: cs =>
    ⟨previous, c :: cs, i, groups⟩ ::
      if most != some 0 && test c then runFrom test groups (most.map (· - 1)) (some c) (i + 1) cs
      else []

/-- The places that a pattern reaches from a place, in the order of
preference. -/
def ends : Pattern → Spot → List Spot
  | .empty, s => [s]
  | .one test, s =>
    match s.rest with
    | c :: cs => if test c then [⟨some c, cs, s.index + 1, s.groups⟩] else []
    | [] => []
  | .run least most greedy test, s =>
    let spots := (runFrom test s.groups most s.previous s.index s.rest).drop least
    if greedy then spots.reverse else spots
  | .seq p q, s => (p.ends s).flatMap q.ends
  | .alt p q, s => p.ends s ++ q.ends s
  | .group index p, s =>
    (p.ends s).map fun e =>
      { e with groups := (index, s.rest.take (e.index - s.index)) :: e.groups }
  | .boundary, s => if isWordAt s.previous != isWordAt s.rest.head? then [s] else []
  | .atStart, s => if s.index == 0 then [s] else []
  | .atEnd, s => if s.rest.isEmpty then [s] else []

/-- Two patterns, one after the other. -/
instance : Append Pattern := ⟨.seq⟩

/-- One of several patterns, earlier ones preferred. -/
def choice : List Pattern → Pattern
  | [] => .one fun _ => false
  | [p] => p
  | p :: ps => .alt p (choice ps)

def optional (p : Pattern) : Pattern := .alt p .empty

def textFrom (same : Char → Char → Bool) : List Char → Pattern
  | [] => .empty
  | [c] => .one (same c)
  | c :: cs => .seq (.one (same c)) (textFrom same cs)

def text (s : String) : Pattern := textFrom (fun a b => a == b) s.toList

/-- Whether two characters are equal but for case, the first being an ASCII
character. The long s and the sign for kelvin are letters in another case. -/
def sameLetter (a b : Char) : Bool :=
  a.toLower == b.toLower || (a.toLower == 's' && b.toNat == 0x17F) ||
    (a.toLower == 'k' && b.toNat == 0x212A)

def anyCase (s : String) : Pattern := textFrom sameLetter s.toList

/-- Whether a test holds of a character in some case. -/
def inAnyCase (test : Char → Bool) (c : Char) : Bool :=
  test c || test c.toLower || test c.toUpper ||
    (c.toNat == 0x17F && (test 's' || test 'S')) || (c.toNat == 0x212A && (test 'k' || test 'K'))

def texts (ss : List String) : Pattern := choice (ss.map text)

def anyCaseTexts (ss : List String) : Pattern := choice (ss.map anyCase)

def oneOf (s : String) : Pattern := .one s.toList.contains

/-- Any number of characters that pass a test, as many as possible. -/
def many (test : Char → Bool) : Pattern := .run 0 none true test

def some1 (test : Char → Bool) : Pattern := .run 1 none true test

def blanks : Pattern := many isBlank

def blanks1 : Pattern := some1 isBlank

end Pattern

structure Match where
  start : Nat
  stop : Nat
  text : List Char
  groups : List (Nat × List Char)
  deriving DecidableEq, Repr, Inhabited

def Match.group? (m : Match) (index : Nat) : Option (List Char) := m.groups.lookup index

namespace Pattern

/-- The preferred occurrence that starts at a place. -/
def matchAt? (p : Pattern) (s : Spot) : Option Match :=
  (p.ends s).head?.map fun e => ⟨s.index, e.index, s.rest.take (e.index - s.index), e.groups⟩

/-- The occurrences from a place on that start at `resume` or later and do not
overlap, from left to right. -/
def matchesFrom (p : Pattern) : Nat → Option Char → Nat → List Char → List Match
  | resume, previous, i, [] =>
    if i < resume then [] else (p.matchAt? ⟨previous, [], i, []⟩).toList
  | resume, previous, i, c :: cs =>
    if i < resume then matchesFrom p resume (some c) (i + 1) cs
    else
      match p.matchAt? ⟨previous, c :: cs, i, []⟩ with
      | some m => m :: matchesFrom p (max m.stop (i + 1)) (some c) (i + 1) cs
      | none => matchesFrom p resume (some c) (i + 1) cs

/-- The occurrences of a pattern in a text, which do not overlap, from left to
right. -/
def matchesIn (p : Pattern) (cs : List Char) : List Match := matchesFrom p 0 none 0 cs

def findFrom? (p : Pattern) : Option Char → Nat → List Char → Option Match
  | previous, i, [] => p.matchAt? ⟨previous, [], i, []⟩
  | previous, i, c :: cs =>
    match p.matchAt? ⟨previous, c :: cs, i, []⟩ with
    | some m => some m
    | none => findFrom? p (some c) (i + 1) cs

def find? (p : Pattern) (cs : List Char) : Option Match := findFrom? p none 0 cs

def occurs (p : Pattern) (cs : List Char) : Bool := (p.find? cs).isSome

end Pattern

end WebAudit.Text
