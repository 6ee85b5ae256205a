import WebAudit.Text.Basic

/-!
Globs over paths. A glob is read into tokens; what a glob matches is told on
the bytes of a path, by the rests that its tokens leave.
-/

namespace WebAudit

inductive GlobToken where
  | literal (c : Char)
  /-- One byte within a component. -/
  | any
  /-- Any bytes within a component. -/
  | run
  /-- Two stars at the start: any directories. -/
  | anyDirectories
  /-- Two stars at the end: all that is inside. -/
  | inside
  /-- Two stars in between: any directories between two components. -/
  | between
  /-- One byte of a set, which may be a slash. -/
  | oneOf (negated : Bool) (ranges : List (Char × Char))
  | alternatives (branches : List (List GlobToken))
  deriving Repr, Inhabited

structure Glob where
  tokens : List GlobToken
  deriving Repr, Inhabited

inductive GlobError where
  | unclosedClass
  | invalidRange (low high : Char)
  | unopenedAlternatives
  | unclosedAlternatives
  | danglingEscape
  deriving DecidableEq, Repr, Inhabited

def GlobError.message : GlobError → String
  | .unclosedClass => "unclosed character class; missing ']'"
  | .invalidRange low high =>
    String.ofList ("invalid range; '".toList ++ [low] ++ "' > '".toList ++ [high] ++ ['\''])
  | .unopenedAlternatives =>
    "unopened alternate group; missing '\x7b' (maybe escape '\x7d' with '[\x7d]'?)"
  | .unclosedAlternatives =>
    "unclosed alternate group; missing '\x7d' (maybe escape '\x7b' with '[\x7b]'?)"
  | .danglingEscape => "dangling '\\'"

namespace Glob

/-- An open group of alternatives: the branches that are complete, and the
tokens in front of the group, both reversed. -/
structure OpenGroup where
  done : List (List GlobToken)
  before : List GlobToken

structure Reader where
  rest : List Char
  previous : Option Char := none
  /-- The tokens of the current branch, reversed. -/
  current : List GlobToken := []
  groups : List OpenGroup := []
  /-- A class was found that does not close; further brackets are literal. -/
  brackets : Bool := false

def Reader.push (t : GlobToken) (r : Reader) : Reader := { r with current := t :: r.current }

def Reader.bump (r : Reader) : Reader :=
  match r.rest with
  | c :: rest => { r with rest := rest, previous := some c }
  | [] => r

structure ClassState where
  /-- The ranges so far, reversed. -/
  ranges : List (Char × Char) := []
  first : Bool := true
  inRange : Bool := false

/-- Extends the last range up to a character. -/
def ClassState.close (c : Char) (s : ClassState) : Except GlobError ClassState :=
  match s.ranges with
  | (low, _) :: more =>
    if c < low then .error (.invalidRange low c)
    else .ok { ranges := (low, c) :: more, first := false, inRange := false }
  | [] => .ok { s with first := false, inRange := false }

def ClassState.step (c : Char) (s : ClassState) : Except GlobError ClassState :=
  if s.inRange then s.close c
  else if c == '-' && !s.first then .ok { s with inRange := true }
  else .ok { s with ranges := (c, c) :: s.ranges, first := false }

/-- The ranges of a class and the text behind it; none if it does not close. -/
def classFrom : ClassState → List Char →
    Except GlobError (Option (List (Char × Char) × List Char))
  | _, [] => .ok none
  | s, c :: cs =>
    if c == ']' && !s.first then
      .ok (some ((if s.inRange then ('-', '-') :: s.ranges else s.ranges).reverse, cs))
    else
      match s.step c with
      | .ok next => classFrom next cs
      | .error e => .error e

def readClass (lenient : Bool) (r : Reader) : Except GlobError Reader :=
  let (negated, body) :=
    match r.rest with
    | '!' :: rest => (true, rest)
    | '^' :: rest => (true, rest)
    | rest => (false, rest)
  match classFrom {} body with
  | .error e => .error e
  | .ok (some (ranges, rest)) =>
    .ok ({ r with rest := rest, previous := some ']' }.push (.oneOf negated ranges))
  | .ok none =>
    if lenient then .ok ({ r with brackets := true }.push (.literal '[')) else .error .unclosedClass

/-- Reads two stars, the second of which has just been read. `previous` is the
character in front of them; a slash or, in a group, a comma or a brace, which
may be escaped, lets them stand for directories. -/
def readDoubleStar (previous : Option Char) (r : Reader) : Reader :=
  let plain := (r.push .run).push .run
  let next := r.rest.head?
  let opens := previous == some '/' ||
    (!r.groups.isEmpty && (previous == some ',' || previous == some '\x7b'))
  if r.current.isEmpty then
    if next.all (· == '/') then r.bump.push .anyDirectories else plain
  else if !opens then plain
  else
    let join (t : GlobToken) (r : Reader) : Reader :=
      match r.current with
      | .anyDirectories :: _ => r
      | .inside :: _ => r
      | _ :: more => { r with current := t :: more }
      | [] => r
    match next with
    | none => join .inside r
    | some c =>
      if c == '/' then join .between r.bump
      else if (c == ',' || c == '\x7d') && !r.groups.isEmpty then join .inside r
      else plain

def step (lenient : Bool) (c : Char) (before : Option Char) (r : Reader) :
    Except GlobError Reader :=
  match c with
  | '?' => .ok (r.push .any)
  | '*' =>
    if r.rest.head? == some '*' then .ok (readDoubleStar before r.bump) else .ok (r.push .run)
  | '[' => if r.brackets then .ok (r.push (.literal '[')) else readClass lenient r
  | '\x7b' => .ok { r with current := [], groups := ⟨[], r.current⟩ :: r.groups }
  | '\x7d' =>
    match r.groups with
    | g :: groups =>
      .ok { r with
        current := .alternatives (r.current.reverse :: g.done).reverse :: g.before
        groups := groups }
    | [] => .error .unopenedAlternatives
  | ',' =>
    match r.groups with
    | g :: groups =>
      .ok { r with current := [], groups := ⟨r.current.reverse :: g.done, g.before⟩ :: groups }
    | [] => .ok (r.push (.literal ','))
  | '\\' =>
    match r.rest with
    | d :: _ => .ok (r.bump.push (.literal d))
    | [] => .error .danglingEscape
  | _ => .ok (r.push (.literal c))

def readFrom (lenient : Bool) : Nat → Reader → Except GlobError Reader
  | 0, r => .ok r
  | fuel + 1, r =>
    match r.rest with
    | [] => .ok r
    | c :: _ =>
      match step lenient c r.previous r.bump with
      | .ok next => readFrom lenient fuel next
      | .error e => .error e

/-- Reads a glob. A lenient reader takes the bracket of a class that does not
close for itself. -/
def parse (lenient : Bool) (cs : List Char) : Except GlobError Glob :=
  match readFrom lenient (cs.length + 1) { rest := cs } with
  | .ok r => if r.groups.isEmpty then .ok ⟨r.current.reverse⟩ else .error .unclosedAlternatives
  | .error e => .error e

def slash : UInt8 := 47

/-- The rests behind each slash of a text. -/
def afterSlashes : List UInt8 → List (List UInt8)
  | [] => []
  | b :: bs => if b == slash then bs :: afterSlashes bs else afterSlashes bs

/-- A text and its rests after one, two and more bytes that are no slash. -/
def withinComponent : List UInt8 → List (List UInt8)
  | [] => [[]]
  | b :: bs => (b :: bs) :: if b == slash then [] else withinComponent bs

def suffixes : List UInt8 → List (List UInt8)
  | [] => [[]]
  | b :: bs => (b :: bs) :: suffixes bs

/-- One rest of each length. -/
def distinctRests (rests : List (List UInt8)) : List (List UInt8) :=
  ((rests.map fun r => (r.length, r)).foldr
    (fun r seen => if seen.any fun s => s.1 == r.1 then seen else r :: seen) []).map Prod.snd

/-- Whether a byte lies in one of some ranges of characters. The bytes of the
ends of a range stand side by side, with the range between the two neighbours
of the dash. -/
def inByteRanges (ranges : List (Char × Char)) (b : UInt8) : Bool :=
  ranges.any fun (low, high) =>
    let lows := Text.utf8Bytes low
    let highs := Text.utf8Bytes high
    if low == high then lows.contains b
    else
      lows.dropLast.contains b || highs.tail.contains b ||
        match lows.getLast?, highs.head? with
        | some l, some h => l ≤ b && b ≤ h
        | _, _ => false

def bytesAfter? : List UInt8 → List UInt8 → Option (List UInt8)
  | [], bs => some bs
  | _ :: _, [] => none
  | p :: ps, b :: bs => if p == b then bytesAfter? ps bs else none

mutual

/-- Whether a token can be left out because it is a group of empty branches. -/
def isVacuous : GlobToken → Bool
  | .alternatives branches => allVacuous branches
  | _ => false

def areVacuous : List GlobToken → Bool
  | [] => true
  | t :: ts => isVacuous t && areVacuous ts

def allVacuous : List (List GlobToken) → Bool
  | [] => true
  | b :: bs => areVacuous b && allVacuous bs

end

mutual

/-- The rests that a token leaves of a text. Empty branches of a group do not
count, unless there are no others. -/
def restsOf : GlobToken → List UInt8 → List (List UInt8)
  | .literal c, bs => (bytesAfter? (Text.utf8Bytes c) bs).toList
  | .any, bs =>
    match bs with
    | b :: rest => if b == slash then [] else [rest]
    | [] => []
  | .run, bs => withinComponent bs
  | .anyDirectories, bs => bs :: afterSlashes bs
  | .inside, bs =>
    match bs with
    | b :: rest => if b == slash then suffixes rest else []
    | [] => []
  | .between, bs =>
    match bs with
    | b :: rest => if b == slash then rest :: afterSlashes rest else []
    | [] => []
  | .oneOf negated ranges, bs =>
    match bs with
    | b :: rest => if inByteRanges ranges b != negated then [rest] else []
    | [] => []
  | .alternatives branches, bs =>
    if allVacuous branches then [bs] else restsOfAny branches bs

def restsOfAll : List GlobToken → List (List UInt8) → List (List UInt8)
  | [], texts => texts
  | t :: ts, texts => restsOfAll ts (distinctRests (texts.flatMap (restsOf t)))

def restsOfAny : List (List GlobToken) → List UInt8 → List (List UInt8)
  | [], _ => []
  | b :: more, bs => (if areVacuous b then [] else restsOfAll b [bs]) ++ restsOfAny more bs

end

/-- Whether a glob matches a whole text. Two stars alone match everything. -/
def accepts (g : Glob) (bs : List UInt8) : Bool :=
  match g.tokens with
  | [.anyDirectories] => true
  | tokens => (restsOfAll tokens [bs]).contains []

end Glob

end WebAudit
