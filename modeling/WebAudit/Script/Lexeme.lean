import WebAudit.Script.Language
import WebAudit.Text.Basic

/-!
Places in a script and what the text holds there: blanks and comments, words,
numbers, strings and regular expressions.
-/

namespace WebAudit.Script

structure Place where
  rest : List Char
  index : Nat
  deriving Repr, Inhabited

namespace Place

def start (cs : List Char) : Place := ⟨cs, 0⟩

def advance (n : Nat) (s : Place) : Place := ⟨s.rest.drop n, s.index + n⟩

end Place

def isSpace (c : Char) : Bool :=
  Text.isBlank c || c.toNat == 0xFEFF || c.toNat == 0x2060 || c.toNat == 0x200B

def isLineEnd (c : Char) : Bool :=
  c == '\n' || c == '\r' || c.toNat == 0x2028 || c.toNat == 0x2029

/-- Whether a block comment that has been opened is closed. -/
def closesComment : List Char → Bool
  | [] => false
  | '*' :: '/' :: _ => true
  | _ :: cs => closesComment cs

/-- Whether a comment in markup starts here. Such a comment counts only where an
operand is expected. -/
def startsMarkup (cs : List Char) : Bool :=
  Text.startsWith "<!--".toList cs || Text.startsWith "-->".toList cs

/-- Characters that end a comment in markup. A return is none of them, so the
comment goes on behind it. -/
def endsMarkup (c : Char) : Bool :=
  c == '\n' || c.toNat == 0x2028 || c.toNat == 0x2029 || c.toNat == 0

inductive Gap where
  | blank
  | line
  | markup
  | opened
  | block (star : Bool)

/-- What a comment that starts here is; `markup` tells whether it may be one in
markup. -/
def commentStart? (markup : Bool) (cs : List Char) : Option Gap :=
  match cs with
  | '/' :: '/' :: _ => some .line
  | '/' :: '*' :: rest => if closesComment rest then some .opened else none
  | _ => if markup && startsMarkup cs then some .markup else none

def skipGap (markup : Bool) : Gap → List Char → Nat → Place
  | _, [], i => ⟨[], i⟩
  | .blank, c :: cs, i =>
    if isSpace c then skipGap markup .blank cs (i + 1)
    else
      match commentStart? markup (c :: cs) with
      | some gap => skipGap markup gap cs (i + 1)
      | none => ⟨c :: cs, i⟩
  | .line, c :: cs, i => skipGap markup (if isLineEnd c then .blank else .line) cs (i + 1)
  | .markup, c :: cs, i =>
    if c.toNat == 0 then ⟨c :: cs, i⟩
    else skipGap markup (if endsMarkup c then .blank else .markup) cs (i + 1)
  | .opened, _ :: cs, i => skipGap markup (.block false) cs (i + 1)
  | .block star, c :: cs, i =>
    skipGap markup (if star && c == '/' then .blank else .block (c == '*')) cs (i + 1)

def Place.skip (s : Place) : Place := skipGap false .blank s.rest s.index

/-- The place of the next token where an operand is expected. -/
def Place.skipToOperand (s : Place) : Place := skipGap true .blank s.rest s.index

/-- The places right after the comments before the next token. -/
def commentEnds : Gap → List Char → Nat → List Place
  | .line, [], i => [⟨[], i⟩]
  | _, [], _ => []
  | .blank, c :: cs, i =>
    if isSpace c then commentEnds .blank cs (i + 1)
    else
      match commentStart? false (c :: cs) with
      | some gap => commentEnds gap cs (i + 1)
      | none => []
  | .line, c :: cs, i =>
    if isLineEnd c then ⟨c :: cs, i⟩ :: commentEnds .blank cs (i + 1)
    else commentEnds .line cs (i + 1)
  -- not entered: a comment in markup does not start where a statement may end
  | .markup, _ :: cs, i => commentEnds .markup cs (i + 1)
  | .opened, _ :: cs, i => commentEnds (.block false) cs (i + 1)
  | .block star, c :: cs, i =>
    if star && c == '/' then ⟨cs, i + 1⟩ :: commentEnds .blank cs (i + 1)
    else commentEnds (.block (c == '*')) cs (i + 1)

/-- The characters that end a word, besides blanks and controls. -/
def punctuation : List Char := ":;`\"'@#.,|^&<=>+-*/\\%?!~()[]\x7b\x7d".toList

def isWordPart (c : Char) : Bool :=
  32 < c.toNat && !isSpace c && !punctuation.contains c

def isHexDigit (c : Char) : Bool :=
  c.isDigit || ('a' ≤ c && c ≤ 'f') || ('A' ≤ c && c ≤ 'F')

inductive Escape where
  | plain
  | mark
  | unicode
  | digits (left : Nat)
  | braced (seen : Bool)

/-- The length of the word at the start of a text; none when an escape in it is
malformed. -/
def wordLength? : Escape → List Char → Option Nat
  | .plain, [] => some 0
  | _, [] => none
  | .plain, c :: cs =>
    if isWordPart c then (wordLength? .plain cs).map (· + 1)
    else if c == '\\' then (wordLength? .mark cs).map (· + 1)
    else some 0
  | .mark, c :: cs => if c == 'u' then (wordLength? .unicode cs).map (· + 1) else none
  | .unicode, c :: cs =>
    if c == '\x7b' then (wordLength? (.braced false) cs).map (· + 1)
    else if isHexDigit c then (wordLength? (.digits 3) cs).map (· + 1)
    else none
  | .digits left, c :: cs =>
    if !isHexDigit c then none
    else (wordLength? (if left ≤ 1 then .plain else .digits (left - 1)) cs).map (· + 1)
  | .braced seen, c :: cs =>
    if isHexDigit c then (wordLength? (.braced true) cs).map (· + 1)
    else if c == '\x7d' && seen then (wordLength? .plain cs).map (· + 1)
    else none

/-- The word at a place, which does not start with a digit, and the place after
it. -/
def Place.word? (s : Place) : Option (List Char × Place) :=
  match s.rest with
  | [] => none
  | c :: _ =>
    if c.isDigit then none
    else
      match wordLength? .plain s.rest with
      | some (n + 1) => some (s.rest.take (n + 1), s.advance (n + 1))
      | _ => none

/-- The number of characters of digits with single underscores between them. -/
def digitRun (isDigit : Char → Bool) : List Char → Nat
  | [] => 0
  | '_' :: d :: cs => if isDigit d then 2 + digitRun isDigit cs else 0
  | c :: cs => if isDigit c then 1 + digitRun isDigit cs else 0

def digitsLength (isDigit : Char → Bool) : List Char → Nat
  | [] => 0
  | c :: cs => if isDigit c then 1 + digitRun isDigit cs else 0

def exponentLength (cs : List Char) : Nat :=
  match cs with
  | e :: rest =>
    if e == 'e' || e == 'E' then
      let (sign, body) :=
        match rest with
        | '+' :: more => (1, more)
        | '-' :: more => (1, more)
        | _ => (0, rest)
      let n := digitsLength Char.isDigit body
      if n == 0 then 0 else 1 + sign + n
    else 0
  | [] => 0

/-- The length of the whole part of a decimal, which has at most one leading
zero. -/
def wholeLength (cs : List Char) : Nat :=
  match cs with
  | '0' :: c :: rest => if '1' ≤ c && c ≤ '9' then 2 + digitRun Char.isDigit rest else 1
  | c :: rest => if c.isDigit then 1 + (if c == '0' then 0 else digitRun Char.isDigit rest) else 0
  | [] => 0

/-- The length of a decimal with a point or an exponent, zero for none. -/
def decimalLength (cs : List Char) : Nat :=
  let whole := wholeLength cs
  match cs.drop whole with
  | '.' :: rest =>
    let part := digitsLength Char.isDigit rest
    if whole == 0 && part == 0 then 0
    else whole + 1 + part + exponentLength (rest.drop part)
  | rest =>
    let e := exponentLength rest
    if whole == 0 || e == 0 then 0 else whole + e

def basedLength (cs : List Char) : Nat :=
  let run (isDigit : Char → Bool) (rest : List Char) : Nat :=
    let n := digitsLength isDigit rest
    if n == 0 then 0 else n + 2
  match cs with
  | '0' :: x :: rest =>
    if x == 'x' || x == 'X' then run isHexDigit rest
    else if x == 'b' || x == 'B' then run (fun c => c == '0' || c == '1') rest
    else if x == 'o' || x == 'O' then run (fun c => '0' ≤ c && c ≤ '7') rest
    else 0
  | _ => 0

/-- The length with the mark of a big integer, if there is one. -/
def withBigMark (cs : List Char) (n : Nat) : Nat :=
  if n != 0 && (cs.drop n).head? == some 'n' then n + 1 else n

def numberLength (cs : List Char) : Nat :=
  max (withBigMark cs (basedLength cs))
    (max (withBigMark cs (digitsLength Char.isDigit cs)) (decimalLength cs))

inductive StringState where
  | plain
  | escaped
  | returned
  | hex (left : Nat)
  | unicode
  | braced (seen : Bool)

/-- How a string goes on after a character; none when the character may not
stand there. A line break has to be escaped. -/
def StringState.step? (c : Char) : StringState → Option StringState
  | .plain =>
    if c == '\\' then some .escaped
    else if c == '\n' || c == '\r' then none
    else some .plain
  | .escaped =>
    if c == 'x' then some (.hex 2)
    else if c == 'u' then some .unicode
    else if c == '\r' then some .returned
    else some .plain
  | .returned =>
    if c == '\n' || c.toNat == 0x2028 || c.toNat == 0x2029 then some .plain
    else if c == '\\' then some .escaped
    else if c == '\r' then none
    else some .plain
  | .hex left =>
    if isHexDigit c then some (if left ≤ 1 then .plain else .hex (left - 1)) else none
  | .unicode =>
    if c == '\x7b' then some (.braced false)
    else if isHexDigit c then some (.hex 3)
    else none
  | .braced seen =>
    if isHexDigit c then some (.braced true)
    else if c == '\x7d' && seen then some .plain
    else none

/-- Whether a quote ends a string in this state. -/
def StringState.atEnd : StringState → Bool
  | .plain => true
  | .returned => true
  | _ => false

def stringLength? (quote : Char) : StringState → List Char → Option Nat
  | _, [] => none
  | state, c :: cs =>
    if c == quote && state.atEnd then some 1
    else
      match state.step? c with
      | some next => (stringLength? quote next cs).map (· + 1)
      | none => none

/-- The length of an escape of a template, after its backslash. -/
def escapeLength? : StringState → List Char → Option Nat
  | .plain, _ => some 0
  | .returned, c :: _ => if isLineEnd c && c != '\r' then some 1 else some 0
  | _, [] => none
  | state, c :: cs =>
    match state.step? c with
    | some next => (escapeLength? next cs).map (· + 1)
    | none => none

inductive RegexState where
  | plain
  | escaped
  | classed
  | classEscaped

/-- The length of the rest of a regular expression up to its closing slash. -/
def regexLength? : RegexState → List Char → Option Nat
  | _, [] => none
  | .plain, c :: cs =>
    if c == '/' then some 1
    else if c == '\n' then none
    else if c == '\\' then (regexLength? .escaped cs).map (· + 1)
    else if c == '[' then (regexLength? .classed cs).map (· + 1)
    else (regexLength? .plain cs).map (· + 1)
  | .escaped, c :: cs => if c == '\n' then none else (regexLength? .plain cs).map (· + 1)
  | .classed, c :: cs =>
    if c == '\n' then none
    else if c == '\\' then (regexLength? .classEscaped cs).map (· + 1)
    else if c == ']' then (regexLength? .plain cs).map (· + 1)
    else (regexLength? .classed cs).map (· + 1)
  | .classEscaped, c :: cs => if c == '\n' then none else (regexLength? .classed cs).map (· + 1)

def regexTokenLength? (cs : List Char) : Option Nat :=
  match regexLength? .plain cs with
  | some (n + 2) =>
    some (n + 2 + ((cs.drop (n + 2)).takeWhile fun c => 'a' ≤ c && c ≤ 'z').length)
  | _ => none

end WebAudit.Script
