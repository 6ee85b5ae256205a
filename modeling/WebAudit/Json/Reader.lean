import WebAudit.Json.Value
import WebAudit.Text.Basic

/-!
Reading JSON text. A failure is a cause and the place where it was noticed; a
place is a line and the number of bytes before it on that line. Arrays and
objects nest at most 127 deep.
-/

namespace WebAudit.Json

inductive Fault where
  | endInList
  | endInObject
  | endInString
  | endInValue
  | expectedColon
  | expectedListEnd
  | expectedObjectEnd
  | expectedIdent
  | expectedValue
  | invalidEscape
  | invalidNumber
  | numberOutOfRange
  | controlCharacter
  | keyNotString
  | loneSurrogate
  | trailingComma
  | trailingCharacters
  | endInHexEscape
  | tooDeep
  deriving DecidableEq, Repr, Inhabited

def Fault.message : Fault → String
  | .endInList => "EOF while parsing a list"
  | .endInObject => "EOF while parsing an object"
  | .endInString => "EOF while parsing a string"
  | .endInValue => "EOF while parsing a value"
  | .expectedColon => "expected `:`"
  | .expectedListEnd => "expected `,` or `]`"
  | .expectedObjectEnd => "expected `,` or `\x7d`"
  | .expectedIdent => "expected ident"
  | .expectedValue => "expected value"
  | .invalidEscape => "invalid escape"
  | .invalidNumber => "invalid number"
  | .numberOutOfRange => "number out of range"
  | .controlCharacter => "control character (\\u0000-\\u001F) found while parsing a string"
  | .keyNotString => "key must be a string"
  | .loneSurrogate => "lone leading surrogate in hex escape"
  | .trailingComma => "trailing comma"
  | .trailingCharacters => "trailing characters"
  | .endInHexEscape => "unexpected end of hex escape"
  | .tooDeep => "recursion limit exceeded"

structure ReadError where
  fault : Fault
  line : Nat
  column : Nat
  deriving DecidableEq, Repr, Inhabited

def ReadError.message (e : ReadError) : String :=
  s!"{e.fault.message} at line {e.line} column {e.column}"

structure Cursor where
  rest : List Char
  line : Nat
  column : Nat

namespace Cursor

def start (cs : List Char) : Cursor := ⟨cs, 1, 0⟩

def next (s : Cursor) : Cursor :=
  match s.rest with
  | [] => s
  | '\n' :: rest => ⟨rest, s.line + 1, 0⟩
  | c :: rest => ⟨rest, s.line, s.column + Text.utf8Width c⟩

def skip : Nat → Cursor → Cursor
  | 0, s => s
  | n + 1, s => skip n s.next

def fail {α : Type} (s : Cursor) (fault : Fault) : Except ReadError α :=
  .error ⟨fault, s.line, s.column⟩

/-- A fault at the byte after the one that comes next. -/
def failPeek {α : Type} (s : Cursor) (fault : Fault) : Except ReadError α :=
  match s.rest with
  | [] => s.fail fault
  | '\n' :: _ => .error ⟨fault, s.line + 1, 0⟩
  | _ => .error ⟨fault, s.line, s.column + 1⟩

def skipBlanks (s : Cursor) : Cursor :=
  let isSpace (c : Char) : Bool := c == ' ' || c == '\n' || c == '\t' || c == '\r'
  skip (s.rest.takeWhile isSpace).length s

end Cursor

def readWord : List Char → Cursor → Except ReadError Cursor
  | [], s => .ok s
  | c :: cs, s =>
    match s.rest with
    | [] => s.fail .endInValue
    | d :: _ => if c == d then readWord cs s.next else s.next.fail .expectedIdent

def hexValue? (c : Char) : Option Nat :=
  if c.isDigit then some (c.toNat - 48)
  else if 'a' ≤ c && c ≤ 'f' then some (c.toNat - 87)
  else if 'A' ≤ c && c ≤ 'F' then some (c.toNat - 55)
  else none

/-- Four hexadecimal digits; at least four bytes have to be left. -/
def readHex4 (s : Cursor) : Except ReadError (Nat × Cursor) :=
  if Text.byteLength (s.rest.take 4) < 4 then (Cursor.skip 4 s).fail .endInString
  else
    match s.rest.take 4 |>.mapM hexValue? with
    | some [a, b, c, d] => .ok (((a * 16 + b) * 16 + c) * 16 + d, Cursor.skip 4 s)
    | _ => .error ⟨.invalidEscape, s.line, s.column + 4⟩

/-- The character of an escape whose `\u` has been read. -/
def readUnicodeEscape (s : Cursor) : Except ReadError (Char × Cursor) := do
  let (n, s) ← readHex4 s
  if 0xDC00 ≤ n && n ≤ 0xDFFF then s.fail .loneSurrogate
  else if n < 0xD800 || n > 0xDBFF then .ok (Char.ofNat n, s)
  else
    match s.rest with
    | [] => s.fail .endInString
    | '\\' :: _ =>
      let s := s.next
      match s.rest with
      | [] => s.fail .endInString
      | 'u' :: _ =>
        let (m, s) ← readHex4 s.next
        if m < 0xDC00 || m > 0xDFFF then s.fail .loneSurrogate
        else .ok (Char.ofNat ((n - 0xD800) * 1024 + (m - 0xDC00) + 0x10000), s)
      | _ => s.next.fail .endInHexEscape
    | _ => s.next.fail .endInHexEscape

def readEscape (s : Cursor) : Except ReadError (Char × Cursor) :=
  match s.rest with
  | [] => s.fail .endInString
  | '"' :: _ => .ok ('"', s.next)
  | '\\' :: _ => .ok ('\\', s.next)
  | '/' :: _ => .ok ('/', s.next)
  | 'b' :: _ => .ok (Char.ofNat 8, s.next)
  | 'f' :: _ => .ok (Char.ofNat 12, s.next)
  | 'n' :: _ => .ok ('\n', s.next)
  | 'r' :: _ => .ok ('\r', s.next)
  | 't' :: _ => .ok ('\t', s.next)
  | 'u' :: _ => readUnicodeEscape s.next
  | _ :: _ => s.next.fail .invalidEscape

/-- The rest of a string whose opening quote has been read; `acc` holds the
characters so far, reversed. -/
def readStringFrom : Nat → List Char → Cursor → Except ReadError (String × Cursor)
  | 0, _, s => s.fail .endInString
  | fuel + 1, acc, s =>
    match s.rest with
    | [] => s.fail .endInString
    | '"' :: _ => .ok (String.ofList acc.reverse, s.next)
    | '\\' :: _ => do
      let (c, s) ← readEscape s.next
      readStringFrom fuel (c :: acc) s
    | c :: _ =>
      if c.toNat < 32 then s.next.fail .controlCharacter
      else readStringFrom fuel (c :: acc) s.next

def readString (s : Cursor) : Except ReadError (String × Cursor) :=
  readStringFrom (s.rest.length + 1) [] s

/-- A decimal as a finite number, or the range fault at the cursor. -/
def finishDecimal (negative : Bool) (digits : Nat) (exponent : Int) (s : Cursor) :
    Except ReadError (JsonNumber × Cursor) :=
  match Number.readDecimal .double negative digits exponent with
  | .infinite _ => s.fail .numberOutOfRange
  | b => .ok (.double b, s)

/-- The number of leading digits after which an exponent leaves 32 bits. -/
def overflowAt (digits : List Char) : Option Nat :=
  let rec go : List Char → Nat → Nat → Option Nat
    | [], _, _ => none
    | c :: cs, n, i =>
      let n := n * 10 + Number.digitValue c
      if n > 2147483647 then some (i + 1) else go cs n (i + 1)
  go digits 0 0

def readExponent (negative : Bool) (digits : Nat) (scale : Int) (s : Cursor) :
    Except ReadError (JsonNumber × Cursor) :=
  let s := s.next
  let (down, s) :=
    match s.rest with
    | '+' :: _ => (false, s.next)
    | '-' :: _ => (true, s.next)
    | _ => (false, s)
  match s.rest with
  | [] => s.fail .endInValue
  | c :: _ =>
    if !c.isDigit then s.next.fail .invalidNumber
    else
      let body := s.rest.takeWhile Char.isDigit
      match overflowAt body with
      | some n =>
        if digits != 0 && !down then (Cursor.skip n s).fail .numberOutOfRange
        else .ok (.double (.finite negative 0 Number.Format.double.least), Cursor.skip body.length s)
      | none =>
        let e : Int := Number.digitsValue body
        finishDecimal negative digits (scale + if down then -e else e) (Cursor.skip body.length s)

def readFraction (negative : Bool) (whole : List Char) (s : Cursor) :
    Except ReadError (JsonNumber × Cursor) :=
  let n := Number.digitsValue whole
  match s.rest with
  | '.' :: _ =>
    let s := s.next
    let part := s.rest.takeWhile Char.isDigit
    if part.isEmpty then
      if s.rest.isEmpty then s.failPeek .endInValue else s.failPeek .invalidNumber
    else
      let digits := Number.digitsValue (whole ++ part)
      let scale : Int := -(part.length : Int)
      let s := Cursor.skip part.length s
      match s.rest with
      | 'e' :: _ => readExponent negative digits scale s
      | 'E' :: _ => readExponent negative digits scale s
      | _ => finishDecimal negative digits scale s
  | 'e' :: _ => readExponent negative n 0 s
  | 'E' :: _ => readExponent negative n 0 s
  | _ =>
    if negative then
      if n == 0 || n > 9223372036854775808 then finishDecimal true n 0 s
      else .ok (.int (-(n : Int)), s)
    else if n ≤ 18446744073709551615 then .ok (.int n, s)
    else finishDecimal false n 0 s

def readNumber (negative : Bool) (s : Cursor) : Except ReadError (JsonNumber × Cursor) :=
  match s.rest with
  | [] => s.fail .endInValue
  | '0' :: rest =>
    if (rest.headD ' ').isDigit then s.next.failPeek .invalidNumber
    else readFraction negative ['0'] s.next
  | c :: _ =>
    if c.isDigit then
      let whole := s.rest.takeWhile Char.isDigit
      readFraction negative whole (Cursor.skip whole.length s)
    else s.next.fail .invalidNumber

mutual

/-- A value after blanks. `depth` is the number of brackets that may still be
opened, plus one. -/
def readValue (fuel depth : Nat) (s : Cursor) : Except ReadError (Json × Cursor) :=
  match fuel with
  | 0 => s.fail .endInValue
  | fuel + 1 =>
    let s := s.skipBlanks
    match s.rest with
    | [] => s.failPeek .endInValue
    | 'n' :: _ => do let s ← readWord "ull".toList s.next; .ok (.null, s)
    | 't' :: _ => do let s ← readWord "rue".toList s.next; .ok (.bool true, s)
    | 'f' :: _ => do let s ← readWord "alse".toList s.next; .ok (.bool false, s)
    | '"' :: _ => do let (text, s) ← readString s.next; .ok (.string text, s)
    | '-' :: _ => do let (n, s) ← readNumber true s.next; .ok (.number n, s)
    | '[' :: _ =>
      if depth ≤ 1 then s.failPeek .tooDeep
      else do
        let (items, s) ← readItems fuel (depth - 1) true s.next
        .ok (.array items, s)
    | '\x7b' :: _ =>
      if depth ≤ 1 then s.failPeek .tooDeep
      else do
        let (members, s) ← readMembers fuel (depth - 1) true s.next
        .ok (.object members, s)
    | c :: _ =>
      if c.isDigit then do let (n, s) ← readNumber false s; .ok (.number n, s)
      else s.failPeek .expectedValue

def readItems (fuel depth : Nat) (first : Bool) (s : Cursor) :
    Except ReadError (List Json × Cursor) :=
  match fuel with
  | 0 => s.fail .endInList
  | fuel + 1 =>
    let s := s.skipBlanks
    match s.rest with
    | [] => s.failPeek .endInList
    | ']' :: _ => .ok ([], s.next)
    | c :: _ => do
      let s ←
        if first then Except.ok s
        else if c == ',' then
          let s := s.next.skipBlanks
          match s.rest with
          | ']' :: _ => s.failPeek .trailingComma
          | [] => s.failPeek .endInValue
          | _ => .ok s
        else s.failPeek .expectedListEnd
      let (x, s) ← readValue fuel depth s
      let (xs, s) ← readItems fuel depth false s
      .ok (x :: xs, s)

/-- The members of an object up to its closing brace, as they are written. -/
def readMembers (fuel depth : Nat) (first : Bool) (s : Cursor) :
    Except ReadError (List (String × Json) × Cursor) :=
  match fuel with
  | 0 => s.fail .endInObject
  | fuel + 1 =>
    let s := s.skipBlanks
    match s.rest with
    | [] => s.failPeek .endInObject
    | '\x7d' :: _ => .ok ([], s.next)
    | c :: _ => do
      let s ←
        if first then if c == '"' then Except.ok s else s.failPeek .keyNotString
        else if c == ',' then
          let s := s.next.skipBlanks
          match s.rest with
          | '"' :: _ => .ok s
          | '\x7d' :: _ => s.failPeek .trailingComma
          | [] => s.failPeek .endInValue
          | _ => s.failPeek .keyNotString
        else s.failPeek .expectedObjectEnd
      let (name, s) ← readString s.next
      let s := s.skipBlanks
      match s.rest with
      | [] => s.failPeek .endInObject
      | ':' :: _ =>
        let (value, s) ← readValue fuel depth s.next
        let (more, s) ← readMembers fuel depth false s
        .ok ((name, value) :: more, s)
      | _ => s.failPeek .expectedColon

end

/-- Arrays and objects may nest one less than this deep. -/
def depthLimit : Nat := 128

/-- The value that a whole text spells, with the members of objects as they are
written. -/
def read (text : String) : Except ReadError Json := do
  let cs := text.toList
  let (value, s) ← readValue (2 * cs.length + 2) depthLimit (.start cs)
  let s := s.skipBlanks
  if s.rest.isEmpty then .ok value else s.failPeek .trailingCharacters

/-- The value that a whole text spells. Objects have one member for a name, the
last one, in the order of names. -/
def parse (text : String) : Except ReadError Json := (read text).map canonical

end WebAudit.Json
