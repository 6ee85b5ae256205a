import WebAudit.Toml.Value

/-!
Values that are a single word: Booleans, numbers, dates and times. A word ends
before the first character that no such value can hold, and has to be a value
as a whole.
-/

namespace WebAudit.Toml

def isWordChar (c : Char) : Bool :=
  c.isAlphanum || c == '_' || c == '+' || c == '-' || c == '.' || c == ':'

/-- The digits of a number in which single underscores may stand between
digits. -/
def digits? (isDigit : Char → Bool) : List Char → Option (List Char)
  | [] => none
  | [c] => if isDigit c then some [c] else none
  | c :: '_' :: rest => if isDigit c then (digits? isDigit rest).map (c :: ·) else none
  | c :: rest => if isDigit c then (digits? isDigit rest).map (c :: ·) else none

/-- The digits of a number that is zero or does not start with zero. -/
def wholeDigits? (cs : List Char) : Option (List Char) :=
  match cs with
  | '0' :: _ :: _ => none
  | cs => digits? Char.isDigit cs

def splitSign : List Char → Bool × List Char
  | '+' :: rest => (false, rest)
  | '-' :: rest => (true, rest)
  | cs => (false, cs)

def inRange? (n : Int) : Option Int :=
  if -(Int.pow 2 63) ≤ n && n < Int.pow 2 63 then some n else none

def valueInBase (base : Nat) (cs : List Char) : Nat :=
  cs.foldl (fun n c => n * base + (hexDigit? c).getD 0) 0

def isDigitIn (base : Nat) (c : Char) : Bool :=
  match hexDigit? c with
  | some d => d < base
  | none => false

def integerIn? (base : Nat) (cs : List Char) : Option Int :=
  (digits? (isDigitIn base) cs).bind fun ds => inRange? (valueInBase base ds)

/-- An integer: a decimal one with an optional sign, or one with a prefix for
its base. -/
def integer? : List Char → Option Int
  | '0' :: 'x' :: rest => integerIn? 16 rest
  | '0' :: 'o' :: rest => integerIn? 8 rest
  | '0' :: 'b' :: rest => integerIn? 2 rest
  | cs =>
    let (negative, body) := splitSign cs
    (wholeDigits? body).bind fun ds =>
      let n : Int := valueInBase 10 ds
      inRange? (if negative then -n else n)

def exponent? (cs : List Char) : Option Int :=
  let (negative, body) := splitSign cs
  (digits? Char.isDigit body).map fun ds =>
    let n : Int := valueInBase 10 ds
    if negative then -n else n

def isExponentMark (c : Char) : Bool := c == 'e' || c == 'E'

/-- The digits after the point and the exponent, of which at least one is there. -/
def fractionAndExponent? (cs : List Char) : Option (List Char × Int) :=
  match cs with
  | '.' :: rest =>
    let part := rest.takeWhile fun c => !isExponentMark c
    (digits? Char.isDigit part).bind fun ds =>
      match rest.drop part.length with
      | [] => some (ds, 0)
      | _ :: power => (exponent? power).map fun e => (ds, e)
  | c :: power => if isExponentMark c then (exponent? power).map fun e => ([], e) else none
  | [] => none

/-- A number with a point or an exponent, or one of the words for an infinity
and for no number. A number above all that can be represented is refused. -/
def float? (cs : List Char) : Option Number.Binary :=
  let (negative, body) := splitSign cs
  if body == "inf".toList then some (.infinite negative)
  else if body == "nan".toList then some .nan
  else
    let whole := body.takeWhile fun c => c.isDigit || c == '_'
    (wholeDigits? whole).bind fun ds =>
      (fractionAndExponent? (body.drop whole.length)).bind fun (fraction, e) =>
        let x :=
          Number.readDecimal .double negative (valueInBase 10 (ds ++ fraction))
            (e - fraction.length)
        if x == .infinite false then none else some x

/-- A number of a fixed count of digits within bounds, and what follows it. -/
def field? (count low high : Nat) (cs : List Char) : Option (Nat × List Char) :=
  let ds := cs.take count
  let n := valueInBase 10 ds
  if ds.length == count && ds.all Char.isDigit && low ≤ n && n ≤ high then
    some (n, cs.drop count)
  else none

/-- What follows a character that has to come first. -/
def expect? (c : Char) : List Char → Option (List Char)
  | d :: rest => if c == d then some rest else none
  | [] => none

def daysOfMonth (year month : Nat) : Nat :=
  if month == 2 then
    if year % 4 == 0 && (year % 100 != 0 || year % 400 == 0) then 29 else 28
  else if [4, 6, 9, 11].contains month then 30
  else 31

def afterDate? (cs : List Char) : Option (List Char) := do
  let (year, cs) ← field? 4 0 9999 cs
  let cs ← expect? '-' cs
  let (month, cs) ← field? 2 1 12 cs
  let cs ← expect? '-' cs
  let (_, cs) ← field? 2 1 (daysOfMonth year month) cs
  return cs

def afterMinutes? (cs : List Char) : Option (List Char) := do
  let (_, cs) ← field? 2 0 23 cs
  let cs ← expect? ':' cs
  let (_, cs) ← field? 2 0 59 cs
  return cs

def afterTime? (cs : List Char) : Option (List Char) := do
  let cs ← afterMinutes? cs
  let cs ← expect? ':' cs
  let (_, cs) ← field? 2 0 60 cs
  match cs with
  | '.' :: rest =>
    let ds := rest.takeWhile Char.isDigit
    if ds.isEmpty then none else some (rest.drop ds.length)
  | _ => some cs

/-- Whether a text is empty or an offset from universal time. -/
def isOffset : List Char → Bool
  | [] => true
  | ['Z'] | ['z'] => true
  | c :: rest => (c == '+' || c == '-') && afterMinutes? rest == some []

def isDatetime (cs : List Char) : Bool :=
  match afterDate? cs with
  | some [] => true
  | some (c :: rest) =>
    (c == 'T' || c == 't' || c == ' ') && (afterTime? rest).any isOffset
  | none => afterTime? cs == some []

def scalar? (word : List Char) : Option Value :=
  if word == "true".toList then some (.boolean true)
  else if word == "false".toList then some (.boolean false)
  else
    match integer? word with
    | some n => some (.integer n)
    | none =>
      match float? word with
      | some x => some (.float x)
      | none => if isDatetime word then some (.datetime (String.ofList word)) else none

/-- The word at the start of a text and what follows it. A date and a time may
be two words with a space between them. -/
def takeWord (cs : List Char) : List Char × List Char :=
  let word := cs.takeWhile isWordChar
  let rest := cs.dropWhile isWordChar
  match afterDate? word, rest with
  | some [], ' ' :: c :: more =>
    if c.isDigit then
      (word ++ ' ' :: (c :: more).takeWhile isWordChar, (c :: more).dropWhile isWordChar)
    else (word, rest)
  | _, _ => (word, rest)

end WebAudit.Toml
