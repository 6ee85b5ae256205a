import WebAudit.Number.Binary

/-!
Decimal texts of binary values. Reading rounds a decimal to a format. Writing
gives either the fewest digits that read back, laid out by a small record of
layout decisions, or a fixed number of places.
-/

namespace WebAudit.Number

def powerOfTen (e : Int) : Nat × Nat :=
  if 0 ≤ e then (Nat.pow 10 e.toNat, 1) else (1, Nat.pow 10 (-e).toNat)

def digitValue (c : Char) : Nat := c.toNat - '0'.toNat

def digitsValue (cs : List Char) : Nat := cs.foldl (fun n c => n * 10 + digitValue c) 0

/-- A decimal written as digits and a power of ten, rounded to a format. The
exponent is cut off where the result can only be zero or infinite. -/
def readDecimal (f : Format) (negative : Bool) (digits : Nat) (exponent : Int) : Binary :=
  if digits == 0 then .finite negative 0 f.least
  else
    let size : Int := (Nat.toDigits 10 digits).length
    if size + exponent > 400 then .infinite negative
    else if size + exponent < -400 then .finite negative 0 f.least
    else
      let (p, q) := powerOfTen exponent
      f.round negative (digits * p) q

def takeSign : List Char → Bool × List Char
  | '-' :: rest => (true, rest)
  | '+' :: rest => (false, rest)
  | cs => (false, cs)

/-- The exponent part `e±digits` at the start of a text; no part reads as 0. -/
def takeExponent? (cs : List Char) : Option Int :=
  match cs with
  | [] => some 0
  | c :: rest =>
    if c == 'e' || c == 'E' then
      let (negative, body) := takeSign rest
      if body.isEmpty || !body.all Char.isDigit then none
      else
        let n : Int := digitsValue body
        some (if negative then -n else n)
    else none

/-- A decimal numeral: digits with an optional point and an optional exponent,
or one of the words `inf`, `infinity` and `nan` in any case. At least one digit
stands before or after the point. -/
def readNumeral? (f : Format) (cs : List Char) : Option Binary :=
  let (negative, body) := takeSign cs
  let word := body.map Char.toLower
  if word == "inf".toList || word == "infinity".toList then some (.infinite negative)
  else if word == "nan".toList then some .nan
  else
    let whole := body.takeWhile Char.isDigit
    let rest := body.dropWhile Char.isDigit
    let (fraction, rest) :=
      match rest with
      | '.' :: more => (more.takeWhile Char.isDigit, more.dropWhile Char.isDigit)
      | other => ([], other)
    if whole.isEmpty && fraction.isEmpty then none
    else
      (takeExponent? rest).map fun e =>
        readDecimal f negative (digitsValue (whole ++ fraction)) (e - fraction.length)

/-- The ends of the interval of numbers that round to a positive value, as
multiples of `2 ^ (exponent - 2)`: the value, the lower end and the upper end. -/
def roundingInterval (f : Format) (m : Nat) (e : Int) : Nat × Nat × Nat :=
  let low := if m == Nat.pow 2 (f.precision - 1) && e > f.least then 4 * m - 1 else 4 * m - 2
  (4 * m, low, 4 * m + 2)

/-- The decimal place just above the first digit of `num / den`: the least `x`
with `num / den < 10 ^ x`, searched upwards from a guess. -/
def firstPlace (num den : Nat) : Nat → Int → Int
  | 0, x => x
  | fuel + 1, x =>
    let (p, q) := powerOfTen x
    if num * q < den * p then x else firstPlace num den fuel (x + 1)

/-- The multiple of `10 ^ place` with the given neighbours that lies in an
interval and is nearest to the value; a tie goes to the even one. -/
def gridHit? (value low high den : Nat) (closed : Bool) (place : Int) : Option Nat :=
  let (p, q) := powerOfTen place
  let unit := den * p
  let below := value * q / unit
  let inside (k : Nat) : Bool :=
    let v := k * unit
    if closed then low * q ≤ v && v ≤ high * q else low * q < v && v < high * q
  let lower := if below > 0 && inside below then some below else none
  let upper := if inside (below + 1) then some (below + 1) else none
  match lower, upper with
  | some a, some b =>
    let down := value * q - a * unit
    let up := b * unit - value * q
    if down < up then some a
    else if up < down then some b
    else if a % 2 == 0 then some a else some b
  | some a, none => some a
  | none, some b => some b
  | none, none => none

/-- The first hit on grids of 1, 2, … digits. -/
def searchDigits (value low high den : Nat) (closed : Bool) (top : Int) : Nat → Nat → Nat × Int
  | 0, _ => (0, 0)
  | fuel + 1, count =>
    let place := top - count
    match gridHit? value low high den closed place with
    | some k => (k, place)
    | none => searchDigits value low high den closed top fuel (count + 1)

/-- Removes zeros from the end of a number, and counts them in the exponent. -/
def stripZeros : Nat → Nat → Int → Nat × Int
  | 0, k, e => (k, e)
  | fuel + 1, k, e => if k != 0 && k % 10 == 0 then stripZeros fuel (k / 10) (e + 1) else (k, e)

/-- The fewest digits that read back as a positive finite value, with their
power of ten. -/
def shortestDigits (f : Format) (m : Nat) (e : Int) : Nat × Int :=
  let (v, l, h) := roundingInterval f m e
  let (num, den) :=
    if 0 ≤ e - 2 then (Nat.pow 2 (e - 2).toNat, 1) else (1, Nat.pow 2 (2 - e).toNat)
  let guess : Int := (((Nat.log2 (v * num) : Int) - (Nat.log2 den : Int)) * 30103).fdiv 100000 - 1
  let top := firstPlace (v * num) den 8 guess
  let (k, place) := searchDigits (v * num) (l * num) (h * num) den (m % 2 == 0) top 20 1
  stripZeros 20 k place

/-- How a shortest decimal is laid out. The decimal point of a number with
digits `d₁d₂…` stands after place `point`; positional notation is used while
`lowest < point ≤ highest`, scientific notation beyond. -/
structure Layout where
  lowest : Int
  highest : Int

/-- Digits with the point after place `point`, and at least one place after it. -/
def positional (digits : List Char) (point : Int) (keepPoint : Bool) : List Char :=
  let n := digits.length
  if point ≤ 0 then
    '0' :: '.' :: (List.replicate (-point).toNat '0' ++ digits)
  else if point.toNat < n then
    digits.take point.toNat ++ '.' :: digits.drop point.toNat
  else
    digits ++ List.replicate (point.toNat - n) '0' ++ (if keepPoint then ['.', '0'] else [])

def scientific (digits : List Char) (point : Int) : List Char :=
  let power := (toString (point - 1)).toList
  match digits with
  | [] => []
  | [d] => d :: 'e' :: power
  | d :: more => d :: '.' :: (more ++ 'e' :: power)

/-- The shortest text of a value under a layout, with `.0` on whole numbers.
Infinities and not-a-number have no such text. -/
def shortestText? (f : Format) (layout : Layout) : Binary → Option String
  | .finite negative m e =>
    let body : List Char :=
      if m == 0 then ['0', '.', '0']
      else
        let (k, place) := shortestDigits f m e
        let digits := Nat.toDigits 10 k
        let point : Int := digits.length + place
        if layout.lowest < point && point ≤ layout.highest then positional digits point true
        else scientific digits point
    some (String.ofList (if negative then '-' :: body else body))
  | _ => none

/-- The shortest positional text of a finite value, without `.0` on whole
numbers, and the words `inf`, `-inf` and `NaN`. -/
def plainText (f : Format) : Binary → String
  | .finite negative m e =>
    let body : List Char :=
      if m == 0 then ['0']
      else
        let (k, place) := shortestDigits f m e
        let digits := Nat.toDigits 10 k
        positional digits (digits.length + place) false
    String.ofList (if negative then '-' :: body else body)
  | .infinite negative => if negative then "-inf" else "inf"
  | .nan => "NaN"

/-- A finite value with a fixed number of places; a tie goes to the even digit.
The sign of zero is kept. -/
def fixedText (places : Nat) : Binary → String
  | .finite negative m e =>
    let (num, den) :=
      if 0 ≤ e then (m * Nat.pow 2 e.toNat, 1) else (m, Nat.pow 2 (-e).toNat)
    let k := roundDiv (num * Nat.pow 10 places) den
    let whole := Nat.toDigits 10 (k / Nat.pow 10 places)
    let part := Nat.toDigits 10 (k % Nat.pow 10 places)
    let padded := List.replicate (places - part.length) '0' ++ part
    let body := if places == 0 then whole else whole ++ '.' :: padded
    String.ofList (if negative then '-' :: body else body)
  | .infinite negative => if negative then "-inf" else "inf"
  | .nan => "NaN"

end WebAudit.Number
