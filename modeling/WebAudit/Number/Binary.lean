/-!
Binary floating-point values as exact numbers. A finite value is a mantissa
times a power of two, so values are compared and rounded in integer
arithmetic. Rounding goes to the nearest value of a format, and a tie goes to
the even mantissa.
-/

namespace WebAudit.Number

/-- A binary format: its digits of precision and the range of the exponent of
the last digit. -/
structure Format where
  precision : Nat
  least : Int
  greatest : Int

def Format.double : Format := ⟨53, -1074, 971⟩

def Format.single : Format := ⟨24, -149, 104⟩

/-- A value of a binary format. A finite one stands for
`mantissa * 2 ^ exponent` with a sign, zero included. -/
inductive Binary where
  | finite (negative : Bool) (mantissa : Nat) (exponent : Int)
  | infinite (negative : Bool)
  | nan
  deriving DecidableEq, Repr, Inhabited

/-- A quotient multiplied by `2 ^ (-e)`, as numerator and denominator. -/
def scaleDown (num den : Nat) (e : Int) : Nat × Nat :=
  if 0 ≤ e then (num, den * Nat.pow 2 e.toNat) else (num * Nat.pow 2 (-e).toNat, den)

/-- The integer nearest to `num / den`; a tie goes to the even one. -/
def roundDiv (num den : Nat) : Nat :=
  let q := num / den
  let r := num % den
  if 2 * r > den || (2 * r == den && q % 2 == 1) then q + 1 else q

def Format.round (f : Format) (negative : Bool) (num den : Nat) : Binary :=
  if num == 0 || den == 0 then .finite negative 0 f.least
  else
    let guess : Int := (Nat.log2 num : Int) - (Nat.log2 den : Int) - f.precision
    let (n0, d0) := scaleDown num den guess
    let fitted := if n0 / d0 ≥ Nat.pow 2 f.precision then guess + 1 else guess
    let e := max f.least fitted
    let (n, d) := scaleDown num den e
    let q := roundDiv n d
    let (q, e) :=
      if q ≥ Nat.pow 2 f.precision then (Nat.pow 2 (f.precision - 1), e + 1) else (q, e)
    if e > f.greatest then .infinite negative else .finite negative q e

namespace Binary

def zero (f : Format) : Binary := .finite false 0 f.least

def ofNat (f : Format) (n : Nat) : Binary := f.round false n 1

def ofInt (f : Format) (n : Int) : Binary := f.round (decide (n < 0)) n.natAbs 1

def convert (f : Format) : Binary → Binary
  | .finite negative m e =>
    if 0 ≤ e then f.round negative (m * Nat.pow 2 e.toNat) 1
    else f.round negative m (Nat.pow 2 (-e).toNat)
  | b => b

/-- The value of a 64-bit pattern: sign, eleven exponent bits, 52 fraction bits. -/
def ofBits64 (bits : UInt64) : Binary :=
  let n := bits.toNat
  let negative := n / Nat.pow 2 63 == 1
  let exponent : Nat := n / Nat.pow 2 52 % 2048
  let fraction : Nat := n % Nat.pow 2 52
  if exponent == 2047 then if fraction == 0 then .infinite negative else .nan
  else if exponent == 0 then .finite negative fraction (-1074)
  else .finite negative (fraction + Nat.pow 2 52) ((exponent : Int) - 1075)

def ofFloat (x : Float) : Binary := ofBits64 x.toBits

/-- The signed multiple of `2 ^ e` that a finite value is, for an `e` not above
its exponent. -/
def scaled (negative : Bool) (m : Nat) (exponent e : Int) : Int :=
  let v : Int := (m * Nat.pow 2 (exponent - e).toNat : Nat)
  if negative then -v else v

/-- The order of two values; a not-a-number is unordered. The two zeros are
equal. -/
def order : Binary → Binary → Option Ordering
  | .nan, _ => none
  | _, .nan => none
  | .infinite a, .infinite b => some (compare (!a) (!b))
  | .infinite a, .finite .. => some (if a then .lt else .gt)
  | .finite .., .infinite b => some (if b then .gt else .lt)
  | .finite a m e, .finite b n g =>
    let low := min e g
    some (compare (scaled a m e low) (scaled b n g low))

/-- `x < y`, false when either is not a number. -/
def lt (x y : Binary) : Bool := order x y == some .lt

def le (x y : Binary) : Bool := order x y == some .lt || order x y == some .eq

/-- The greater of two values; a not-a-number gives way to the other. -/
def greater (x y : Binary) : Binary :=
  match x, y with
  | .nan, y => y
  | x, .nan => x
  | x, y => if lt x y then y else x

def isFinite : Binary → Bool
  | .finite .. => true
  | _ => false

end Binary

end WebAudit.Number
