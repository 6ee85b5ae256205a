import WebAudit.Text.Basic

/-!
Points in time as a report gives them: date and time of day in universal time,
with as many places of a second as are needed in steps of three.
-/

namespace WebAudit

structure Timestamp where
  seconds : Nat
  nanoseconds : Nat := 0
  deriving DecidableEq, Repr, Inhabited

namespace Timestamp

def secondsPerDay : Nat := 86400

/-- The number of days of four hundred years. -/
def daysPerEra : Nat := 146097

/-- Year, month and day of a number of days since the start of 1970. Years are
counted from March on, so that the leap day is the last one. -/
def civil (days : Nat) : Nat × Nat × Nat :=
  let shifted := days + 719468
  let era := shifted / daysPerEra
  let day := shifted % daysPerEra
  let year := (day - day / 1460 + day / 36524 - day / 146096) / 365
  let dayOfYear := day - (365 * year + year / 4 - year / 100)
  let month := (5 * dayOfYear + 2) / 153
  let dayOfMonth := dayOfYear - (153 * month + 2) / 5 + 1
  let fromMarch := era * 400 + year
  if month < 10 then (fromMarch, month + 3, dayOfMonth)
  else (fromMarch + 1, month - 9, dayOfMonth)

def padded (width n : Nat) : String :=
  let digits := toString n
  String.ofList (List.replicate (width - digits.length) '0') ++ digits

def fraction (nanoseconds : Nat) : String :=
  if nanoseconds == 0 then ""
  else if nanoseconds % 1000000 == 0 then "." ++ padded 3 (nanoseconds / 1000000)
  else if nanoseconds % 1000 == 0 then "." ++ padded 6 (nanoseconds / 1000)
  else "." ++ padded 9 nanoseconds

def text (t : Timestamp) : String :=
  let (year, month, day) := civil (t.seconds / secondsPerDay)
  let rest := t.seconds % secondsPerDay
  let date := Text.join "-" [padded 4 year, padded 2 month, padded 2 day]
  let time := Text.join ":" [padded 2 (rest / 3600), padded 2 (rest / 60 % 60), padded 2 (rest % 60)]
  date ++ "T" ++ time ++ fraction t.nanoseconds ++ "Z"

end Timestamp

end WebAudit
