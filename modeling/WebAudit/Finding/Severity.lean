import WebAudit.Number.Decimal
import WebAudit.Text.Basic

/-!
Severities, from a clean check to a critical finding, and the severity of a
base score.
-/

namespace WebAudit

/-- How serious a finding is. `clean` marks something that was checked and
found in order; it is never reported. -/
inductive Severity where
  | clean
  | info
  | low
  | medium
  | high
  | critical
  deriving DecidableEq, Repr, Inhabited

namespace Severity

def all : List Severity := [.clean, .info, .low, .medium, .high, .critical]

/-- The rank that every comparison goes by. -/
def rank : Severity → Nat
  | .clean => 0
  | .info => 1
  | .low => 2
  | .medium => 3
  | .high => 4
  | .critical => 5

instance : LE Severity := ⟨fun a b => a.rank ≤ b.rank⟩

instance : DecidableLE Severity := fun a b => inferInstanceAs (Decidable (a.rank ≤ b.rank))

instance : Ord Severity := ⟨fun a b => compare a.rank b.rank⟩

instance : Min Severity := ⟨fun a b => if a ≤ b then a else b⟩

instance : Max Severity := ⟨fun a b => if a ≤ b then b else a⟩

def name : Severity → String
  | .clean => "none"
  | .info => "info"
  | .low => "low"
  | .medium => "medium"
  | .high => "high"
  | .critical => "critical"

/-- Whether findings of the severity may appear in a report. -/
def isReportable (s : Severity) : Bool := s != .clean

def ofName? (text : String) : Option Severity := all.find? fun s => s.name == text

/-- The severity that a text names in any case; `moderate` is another word for
`medium`. A text that names none is given back in lower case. -/
def parse (text : String) : Except String Severity :=
  let word := text.toLower
  if word == "moderate" then .ok .medium
  else
    match ofName? word with
    | some s => .ok s
    | none => .error word

def unknownMessage (word : String) : String := s!"unknown severity '{word}'"

/-- The severity of a base score: critical from 9, high from 7, medium from 4,
low above 0. -/
def ofScore (score : Number.Binary) : Severity :=
  let atLeast (n : Nat) : Bool := (Number.Binary.ofNat .single n).le score
  if atLeast 9 then .critical
  else if atLeast 7 then .high
  else if atLeast 4 then .medium
  else if (Number.Binary.zero .single).lt score then .low
  else .clean

end Severity

end WebAudit
