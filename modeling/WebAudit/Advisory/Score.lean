import WebAudit.Number.Decimal
import WebAudit.Text.Basic

/-!
Base scores of vulnerability vectors of version 3. The metrics of a vector
weigh hundredths, so a score is computed in exact integer arithmetic and comes
out as a number of tenths from 0 to 100.
-/

namespace WebAudit

inductive AttackVector where
  | network
  | adjacent
  | localSystem
  | physical
  deriving DecidableEq, Repr, Inhabited

inductive AttackComplexity where
  | low
  | high
  deriving DecidableEq, Repr, Inhabited

inductive Privileges where
  | unneeded
  | low
  | high
  deriving DecidableEq, Repr, Inhabited

inductive Interaction where
  | unneeded
  | required
  deriving DecidableEq, Repr, Inhabited

inductive Impact where
  | unaffected
  | low
  | high
  deriving DecidableEq, Repr, Inhabited

structure BaseMetrics where
  attackVector : AttackVector
  complexity : AttackComplexity
  privileges : Privileges
  interaction : Interaction
  scopeChanged : Bool
  confidentiality : Impact
  integrity : Impact
  availability : Impact
  deriving DecidableEq, Repr, Inhabited

namespace BaseMetrics

def vectorWeight : AttackVector → Nat
  | .network => 85
  | .adjacent => 62
  | .localSystem => 55
  | .physical => 20

def complexityWeight : AttackComplexity → Nat
  | .low => 77
  | .high => 44

/-- The weight of the needed privileges in hundredths; it depends on the
scope. -/
def privilegesWeight (scopeChanged : Bool) : Privileges → Nat
  | .unneeded => 85
  | .low => if scopeChanged then 68 else 62
  | .high => if scopeChanged then 50 else 27

def interactionWeight : Interaction → Nat
  | .unneeded => 85
  | .required => 62

def impactWeight : Impact → Nat
  | .unaffected => 0
  | .low => 22
  | .high => 56

/-- The share of the security goals that is lost, in millionths. -/
def lossMillionths (m : BaseMetrics) : Nat :=
  1000000 - (100 - impactWeight m.confidentiality) * (100 - impactWeight m.integrity) *
    (100 - impactWeight m.availability)

/-- The impact part of a score, in units of `10 ^ -92`. -/
def impact (m : BaseMetrics) : Int :=
  let loss : Int := m.lossMillionths
  if m.scopeChanged then
    752 * (loss - 29000) * Int.pow 10 84 - 325 * Int.pow (loss - 20000) 15
  else 642 * loss * Int.pow 10 84

/-- The exploitability part of a score, in units of `10 ^ -92`. -/
def exploitability (m : BaseMetrics) : Int :=
  822 * (vectorWeight m.attackVector * complexityWeight m.complexity *
    privilegesWeight m.scopeChanged m.privileges * interactionWeight m.interaction : Nat) *
    Int.pow 10 82

/-- The score before it is rounded up, in units of `10 ^ -94` and at most ten. -/
def rawScore (m : BaseMetrics) : Int :=
  min ((if m.scopeChanged then 108 else 100) * (m.impact + m.exploitability)) (Int.pow 10 95)

/-- The score in tenths: the raw score to the nearest hundred-thousandth,
rounded up to a tenth. A vulnerability without impact scores zero. -/
def tenths (m : BaseMetrics) : Nat :=
  if m.impact ≤ 0 then 0
  else
    let n := ((m.rawScore + 5 * Int.pow 10 88) / Int.pow 10 89).toNat
    if n % 10000 == 0 then n / 10000 else n / 10000 + 1

def vectorLetters : List (Char × AttackVector) :=
  [('N', .network), ('A', .adjacent), ('L', .localSystem), ('P', .physical)]

def complexityLetters : List (Char × AttackComplexity) := [('L', .low), ('H', .high)]

def privilegesLetters : List (Char × Privileges) := [('N', .unneeded), ('L', .low), ('H', .high)]

def interactionLetters : List (Char × Interaction) := [('N', .unneeded), ('R', .required)]

def scopeLetters : List (Char × Bool) := [('U', false), ('C', true)]

def impactLetters : List (Char × Impact) := [('H', .high), ('L', .low), ('N', .unaffected)]

inductive Metric where
  | scope
  | attackVector
  | complexity
  | privileges
  | interaction
  | confidentiality
  | integrity
  | availability
  deriving DecidableEq, Repr, Inhabited

namespace Metric

def all : List Metric :=
  [.scope, .attackVector, .complexity, .privileges, .interaction, .confidentiality, .integrity,
    .availability]

def name : Metric → String
  | .scope => "S"
  | .attackVector => "AV"
  | .complexity => "AC"
  | .privileges => "PR"
  | .interaction => "UI"
  | .confidentiality => "C"
  | .integrity => "I"
  | .availability => "A"

def named? (name : List Char) : Option Metric := all.find? (·.name.toList == name)

end Metric

/-- A slot for each metric, with the first letter of the value that was read
last. -/
@[ext]
structure Letters where
  slot : Metric → Option Char := fun _ => none

namespace Letters

/-- Reads a component, a name and a value around a colon, into the slot of the
metric it names. A value without a letter empties the slot. -/
def read (letters : Letters) (part : List Char) : Letters :=
  match Text.splitAt? [':'] part with
  | some (name, value) =>
    match Metric.named? name with
    | some metric => ⟨fun m => if m = metric then value.head? else letters.slot m⟩
    | none => letters
  | none => letters

def ofComponents (components : List (List Char)) : Letters :=
  components.foldl read {}

def value? {α : Type} (letters : Letters) (metric : Metric) (values : List (Char × α)) :
    Option α :=
  (letters.slot metric).bind fun c => values.lookup c

end Letters

def ofComponents? (components : List (List Char)) : Option BaseMetrics := do
  let letters := Letters.ofComponents components
  let scopeChanged ← letters.value? .scope scopeLetters
  let attackVector ← letters.value? .attackVector vectorLetters
  let complexity ← letters.value? .complexity complexityLetters
  let privileges ← letters.value? .privileges privilegesLetters
  let interaction ← letters.value? .interaction interactionLetters
  let confidentiality ← letters.value? .confidentiality impactLetters
  let integrity ← letters.value? .integrity impactLetters
  let availability ← letters.value? .availability impactLetters
  return {
    attackVector, complexity, privileges, interaction, scopeChanged, confidentiality, integrity,
    availability }

/-- The metrics of a vector, which starts with the name of its version. -/
def ofVector? (vector : String) : Option BaseMetrics :=
  match Text.splitOn '/' vector.toList with
  | version :: components =>
    if version == "CVSS:3.0".toList || version == "CVSS:3.1".toList then ofComponents? components
    else none
  | [] => none

end BaseMetrics

def tenthsValue (n : Nat) : Number.Binary := Number.Format.single.round false n 10

/-- The base score of a vector of version 3 in which no base metric is
missing. -/
def baseScore? (vector : String) : Option Number.Binary :=
  (BaseMetrics.ofVector? vector).map fun m => tenthsValue m.tenths

end WebAudit
