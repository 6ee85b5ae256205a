import WebAudit.Advisory.Record
import WebAudit.Digest.Sha256
import WebAudit.Finding.Category
import WebAudit.Finding.Severity
import WebAudit.Project.Path

/-!
Findings: one observation of one check, with its place, its payload and the
identifier that is derived from what it is about.
-/

namespace WebAudit

/-- Where something was observed: in a file, at a line if one is known, or in
a version of a package. -/
inductive Location where
  | file (path : Path) (line : Option Nat)
  | package (name version : String)
  deriving DecidableEq, Repr, Inhabited

namespace Location

def ofFile (path : Path) : Location := .file path none

/-- The place of a line of a file; lines count from one. -/
def atLine (path : Path) (line : Nat) : Location := .file path (some line)

def line? : Location → Option Nat
  | .file _ line => line
  | .package .. => none

def file? : Location → Option Path
  | .file path _ => some path
  | .package .. => none

/-- The text that stands for the place without its line. -/
def key : Location → String
  | .file path _ => path.text
  | .package name version => name ++ "@" ++ version

def text (l : Location) : String :=
  match l.line? with
  | some n => l.key ++ ":" ++ toString n
  | none => l.key

end Location

structure DependencyReport where
  ecosystem : String
  manifest : Path
  advisories : List Advisory
  maxScore : Option Number.Binary
  maxSeverity : Severity
  error : Option String
  deriving DecidableEq, Repr, Inhabited

inductive Payload where
  | empty
  | pattern (matched : String)
  | entropy (bits : Number.Binary) (length : Nat)
  | dependency (report : DependencyReport)
  | library (name : String)
  | endpoint (keyword route : String)
  deriving DecidableEq, Repr, Inhabited

/-- One observation. The identifier is derived from category, kind and place. -/
structure Finding where
  id : String
  category : Category
  kind : String
  severity : Severity
  location : Location
  message : String
  details : Option String
  payload : Payload
  deriving DecidableEq, Repr, Inhabited

namespace Finding

/-- The identifier of what a finding is about: the first sixteen hexadecimal
digits of a digest over category, kind, place and line. -/
def identify (category : Category) (kind : String) (location : Location) : String :=
  let line := match location.line? with
    | some n => "|" ++ toString n
    | none => ""
  let text := category.name ++ "|" ++ kind ++ "|" ++ location.key ++ line
  String.ofList ((Digest.hex (Digest.sha256 (Text.bytes text.toList))).take 16)

def new (category : Category) (kind : String) (severity : Severity) (location : Location)
    (message : String) : Finding where
  id := identify category kind location
  category := category
  kind := kind
  severity := severity
  location := location
  message := message
  details := none
  payload := .empty

def withDetails (f : Finding) (details : String) : Finding := { f with details := some details }

def withPayload (f : Finding) (payload : Payload) : Finding := { f with payload := payload }

/-- The finding under another kind and severity, with the identifier that
belongs to them. -/
def reclassify (f : Finding) (kind : String) (severity : Severity) : Finding :=
  { f with kind := kind, severity := severity, id := identify f.category kind f.location }

structure Key where
  location : String
  line : Option Nat
  category : Category
  kind : String
  deriving DecidableEq, Repr, Inhabited

def key (f : Finding) : Key := ⟨f.location.key, f.location.line?, f.category, f.kind⟩

def isDuplicateOf (f g : Finding) : Bool := f.key == g.key

end Finding

/-- A matched secret of which at most the first four characters stay visible. -/
def redact (matched : String) : String :=
  let cs := matched.toList
  if cs.length ≤ 4 then "****" else String.ofList (cs.take 4) ++ "****"

end WebAudit
