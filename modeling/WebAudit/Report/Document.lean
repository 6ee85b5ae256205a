import WebAudit.Advisory.Resolution
import WebAudit.Dependency.Technologies
import WebAudit.Finding.Encoding
import WebAudit.Report.Aggregate

/-!
The report of an audit and its two written forms: a JSON document, and a text
with a line for each finding and the counts at its end.
-/

namespace WebAudit

structure AuditReport where
  root : Path
  filesScanned : Nat
  technologies : Technologies
  outcome : Aggregated
  faults : List IntegrityFault
  deriving DecidableEq, Repr, Inhabited

namespace AuditReport

def toJson (r : AuditReport) (generatedAt : String) : Json :=
  .object
    [("root", .string r.root.text), ("generated_at", .string generatedAt),
      ("files_scanned", .number (.int r.filesScanned)),
      ("technologies", r.technologies.toJson),
      ("findings", .array (r.outcome.findings.map Finding.toJson)),
      ("dependency_errors", .array (r.outcome.errors.map Finding.toJson)),
      ("integrity_faults", .array (r.faults.map IntegrityFault.toJson)),
      ("summary", r.outcome.summary.toJson),
      ("should_fail", .bool r.outcome.shouldFail)]

def findingLines (f : Finding) : List String :=
  s!"[{f.severity.name.toUpper}] {f.location.text} {f.kind}: {f.message}" ::
    f.details.toList.map fun details => "    " ++ details

def lookupReason (f : Finding) : String :=
  match f.payload with
  | .dependency report => report.error.getD "unknown error"
  | _ => "unknown error"

def errorLines (errors : List Finding) : List String :=
  if errors.isEmpty then []
  else
    "" :: "Dependency lookups that failed:" ::
      errors.map fun f => s!"  {f.location.text} ({lookupReason f})"

def faultLine (f : IntegrityFault) : String :=
  s!"Integrity fault in batch {f.batch}: {f.message}"

def summaryLine (s : Summary) (filesScanned : Nat) : String :=
  let counts := s.bySeverity.map fun (severity, n) => s!"{severity.name}: {n}"
  let listed := if counts.isEmpty then "" else " | " ++ Text.join ", " counts
  s!"{s.total} finding(s) in {filesScanned} file(s){listed}"

def lines (r : AuditReport) : List String :=
  r.outcome.findings.flatMap findingLines ++ errorLines r.outcome.errors ++
    r.faults.map faultLine ++ ["", summaryLine r.outcome.summary r.filesScanned]

def text (r : AuditReport) : String := String.join (r.lines.map (· ++ "\n"))

end AuditReport

end WebAudit
