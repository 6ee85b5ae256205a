import WebAudit.Finding.Order
import WebAudit.Report.Policy
import WebAudit.Report.Summary

/-!
Aggregation of what the checks found into the list that a report shows. Clean
findings are dropped, or counted as errors when a lookup failed; of findings
about the same thing the first in report order stays.
-/

namespace WebAudit

inductive ReportMode where
  | all
  | threshold
  deriving DecidableEq, Repr, Inhabited

structure Aggregated where
  findings : List Finding
  errors : List Finding
  summary : Summary
  shouldFail : Bool
  deriving DecidableEq, Repr, Inhabited

def Finding.hasLookupError (f : Finding) : Bool :=
  match f.payload with
  | .dependency report => report.error.isSome
  | _ => false

def aggregate (policy : Policy) (mode : ReportMode) (found errors : List Finding) : Aggregated :=
  let surfaced := found.filter fun f => f.severity.isReportable
  let failed := found.filter fun f => !f.severity.isReportable && f.hasLookupError
  let unique := Finding.deduplicate surfaced
  let kept :=
    match mode with
    | .all => unique
    | .threshold => unique.filter policy.keeps
  { findings := kept
    errors := Finding.dropRepeats (Finding.sorted (errors ++ failed))
    summary := .ofFindings kept
    shouldFail := mode == .threshold && kept.any policy.triggersExit }

end WebAudit
