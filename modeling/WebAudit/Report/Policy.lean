import WebAudit.Finding.Basic

/-!
Which findings a report keeps, and which of them fail a run.
-/

namespace WebAudit

structure WidenRule where
  category : Category
  kind : Option String
  floor : Severity
  deriving DecidableEq, Repr, Inhabited

def sensitiveDataKind : String := "Sensitive Data Logging"

structure Policy where
  threshold : Severity := .high
  widen : List WidenRule :=
    [⟨.upload, none, .medium⟩, ⟨.endpoint, none, .medium⟩,
      ⟨.logging, some sensitiveDataKind, .medium⟩]
  exitThreshold : Severity := .high
  exitExempt : List Category := []
  deriving DecidableEq, Repr, Inhabited

/-- Whether a rule speaks about a finding. -/
def WidenRule.applies (rule : WidenRule) (f : Finding) : Bool :=
  rule.category == f.category && rule.kind.all (· == f.kind)

namespace Policy

/-- The lowest severity that is kept for a finding: the least among the
threshold and the floors of the rules that apply. -/
def floorFor (p : Policy) (f : Finding) : Severity :=
  ((p.widen.filter (·.applies f)).map (·.floor)).foldl min p.threshold

/-- Whether a finding reaches its floor. -/
def keeps (p : Policy) (f : Finding) : Bool := decide (p.floorFor f ≤ f.severity)

def triggersExit (p : Policy) (f : Finding) : Bool :=
  decide (p.exitThreshold ≤ f.severity) && !p.exitExempt.contains f.category

end Policy

end WebAudit
