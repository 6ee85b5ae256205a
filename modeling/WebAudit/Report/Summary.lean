import WebAudit.Finding.Basic

/-!
Counts of findings, by severity and by category. Both lists are in the order
of the names and leave out what does not occur.
-/

namespace WebAudit

structure Summary where
  total : Nat
  bySeverity : List (Severity × Nat)
  byCategory : List (Category × Nat)
  deriving DecidableEq, Repr, Inhabited

namespace Summary

/-- Counts with one more of a value. They are in the order of the names. -/
def bump {α : Type} (name : α → String) (v : α) : List (α × Nat) → List (α × Nat)
  | [] => [(v, 1)]
  | (w, n) :: rest =>
    match compare (name v) (name w) with
    | .lt => (v, 1) :: (w, n) :: rest
    | .eq => (w, n + 1) :: rest
    | .gt => (w, n) :: bump name v rest

def read (s : Summary) (f : Finding) : Summary where
  total := s.total
  bySeverity := bump Severity.name f.severity s.bySeverity
  byCategory := bump Category.name f.category s.byCategory

def ofFindings (fs : List Finding) : Summary :=
  fs.foldl read { total := fs.length, bySeverity := [], byCategory := [] }

def count (s : Summary) (severity : Severity) : Nat := (s.bySeverity.lookup severity).getD 0

def toJson (s : Summary) : Json :=
  .object
    [("total", .number (.int s.total)),
      ("by_severity", .object (s.bySeverity.map fun (k, n) => (k.name, .number (.int n)))),
      ("by_category", .object (s.byCategory.map fun (k, n) => (k.name, .number (.int n))))]

end Summary

end WebAudit
