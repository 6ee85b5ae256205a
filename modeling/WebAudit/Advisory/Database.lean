import WebAudit.Advisory.Record
import WebAudit.Dependency.Record

/-!
Advisory databases. A database answers the batches of one run, each with its
number in the run; the answer to a batch holds one list of advisories for each
query.
-/

namespace WebAudit

structure Query where
  name : String
  ecosystem : Ecosystem
  version : String
  deriving DecidableEq, Repr, Inhabited

def Dependency.query (d : Dependency) : Query := ⟨d.name, d.ecosystem, d.version⟩

inductive LookupError where
  | network (message : String)
  | http (status : Nat)
  | decode (message : String)
  | integrity (message : String)
  deriving DecidableEq, Repr, Inhabited

def LookupError.message : LookupError → String
  | .network message => "network error: " ++ message
  | .http status => s!"vulnerability API returned HTTP {status}"
  | .decode message => "failed to decode vulnerability API response: " ++ message
  | .integrity message => "integrity fault: " ++ message

/-- The answers of a database to the calls of one run, by the number of the
call. -/
abbrev Database := Nat → List Query → Except LookupError (List (List Advisory))

end WebAudit
