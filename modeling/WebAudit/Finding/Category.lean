/-!
Categories of findings, one for each family of checks.
-/

namespace WebAudit

/-- The family of checks that a finding comes from. The constructors stand in
report order. -/
inductive Category where
  | secret
  | dependency
  | configuration
  | upload
  | endpoint
  | rateLimit
  | logging
  | httpClient
  deriving DecidableEq, Repr, Inhabited

namespace Category

def all : List Category :=
  [.secret, .dependency, .configuration, .upload, .endpoint, .rateLimit, .logging, .httpClient]

def rank : Category → Nat
  | .secret => 0
  | .dependency => 1
  | .configuration => 2
  | .upload => 3
  | .endpoint => 4
  | .rateLimit => 5
  | .logging => 6
  | .httpClient => 7

instance : Ord Category := ⟨fun a b => compare a.rank b.rank⟩

def name : Category → String
  | .secret => "secret"
  | .dependency => "dependency"
  | .configuration => "configuration"
  | .upload => "upload"
  | .endpoint => "endpoint"
  | .rateLimit => "rate_limit"
  | .logging => "logging"
  | .httpClient => "http_client"

def ofName? (text : String) : Option Category := all.find? fun c => c.name == text

end Category

end WebAudit
