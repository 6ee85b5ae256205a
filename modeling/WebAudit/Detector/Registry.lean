import WebAudit.Detector.Configuration
import WebAudit.Detector.Endpoint
import WebAudit.Detector.HttpClient
import WebAudit.Detector.Logging
import WebAudit.Detector.Secrets
import WebAudit.Detector.Upload

/-!
The checks that run on each file, under names, in the order in which they run.
-/

namespace WebAudit

structure Detector where
  name : String
  detect : FileContext → List Finding

/-- The checks that this library has, in their order. -/
def Detector.builtin (settings : Settings) : List Detector :=
  [⟨"secrets", Secrets.detect settings.secrets⟩,
    ⟨"configuration", Configuration.detect⟩,
    ⟨"upload", Upload.detect⟩,
    ⟨"endpoint", Endpoint.detect⟩,
    ⟨"http_client", HttpClient.detect⟩,
    ⟨"logging", Logging.detect⟩]

structure Registry where
  detectors : List Detector := []

namespace Registry

def empty : Registry := {}

/-- Adds a check at the end, in place of one of its name. -/
def register (r : Registry) (d : Detector) : Registry :=
  ⟨r.detectors.filter (fun e => e.name != d.name) ++ [d]⟩

def ofSettings (settings : Settings) : Registry :=
  ((Detector.builtin settings).filter fun d => settings.detectors.isEnabled d.name).foldl
    register empty

def get? (r : Registry) (name : String) : Option Detector :=
  r.detectors.find? fun d => d.name == name

def names (r : Registry) : List String := r.detectors.map Detector.name

def size (r : Registry) : Nat := r.detectors.length

def isEmpty (r : Registry) : Bool := r.detectors.isEmpty

def run (r : Registry) (ctx : FileContext) : List Finding :=
  r.detectors.flatMap fun d => d.detect ctx

end Registry

end WebAudit
