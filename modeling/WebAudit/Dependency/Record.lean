import WebAudit.Project.Path

/-!
Dependencies as a manifest declares them.
-/

namespace WebAudit

inductive Ecosystem where
  | npm
  | pypi
  deriving DecidableEq, Repr, Inhabited

namespace Ecosystem

def name : Ecosystem → String
  | .npm => "npm"
  | .pypi => "pypi"

/-- The name under which an advisory database knows a registry. -/
def advisoryName : Ecosystem → String
  | .npm => "npm"
  | .pypi => "PyPI"

end Ecosystem

/-- One declared dependency. The version is the one to look up, or the text of
the declaration when it names no version of the registry. -/
structure Dependency where
  name : String
  version : String
  ecosystem : Ecosystem
  manifest : Path
  isDev : Bool
  unsupported : Bool
  deriving DecidableEq, Repr, Inhabited

def Dependency.coordinate (d : Dependency) : String := d.name ++ "@" ++ d.version

end WebAudit
