import WebAudit.Finding.Basic

/-!
What an adviser is told about the findings of a report: a digest for each
category that occurs, with the number of findings and the first few of them.
-/

namespace WebAudit

structure CategoryDigest where
  total : Nat
  samples : List String
  deriving DecidableEq, Repr, Inhabited

namespace CategoryDigest

def sampleLimit : Nat := 5

def sample (f : Finding) : String :=
  s!"[{f.severity.name}] {f.location.text} {f.kind}"

def ofFindings (fs : List Finding) : CategoryDigest :=
  ⟨fs.length, (fs.take sampleLimit).map sample⟩

end CategoryDigest

/-- The digests of a list of findings in report order, for each category that
occurs. -/
def suggestionInput (fs : List Finding) : List (Category × CategoryDigest) :=
  (Category.all.map fun c => (c, CategoryDigest.ofFindings (fs.filter fun f => f.category == c))).filter
    fun entry => entry.2.total != 0

/-- The advice that is given while no adviser is configured. -/
def placeholderSuggestion (input : List (Category × CategoryDigest)) : String :=
  if input.isEmpty then "No findings to remediate."
  else "AI suggestions are unavailable: no suggestion provider is configured."

end WebAudit
