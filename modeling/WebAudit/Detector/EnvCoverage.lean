import WebAudit.Finding.Basic
import WebAudit.Ignore.Rule
import WebAudit.Project.Tree

/-!
Whether version control ignores the files with environment variables. This is a
check on the root of a project; it only looks at the ignore file and at which
files are there.
-/

namespace WebAudit.EnvCoverage

def variants : List String :=
  [".env", ".env.local", ".env.development.local", ".env.production.local", ".env.production",
    ".env.development"]

def missingKind : String := "Missing .gitignore"

def uncoveredKind : String := "Env Files Not Ignored"

/-- The kind of a finding about a file that is there and not ignored. -/
def trackedKind : String := "Env File Not Ignored"

/-- The rules of an ignore file; lines that are not well formed are passed
over. -/
def rulesOf (text : String) : List IgnoreRule :=
  (Text.lines text.toList).filterMap fun line =>
    match IgnoreRule.ofLine line with
    | .ok rule => rule
    | .error _ => none

def uncovered (rules : List IgnoreRule) : List String :=
  variants.filter fun name => !ignores rules (Text.bytes name.toList) false

def missingReport (root : Path) : Finding :=
  (Finding.new .configuration missingKind .low (.ofFile (root.join ".gitignore"))
      "No .gitignore found; env files and build output may be committed").withDetails
    ("Create a .gitignore covering at least: " ++ Text.join ", " variants)

def uncoveredReport (root : Path) (names : List String) : Finding :=
  ((Finding.new .configuration uncoveredKind .low (.ofFile (root.join ".gitignore"))
      (".gitignore does not cover: " ++ Text.join ", " names)).withDetails
    "Add `.env*` (and `!.env.example` if a template is committed)").withPayload
    (.pattern (Text.join "," names))

def trackedReport (root : Path) (name : String) : Finding :=
  Finding.new .configuration trackedKind .medium (.ofFile (root.join name))
    (name ++ " exists and is not excluded by .gitignore")

/-- The findings of a root: by the text of its ignore file, or none if it cannot
be read, and by the files that are there. -/
def assess (root : Path) (ignoreFile : Except FileFault String) (present : List String) :
    List Finding :=
  match ignoreFile with
  | .error .notFound => missingReport root :: present.map (trackedReport root)
  | .error _ => []
  | .ok text =>
    let exposed := uncovered (rulesOf text)
    (if exposed.isEmpty then [] else [uncoveredReport root exposed]) ++
      (present.filter exposed.contains).map (trackedReport root)

def check (tree : Entry) (root : Path) : List Finding :=
  assess root (tree.read (root.join ".gitignore"))
    (variants.filter fun name => tree.hasFile (root.join name))

end WebAudit.EnvCoverage
