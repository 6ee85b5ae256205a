import WebAudit.Dependency.Manifest
import WebAudit.Detector.EnvCoverage
import WebAudit.Detector.RateLimit
import WebAudit.Detector.Registry
import WebAudit.Project.Discovery
import WebAudit.Report.Document

/-!
The audit of a project: which files are looked at, what the checks find in each
of them and in the project as a whole, and what an advisory database knows about
its dependencies. All of it is a function of the tree, the settings and the
answers of the database.
-/

namespace WebAudit

inductive ScanError where
  | notDirectory (root : Path)
  | invalidPattern (cause : InvalidPattern)
  deriving Repr, Inhabited

def ScanError.message : ScanError → String
  | .notDirectory root => s!"scan root '{root.text}' is not a directory"
  | .invalidPattern cause => cause.message

structure Auditor where
  settings : Settings := {}
  mode : ReportMode := .all
  database : Option Database := none

namespace Auditor

def rules (a : Auditor) (tree : Entry) (root : Path) : Except InvalidPattern RuleSet :=
  RuleSet.build root (tree.read? (root.join a.settings.scan.ignoreFile))
    a.settings.scan.ignorePatterns

/-- The text of a file that is small enough to be looked at. -/
def readable? (a : Auditor) (tree : Entry) (path : Path) : Option String :=
  match tree.content path with
  | .ok (.text s) =>
    if (Content.text s).size ≤ a.settings.scan.maxFileBytes then some s else none
  | _ => none

/-- The findings of the checks on each file that is looked at, in the order of
the files. -/
def fileFindings (a : Auditor) (tree : Entry) (root : Path) (technologies : Technologies)
    (files : List Path) : List (List Finding) :=
  let registry := Registry.ofSettings a.settings
  files.filterMap fun path =>
    (a.readable? tree path).map fun content =>
      registry.run
        { path := path, content := content, technologies := technologies, root := some root }

/-- The findings of the checks on the project as a whole. -/
def projectFindings (a : Auditor) (tree : Entry) (root : Path) (files : List Path)
    (dependencies : List Dependency) : List Finding :=
  (if a.settings.detectors.gitignore then EnvCoverage.check tree root else []) ++
    if a.settings.detectors.rateLimit then
      (RateLimit.assess? root tree.read? files dependencies).toList
    else []

/-- The database, unless lookups are switched off. -/
def activeDatabase? (a : Auditor) : Option Database :=
  if a.settings.dependencies.enabled then a.database else none

def resolution (a : Auditor) (dependencies : List Dependency) : Resolution :=
  match a.activeDatabase? with
  | some database => Resolution.resolve database a.settings.dependencies.batchSize dependencies
  | none => ⟨[], [], []⟩

/-- The query lists that the database is asked about, in order. -/
def calls (a : Auditor) (dependencies : List Dependency) : List (List Query) :=
  match a.activeDatabase? with
  | some _ => Resolution.calls a.settings.dependencies.batchSize dependencies
  | none => []

structure Inventory where
  files : List Path
  dependencies : List Dependency

def inventory (a : Auditor) (tree : Entry) (root : Path) : Except ScanError Inventory :=
  if tree.hasDirectory root then
    match a.rules tree root with
    | .error e => .error (.invalidPattern e)
    | .ok rules =>
      let files := Project.discover tree rules
      .ok ⟨files, collectDependencies tree.read? files a.settings.scan.includeDevDependencies⟩
  else .error (.notDirectory root)

def report (a : Auditor) (tree : Entry) (root : Path) (i : Inventory) : AuditReport :=
  let technologies := Technologies.ofDependencies i.dependencies
  let perFile := a.fileFindings tree root technologies i.files
  let resolved := a.resolution i.dependencies
  let found :=
    perFile.flatten ++ a.projectFindings tree root i.files i.dependencies ++ resolved.findings
  { root := root
    filesScanned := perFile.length
    technologies := technologies
    outcome := aggregate a.settings.policy a.mode found resolved.errors
    faults := resolved.faults }

def scan (a : Auditor) (tree : Entry) (root : Path) : Except ScanError AuditReport :=
  (a.inventory tree root).map (a.report tree root)

end Auditor

end WebAudit
