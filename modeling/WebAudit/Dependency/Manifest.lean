import WebAudit.Dependency.Requirements
import WebAudit.Dependency.Version
import WebAudit.Json.Reader

/-!
Dependency manifests, recognised by their file names.
-/

namespace WebAudit

inductive ManifestKind where
  | packageJson
  | requirements
  deriving DecidableEq, Repr, Inhabited

/-- The kind of manifest that a path names. -/
def ManifestKind.ofPath? (path : Path) : Option ManifestKind :=
  match path.fileName? with
  | some "package.json" => some .packageJson
  | some "requirements.txt" => some .requirements
  | _ => none

structure ManifestError where
  file : Path
  cause : Json.ReadError
  deriving DecidableEq, Repr, Inhabited

def ManifestError.message (e : ManifestError) : String :=
  s!"manifest parse error for '{e.file.text}': {e.cause.message}"

namespace PackageJson

/-- The sections that declare dependencies, in order of precedence, and whether
they are for development only. -/
def sections : List (String × Bool) :=
  [("dependencies", false), ("optionalDependencies", false), ("peerDependencies", false),
    ("devDependencies", true)]

def members (root : Json) (name : String) : List (String × Json) :=
  match root.member? name with
  | some (.object members) => members
  | _ => []

def entry (manifest : Path) (isDev : Bool) (name : String) (spec : Json) : Dependency :=
  let raw := (spec.string?).getD "*"
  let version := normalizeVersion raw
  { name := name
    version := version.getD raw
    ecosystem := .npm
    manifest := manifest
    isDev := isDev
    unsupported := version.isNone }

/-- Adds the dependencies of a section whose names are new. -/
def addSection (manifest : Path) (root : Json) (found : List Dependency) (sectionDev : String × Bool) :
    List Dependency :=
  let (name, isDev) := sectionDev
  let fresh := (members root name).filter fun (key, _) => !found.any fun d => d.name == key
  found ++ fresh.map fun (key, spec) => entry manifest isDev key spec

/-- The dependencies of a document; a name in several sections counts in the
first. -/
def ofJson (manifest : Path) (root : Json) : List Dependency :=
  sections.foldl (addSection manifest root) []

def parse (content : String) (manifest : Path) : Except ManifestError (List Dependency) :=
  match Json.parse content with
  | .ok root => .ok (ofJson manifest root)
  | .error e => .error ⟨manifest, e⟩

end PackageJson

/-- The dependencies of a manifest; a file of another name declares none. -/
def parseManifest (path : Path) (content : String) : Except ManifestError (List Dependency) :=
  match ManifestKind.ofPath? path with
  | some .packageJson => PackageJson.parse content path
  | some .requirements => .ok (Requirements.parse content path)
  | none => .ok []

/-- The dependencies of the manifests among the given files, in file order. A
manifest that cannot be read or is malformed is passed over. -/
def collectDependencies (read : Path → Option String) (files : List Path) (includeDev : Bool) :
    List Dependency :=
  files.flatMap fun path =>
    match ManifestKind.ofPath? path, read path with
    | some _, some content =>
      match parseManifest path content with
      | .ok ds => ds.filter fun d => includeDev || !d.isDev
      | .error _ => []
    | _, _ => []

end WebAudit
