import WebAudit.Advisory.Client
import WebAudit.Project.Tree
import WebAudit.Settings.Layers

/-!
The machine that a command runs on: its files, the working directory and the
environment, and where the settings of a run come from on it.
-/

namespace WebAudit

/-- What a command sees of the machine it runs on. Paths of the tree start at
the root of the file system. -/
structure Machine where
  files : Entry
  directory : Path
  environment : Environment := []
  server : AdvisoryServer := .offline
  now : String := ""

namespace Machine

/-- The path from the root for a path that may start at the working directory. -/
def locate (m : Machine) (path : Path) : Path := m.directory.join path.text

def canonical (m : Machine) (path : Path) : Except FileFault Path := do
  let _ ← m.files.lookup (m.locate path)
  let names ← m.files.resolve (m.locate path)
  return ⟨"/" ++ Text.join "/" names⟩

/-- A directory and the ones above it, from a path with a bounded number of
components on. -/
def ancestors : Nat → Path → List Path
  | 0, _ => []
  | fuel + 1, path => path :: (path.parent?.map (ancestors fuel)).getD []

/-- The file of a path. One that does not start at the root is looked for in the
working directory first and then in those above it. -/
def findFile? (m : Machine) (path : Path) : Option Path :=
  if path.isAbsolute then if m.files.hasFile path then some path else none
  else
    ((ancestors (m.directory.components.length + 1) m.directory).map (·.join path.text)).find?
      m.files.hasFile

/-- The components of a path as seen from a directory. -/
def componentsFrom : List Component → List Component → List Component
  | b :: base, c :: path =>
    if b == c then componentsFrom base path else (b :: base).map (fun _ => .up) ++ c :: path
  | base, path => base.map (fun _ => .up) ++ path

def componentText : Component → String
  | .root => ""
  | .here => "."
  | .up => ".."
  | .name s => s

/-- How messages show a path: as seen from the working directory, if that has
fewer components. -/
def shown (m : Machine) (path : Path) : Path :=
  let near := componentsFrom m.directory.components path.components
  if near.length < path.components.length then ⟨Text.join "/" (near.map componentText)⟩ else path

def fileLayer (m : Machine) (file : Path) : Except LayerFault Layer :=
  let shown := m.shown file
  match m.files.read file with
  | .error _ => .error ⟨shown, .notText⟩
  | .ok text =>
    match Toml.parse? text with
    | some entries => .ok ⟨.file shown, Setting.ofEntries entries⟩
    | none => .error ⟨shown, .malformed⟩

def valueOf? (m : Machine) (name : String) : Option String := m.environment.lookup name

def userFile? (m : Machine) : Option Path :=
  let base : Option Path :=
    match m.valueOf? "XDG_CONFIG_HOME" with
    | some dir => if (Path.mk dir).isAbsolute then some ⟨dir⟩ else none
    | none => none
  let base :=
    base.orElse fun _ =>
      (m.valueOf? "HOME").bind fun home =>
        if home.isEmpty then none else some ((Path.mk home).join ".config")
  base.map fun dir => dir.join "shipguard/config.toml"

def settingsDirectory (workspace : Path) : Path := workspace.join ".shipguard"

def workspaceFile (workspace : Path) : Path := (settingsDirectory workspace).join "config.toml"

def has (m : Machine) (path : Path) : Bool := m.files.hasAny (m.locate path)

/-- The files that settings are read from, the one that counts most last. -/
def settingsFiles (m : Machine) (workspace explicit : Option Path) : List Path :=
  (m.userFile?.toList ++ (workspace.map workspaceFile).toList ++ explicit.toList).filter m.has

/-- The faults of files that give no layer, the last one first, or all layers. -/
def collectLayers : List (Except LayerFault Layer) → Except (List LayerFault) (List Layer)
  | [] => .ok []
  | .ok layer :: rest => (collectLayers rest).map (layer :: ·)
  | .error fault :: rest =>
    match collectLayers rest with
    | .ok _ => .error [fault]
    | .error faults => .error (faults ++ [fault])

/-- The settings of a run: the defaults, under the file of the user, that of a
workspace, one that is named, and the environment. A file that is named has to
be there. -/
def settings (m : Machine) (workspace explicit : Option Path) : Except SettingsError Settings :=
  match explicit.filter fun path => !m.has path with
  | some path => .error (.missingFile path)
  | none =>
    let files := (m.settingsFiles workspace explicit).filterMap m.findFile?
    match collectLayers (files.map m.fileLayer) with
    | .error faults => .error (.unreadable faults)
    | .ok layers => Settings.ofLayers (layers ++ [⟨.environment, m.environment.settings⟩])

end Machine

end WebAudit
