import WebAudit.Project.Path
import WebAudit.Settings.Environment
import WebAudit.Settings.Reading

/-!
Settings in layers. Each layer is a tree with an origin; a later one is laid
over those before it, the result is read, and what is read has to make sense.
-/

namespace WebAudit

inductive Origin where
  | file (shown : Path)
  | environment
  deriving DecidableEq, Repr, Inhabited

namespace Origin

def text : Origin → String
  | .file shown => shown.text ++ " TOML file"
  | .environment => "`" ++ Environment.lead ++ "` environment variable(s)"

def keyText (o : Origin) (path : SettingPath) : String :=
  let joined := Text.join "." (path.map SettingStep.text)
  match o with
  | .file _ => "default." ++ joined
  | .environment => joined.toUpper

end Origin

structure Layer where
  origin : Origin
  entries : List (String × Setting)

def Layer.merged (layers : List Layer) : List (String × Setting) :=
  layers.foldl (fun found layer => Setting.overlayEntries found layer.entries) []

/-- The last layer that holds something at a path. -/
def Layer.holding? (layers : List Layer) (path : SettingPath) : Option Layer :=
  layers.reverse.find? fun layer => ((Setting.map layer.entries).get? path).isSome

inductive LayerCause where
  | malformed
  | notText
  deriving DecidableEq, Repr, Inhabited

structure LayerFault where
  file : Path
  cause : LayerCause
  deriving DecidableEq, Repr, Inhabited

def LayerFault.message (f : LayerFault) : String :=
  let cause :=
    match f.cause with
    | .malformed => "TOML parse error"
    | .notText => "stream did not contain valid UTF-8"
  s!"{cause}\n in {f.file.text} TOML file"

inductive SettingRule where
  | parallelism
  | batchSize
  | entropyThreshold
  deriving DecidableEq, Repr, Inhabited

def SettingRule.message : SettingRule → String
  | .parallelism => "scan.parallelism must be at least 1"
  | .batchSize => "dependencies.batch_size must be at least 1"
  | .entropyThreshold => "secrets.entropy_threshold must be positive"

inductive SettingsError where
  | missingFile (path : Path)
  | unreadable (faults : List LayerFault)
  | misfit (origin : Option Origin) (fault : SettingFault)
  | broken (rule : SettingRule)
  deriving DecidableEq, Repr, Inhabited

namespace SettingsError

def place (origin : Option Origin) (path : SettingPath) : String :=
  match origin with
  | none => ""
  | some o =>
    (if path.isEmpty then "" else " for key " ++ Text.inQuotes (o.keyText path)) ++
      " in " ++ o.text

def message (e : SettingsError) : String :=
  "configuration error: " ++
    match e with
    | .missingFile path => s!"config file '{path.text}' does not exist"
    | .unreadable faults => Text.join "\n" (faults.map LayerFault.message)
    | .misfit origin fault => fault.cause.message ++ place origin fault.path
    | .broken rule => rule.message

def isMalformed : SettingsError → Bool
  | .unreadable faults => faults.any fun f => f.cause == .malformed
  | _ => false

end SettingsError

namespace Settings

/-- The first rule that settings break. -/
def brokenRule? (s : Settings) : Option SettingRule :=
  if s.scan.parallelism == 0 then some .parallelism
  else if s.dependencies.batchSize == 0 then some .batchSize
  else if s.secrets.entropyThreshold.le (.zero .double) then some .entropyThreshold
  else none

/-- Settings that keep all rules. -/
def validate (s : Settings) : Except SettingsError Settings :=
  match s.brokenRule? with
  | some rule => .error (.broken rule)
  | none => .ok s

def ofLayers (layers : List Layer) : Except SettingsError Settings :=
  match Reading.settings (.map (Layer.merged layers)) with
  | .error fault =>
    .error (.misfit ((Layer.holding? layers fault.path).map Layer.origin) fault)
  | .ok s => s.validate

end Settings

end WebAudit
