import WebAudit.Command.Arguments
import WebAudit.Command.Machine
import WebAudit.Report.Suggestion
import WebAudit.Scan
import WebAudit.Settings.Rendering

/-!
What the commands do. A run is a function of the machine and the arguments; it
gives what is printed, the exit status, and what changes among the files.
-/

namespace WebAudit

inductive Effect where
  | makeDirectories (path : Path)
  | write (path : Path) (text : String)
  deriving DecidableEq, Repr, Inhabited

def Effect.apply (files : Entry) : Effect → Except FileFault Entry
  | .makeDirectories path => files.makeDirectories path
  | .write path text => files.write path text

inductive Ending where
  | finished (code : Nat)
  | failed (message : String)
  | version
  | help
  | refused
  deriving DecidableEq, Repr, Inhabited

structure Outcome where
  ending : Ending
  stdout : String := ""
  stderr : String := ""
  effects : List Effect := []
  deriving DecidableEq, Repr, Inhabited

namespace Outcome

def findingsCode : Nat := 1

def errorCode : Nat := 2

def code (o : Outcome) : Nat :=
  match o.ending with
  | .finished code => code
  | .failed _ | .refused => errorCode
  | .version | .help => 0

def failure (message : String) : Outcome :=
  { ending := .failed message, stderr := s!"error: {message}\n" }

def after (o : Outcome) (stderr : String) (effects : List Effect) : Outcome :=
  { o with stderr := stderr ++ o.stderr, effects := effects ++ o.effects }

end Outcome

namespace Machine

/-- The machine after some changes; those that fail change nothing. -/
def apply (m : Machine) (effects : List Effect) : Machine :=
  effects.foldl
    (fun m effect =>
      match effect.apply m.files with
      | .ok files => { m with files := files }
      | .error _ => m)
    m

def perform (m : Machine) (effect : Effect) : Except FileFault (Machine × List Effect) :=
  (effect.apply m.files).map fun files => ({ m with files := files }, [effect])

end Machine

namespace Command

def settingsFailure (e : SettingsError) : Outcome := .failure ("Configuration error: " ++ e.message)

def rendered (r : AuditReport) (json : Bool) (now : String) : String :=
  if json then (r.toJson now).pretty ++ "\n" else r.text

def advice (r : AuditReport) : String :=
  s!"\n{placeholderSuggestion (suggestionInput r.outcome.findings)}\n"

/-- The output of a report: a file or the standard output, with the advice after
it. If the standard output is a JSON document, it stays the only one. -/
def deliver (m : Machine) (request : ScanRequest) (r : AuditReport) : Outcome :=
  let text := rendered r request.json m.now
  let code := if r.outcome.shouldFail then Outcome.findingsCode else 0
  let note := if request.suggest then advice r else ""
  match request.output with
  | none =>
    if request.json then { ending := .finished code, stdout := text, stderr := note }
    else { ending := .finished code, stdout := text ++ note }
  | some path =>
    match m.perform (.write (m.locate path) text) with
    | .error e => .failure s!"cannot write report to '{path.text}': {e.message}"
    | .ok (_, effects) =>
      { ending := .finished code, stdout := note, stderr := s!"Report written to {path.text}\n",
        effects := effects }

def auditor (m : Machine) (request : ScanRequest) (settings : Settings) : Auditor :=
  { settings :=
      if request.noDeps then
        { settings with dependencies := { settings.dependencies with enabled := false } }
      else settings
    mode := if request.highOnly then .threshold else .all
    database := some (Client.database m.server settings.dependencies.batchSize) }

def runScan (m : Machine) (request : ScanRequest) : Outcome :=
  match m.canonical request.path with
  | .error e => .failure s!"cannot access scan root '{request.path.text}': {e.message}"
  | .ok root =>
    match m.settings (some root) request.config with
    | .error e => settingsFailure e
    | .ok settings =>
      match (auditor m request settings).scan m.files root with
      | .error e => .failure s!"scan error: {e.message}: {e.message}"
      | .ok report => deliver m request report

/-- Makes a file with the default settings, unless there is one. -/
def runInitialise (m : Machine) (workspace : Path) : Outcome :=
  let directory := Machine.settingsDirectory workspace
  let file := Machine.workspaceFile workspace
  match m.perform (.makeDirectories (m.locate directory)) with
  | .error e => .failure e.message
  | .ok (m, made) =>
    if m.has file then
      { ending := .finished 0, effects := made
        stdout := s!"Configuration file already exists at: {file.text}\n" }
    else
      let text := (({} : Settings).document?).getD ""
      match m.perform (.write (m.locate file) text) with
      | .error e => (Outcome.failure e.message).after "" made
      | .ok (_, written) =>
        { ending := .finished 0, effects := made ++ written
          stdout := s!"Created default configuration at: {file.text}\n" }

def runShow (m : Machine) (workspace : Path) (config : Option Path) : Outcome :=
  match m.settings (some workspace) config with
  | .error e => settingsFailure e
  | .ok settings =>
    match settings.document? with
    | some text => { ending := .finished 0, stdout := text }
    | none => .failure Settings.outOfRangeMessage

def run (m : Machine) : Command → Outcome
  | .scan request => runScan m request
  | .initialise workspace => runInitialise m workspace
  | .show workspace config => runShow m workspace config

end Command

namespace Invocation

/-- Runs a command after the directory for logs was made. If that fails, a
warning is printed and the run goes on. -/
def run (m : Machine) (i : Invocation) : Outcome :=
  match i.logDirectory with
  | none => i.command.run m
  | some path =>
    match m.perform (.makeDirectories (m.locate path)) with
    | .ok (m, made) => (i.command.run m).after "" made
    | .error e =>
      (i.command.run m).after
        s!"warning: cannot create log directory {path.text}: {e.message}\n" []

end Invocation

def versionLine : String := "shipguard 0.4.0\n"

def usage : String :=
  "Usage: shipguard [OPTIONS] <COMMAND>\n\nCommands:\n" ++
    "  scan    Scan a project directory\n" ++
    "  config  Manage configuration\n"

def Machine.run (m : Machine) (args : List String) : Outcome :=
  match Arguments.parse args with
  | .run invocation => invocation.run m
  | .version => { ending := .version, stdout := versionLine }
  | .help => { ending := .help, stdout := usage }
  | .refused => { ending := .refused, stderr := usage }

end WebAudit
