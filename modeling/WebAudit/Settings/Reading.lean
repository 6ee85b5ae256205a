import WebAudit.Settings.Basic
import WebAudit.Settings.Setting

/-!
Reading a tree of settings. Every value is checked for its type; the first one
that does not fit decides, in the order of the names. What the tree does not
hold keeps its default, and names that mean nothing are passed over.
-/

namespace WebAudit

inductive Misfit where
  | type (found expected : String)
  | value (found expected : String)
  | length (found : Nat) (expected : String)
  | unknownName (found : String) (known : List String)
  | missing (field : String)
  deriving DecidableEq, Repr, Inhabited

def Misfit.message : Misfit → String
  | .type found expected => s!"invalid type: found {found}, expected {expected}"
  | .value found expected => s!"invalid value {found}, expected {expected}"
  | .length found expected => s!"invalid length {found}, expected {expected}"
  | .unknownName found known =>
    let names := Text.join ", " (known.map fun name => s!"`{name}`")
    s!"unknown variant: found `{found}`, expected `one of {names}`"
  | .missing field => s!"missing field `{field}`"

structure SettingFault where
  path : SettingPath
  cause : Misfit
  deriving DecidableEq, Repr, Inhabited

abbrev Reading (α : Type) := Except SettingFault α

namespace Reading

def fail {α : Type} (cause : Misfit) : Reading α := .error ⟨[], cause⟩

/-- A result of reading something one step further down. -/
def below {α : Type} (step : SettingStep) (r : Reading α) : Reading α :=
  r.mapError fun fault => { fault with path := step :: fault.path }

def mistyped {α : Type} (s : Setting) (expected : String) : Reading α :=
  fail (.type s.describe expected)

def natural (typeName : String) : Setting → Reading Nat
  | .unsigned n => .ok n
  | .signed n =>
    if 0 ≤ n then .ok n.toNat else fail (.value (Setting.signed n).describe typeName)
  | s => mistyped s typeName

def number : Setting → Reading Number.Binary
  | .float x => .ok x
  | .signed n => .ok (.ofInt .double n)
  | .unsigned n => .ok (.ofNat .double n)
  | s => mistyped s "f64"

def switch : Setting → Reading Bool
  | .flag b => .ok b
  | s => mistyped s "a boolean"

def text : Setting → Reading String
  | .text s => .ok s
  | .letter c => .ok (String.singleton c)
  | s => mistyped s "a string"

/-- The items of a list from a position on. -/
def itemsFrom {α : Type} (read : Setting → Reading α) (i : Nat) : List Setting → Reading (List α)
  | [] => .ok []
  | s :: rest => do
    let v ← below (.index i) (read s)
    let more ← itemsFrom read (i + 1) rest
    return v :: more

def list {α : Type} (read : Setting → Reading α) : Setting → Reading (List α)
  | .list items => itemsFrom read 0 items
  | s => mistyped s "a sequence"

/-- The entry of a map whose name comes first. -/
def leastEntry? : List (String × Setting) → Option (String × Setting)
  | [] => none
  | (name, v) :: rest =>
    match leastEntry? rest with
    | some (other, w) => if compare other name == .lt then some (other, w) else some (name, v)
    | none => some (name, v)

/-- One of some values that go by names. A map stands for the value of its first
name, which has no contents that could be given. -/
def named {α : Type} (typeName : String) (all : List α) (nameOf : α → String) :
    Setting → Reading α
  | .text s =>
    match all.find? fun a => nameOf a == s with
    | some a => .ok a
    | none => fail (.unknownName s (all.map nameOf))
  | .map entries =>
    match leastEntry? entries with
    | none => fail (.type "map" "enum")
    | some (name, v) =>
      below (.name name)
        (if (all.map nameOf).contains name then mistyped v "unit"
        else fail (.unknownName name (all.map nameOf)))
  | s => mistyped s ("enum " ++ typeName)

def severity : Setting → Reading Severity := named "Severity" Severity.all Severity.name

def category : Setting → Reading Category := named "FindingCategory" Category.all Category.name

/-- A field of a record: its name, how a value is read, and how one is put into
the record and got back. -/
structure Slot (α : Type) where
  name : String
  Value : Type
  read : Setting → Reading Value
  store : Value → α → α
  get : α → Value

/-- The value of a slot: what is given for it, or what it holds. -/
def Slot.value {α : Type} (s : Slot α) (entries : List (String × Setting)) (base : α) :
    Reading s.Value :=
  match entries.lookup s.name with
  | some v => below (.name s.name) (s.read v)
  | none => .ok (s.get base)

/-- Puts the entries of a map into the slots of a record. -/
def fromEntries {α : Type} (entries : List (String × Setting)) :
    List (Slot α) → α → Reading α
  | [], record => .ok record
  | s :: rest, record => do fromEntries entries rest (s.store (← s.value entries record) record)

/-- Puts items, counted from a position, into the slots of a record one after
the other. -/
def fromItems {α : Type} (i : Nat) : List Setting → List (Slot α) → α → Reading α
  | v :: items, s :: slots, record => do
    fromItems (i + 1) items slots (s.store (← below (.index i) (s.read v)) record)
  | _, _, record => .ok record

def slotLe {α : Type} (s t : Slot α) : Bool := compare s.name t.name != .gt

/-- A record with the given slots. A map gives them by name, a list gives them in
their order; the others keep what they hold. -/
def record {α : Type} (typeName : String) (slots : List (Slot α)) (base : α) :
    Setting → Reading α
  | .map entries => fromEntries entries (slots.mergeSort slotLe) base
  | .list items => fromItems 0 items slots base
  | s => mistyped s ("struct " ++ typeName)

def scanSlots : List (Slot ScanSettings) :=
  [⟨"parallelism", Nat, natural "usize", fun v r => { r with parallelism := v }, (·.parallelism)⟩,
    ⟨"ignore_file", String, text, fun v r => { r with ignoreFile := v }, (·.ignoreFile)⟩,
    ⟨"ignore_patterns", List String, list text, fun v r => { r with ignorePatterns := v },
      (·.ignorePatterns)⟩,
    ⟨"max_file_bytes", Nat, natural "u64", fun v r => { r with maxFileBytes := v },
      (·.maxFileBytes)⟩,
    ⟨"include_dev_dependencies", Bool, switch, fun v r => { r with includeDevDependencies := v },
      (·.includeDevDependencies)⟩]

def scan : Setting → Reading ScanSettings := record "ScanConfig" scanSlots {}

def secretSlots : List (Slot SecretSettings) :=
  [⟨"entropy_scan", Bool, switch, fun v r => { r with entropyScan := v }, (·.entropyScan)⟩,
    ⟨"entropy_threshold", Number.Binary, number, fun v r => { r with entropyThreshold := v },
      (·.entropyThreshold)⟩,
    ⟨"entropy_min_length", Nat, natural "usize", fun v r => { r with entropyMinLength := v },
      (·.entropyMinLength)⟩,
    ⟨"aws_secret_min_distinct", Nat, natural "usize",
      fun v r => { r with awsSecretMinDistinct := v }, (·.awsSecretMinDistinct)⟩]

def secrets : Setting → Reading SecretSettings := record "SecretsConfig" secretSlots {}

def lookupSlots : List (Slot LookupSettings) :=
  [⟨"enabled", Bool, switch, fun v r => { r with enabled := v }, (·.enabled)⟩,
    ⟨"osv_url", String, text, fun v r => { r with osvUrl := v }, (·.osvUrl)⟩,
    ⟨"batch_size", Nat, natural "usize", fun v r => { r with batchSize := v }, (·.batchSize)⟩,
    ⟨"timeout_secs", Nat, natural "u64", fun v r => { r with timeoutSecs := v }, (·.timeoutSecs)⟩,
    ⟨"details_concurrency", Nat, natural "usize", fun v r => { r with detailsConcurrency := v },
      (·.detailsConcurrency)⟩]

def dependencies : Setting → Reading LookupSettings := record "DependencyConfig" lookupSlots {}

structure WidenDraft where
  category : Option Category := none
  kind : Option String := none
  floor : Option Severity := none

/-- The fields of a rule that lowers the floor, each there or not. -/
def draftSlots : List (Slot WidenDraft) :=
  [⟨"category", Option Category, fun v => (category v).map some,
      fun v r => { r with category := v }, (·.category)⟩,
    ⟨"kind", Option String, fun v => (text v).map some, fun v r => { r with kind := v }, (·.kind)⟩,
    ⟨"floor", Option Severity, fun v => (severity v).map some, fun v r => { r with floor := v },
      (·.floor)⟩]

def draft : Setting → Reading WidenDraft := record "WidenRule" draftSlots {}

/-- A rule that lowers the floor. Category and floor have to be there. -/
def widenRule (s : Setting) : Reading WidenRule := do
  let d ← draft s
  let absent (name : String) (position : Nat) : Misfit :=
    match s with
    | .list _ => .length position "struct WidenRule with 3 elements"
    | _ => .missing name
  match d.category, d.floor with
  | some category, some floor => return ⟨category, d.kind, floor⟩
  | none, _ => fail (absent "category" 0)
  | _, none => fail (absent "floor" 2)

def policySlots : List (Slot Policy) :=
  [⟨"threshold", Severity, severity, fun v r => { r with threshold := v }, (·.threshold)⟩,
    ⟨"widen", List WidenRule, list widenRule, fun v r => { r with widen := v }, (·.widen)⟩,
    ⟨"exit_threshold", Severity, severity, fun v r => { r with exitThreshold := v },
      (·.exitThreshold)⟩,
    ⟨"exit_exempt_categories", List Category, list category,
      fun v r => { r with exitExempt := v }, (·.exitExempt)⟩]

def policy : Setting → Reading Policy := record "PolicyConfig" policySlots {}

def detectorSlots : List (Slot DetectorSwitches) :=
  [⟨"secrets", Bool, switch, fun v r => { r with secrets := v }, (·.secrets)⟩,
    ⟨"configuration", Bool, switch, fun v r => { r with configuration := v }, (·.configuration)⟩,
    ⟨"upload", Bool, switch, fun v r => { r with upload := v }, (·.upload)⟩,
    ⟨"endpoint", Bool, switch, fun v r => { r with endpoint := v }, (·.endpoint)⟩,
    ⟨"rate_limit", Bool, switch, fun v r => { r with rateLimit := v }, (·.rateLimit)⟩,
    ⟨"http_client", Bool, switch, fun v r => { r with httpClient := v }, (·.httpClient)⟩,
    ⟨"logging", Bool, switch, fun v r => { r with logging := v }, (·.logging)⟩,
    ⟨"gitignore", Bool, switch, fun v r => { r with gitignore := v }, (·.gitignore)⟩]

def detectors : Setting → Reading DetectorSwitches := record "DetectorToggles" detectorSlots {}

def partSlots : List (Slot Settings) :=
  [⟨"scan", ScanSettings, scan, fun v r => { r with scan := v }, (·.scan)⟩,
    ⟨"secrets", SecretSettings, secrets, fun v r => { r with secrets := v }, (·.secrets)⟩,
    ⟨"dependencies", LookupSettings, dependencies, fun v r => { r with dependencies := v },
      (·.dependencies)⟩,
    ⟨"policy", Policy, policy, fun v r => { r with policy := v }, (·.policy)⟩,
    ⟨"detectors", DetectorSwitches, detectors, fun v r => { r with detectors := v },
      (·.detectors)⟩]

def settings : Setting → Reading Settings := record "ShipguardConfig" partSlots {}

end Reading

end WebAudit
