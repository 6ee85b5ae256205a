import WebAudit.Settings.Basic
import WebAudit.Toml.Document

/-!
Settings as a TOML document: a table for each part, and one for each rule that
lowers the floor.
-/

namespace WebAudit

def WidenRule.entries (r : WidenRule) : List (String × Toml.Value) :=
  [("category", .string r.category.name)] ++
    (r.kind.toList.map fun kind => ("kind", .string kind)) ++
    [("floor", .string r.floor.name)]

namespace Settings

def naturalValue (n : Nat) : Toml.Value := .integer n

def scanEntries (s : ScanSettings) : List (String × Toml.Value) :=
  [("parallelism", naturalValue s.parallelism), ("ignore_file", .string s.ignoreFile),
    ("ignore_patterns", .array (s.ignorePatterns.map .string)),
    ("max_file_bytes", naturalValue s.maxFileBytes),
    ("include_dev_dependencies", .boolean s.includeDevDependencies)]

def secretEntries (s : SecretSettings) : List (String × Toml.Value) :=
  [("entropy_scan", .boolean s.entropyScan), ("entropy_threshold", .float s.entropyThreshold),
    ("entropy_min_length", naturalValue s.entropyMinLength),
    ("aws_secret_min_distinct", naturalValue s.awsSecretMinDistinct)]

def lookupEntries (s : LookupSettings) : List (String × Toml.Value) :=
  [("enabled", .boolean s.enabled), ("osv_url", .string s.osvUrl),
    ("batch_size", naturalValue s.batchSize), ("timeout_secs", naturalValue s.timeoutSecs),
    ("details_concurrency", naturalValue s.detailsConcurrency)]

/-- The keys of the policy in its own block. Without rules the list of rules is
one of them. -/
def policyEntries (p : Policy) : List (String × Toml.Value) :=
  [("threshold", .string p.threshold.name)] ++
    (if p.widen.isEmpty then [("widen", .array [])] else []) ++
    [("exit_threshold", .string p.exitThreshold.name),
      ("exit_exempt_categories", .array (p.exitExempt.map fun c => .string c.name))]

def detectorEntries (s : DetectorSwitches) : List (String × Toml.Value) :=
  [("secrets", .boolean s.secrets), ("configuration", .boolean s.configuration),
    ("upload", .boolean s.upload), ("endpoint", .boolean s.endpoint),
    ("rate_limit", .boolean s.rateLimit), ("http_client", .boolean s.httpClient),
    ("logging", .boolean s.logging), ("gitignore", .boolean s.gitignore)]

def policyBlocks (p : Policy) : List Toml.Block :=
  ⟨["policy"], false, policyEntries p⟩ ::
    p.widen.map fun rule => ⟨["policy", "widen"], true, rule.entries⟩

def blocks (s : Settings) : List Toml.Block :=
  [⟨["scan"], false, scanEntries s.scan⟩, ⟨["secrets"], false, secretEntries s.secrets⟩,
    ⟨["dependencies"], false, lookupEntries s.dependencies⟩] ++
    policyBlocks s.policy ++
    [⟨["detectors"], false, detectorEntries s.detectors⟩]

/-- The numbers of all settings that have to fit into a signed number of 64
bits. -/
def naturals (s : Settings) : List Nat :=
  [s.scan.parallelism, s.scan.maxFileBytes, s.secrets.entropyMinLength,
    s.secrets.awsSecretMinDistinct, s.dependencies.batchSize, s.dependencies.timeoutSecs,
    s.dependencies.detailsConcurrency]

def outOfRangeMessage : String := "out-of-range value for u64 type"

/-- The document of some settings, unless one of the numbers is too large. -/
def document? (s : Settings) : Option String :=
  if s.naturals.all fun n => n < Nat.pow 2 63 then some (Toml.Block.document s.blocks) else none

end Settings

end WebAudit
