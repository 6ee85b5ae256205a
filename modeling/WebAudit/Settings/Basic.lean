import WebAudit.Json.Value
import WebAudit.Report.Policy

/-!
The settings of an audit, with their defaults.
-/

namespace WebAudit

structure ScanSettings where
  parallelism : Nat := 8
  ignoreFile : String := ".shipguardignore"
  ignorePatterns : List String := []
  maxFileBytes : Nat := 2097152
  includeDevDependencies : Bool := true
  deriving DecidableEq, Repr, Inhabited

/-- Four and a half bits, the entropy from which a token is suspicious. -/
def defaultEntropyThreshold : Number.Binary := Number.readDecimal .double false 45 (-1)

structure SecretSettings where
  entropyScan : Bool := true
  entropyThreshold : Number.Binary := defaultEntropyThreshold
  entropyMinLength : Nat := 20
  awsSecretMinDistinct : Nat := 10
  deriving DecidableEq, Repr, Inhabited

structure LookupSettings where
  enabled : Bool := true
  osvUrl : String := "https://api.osv.dev"
  batchSize : Nat := 1000
  timeoutSecs : Nat := 30
  detailsConcurrency : Nat := 8
  deriving DecidableEq, Repr, Inhabited

structure DetectorSwitches where
  secrets : Bool := true
  configuration : Bool := true
  upload : Bool := true
  endpoint : Bool := true
  rateLimit : Bool := true
  httpClient : Bool := true
  logging : Bool := true
  gitignore : Bool := true
  deriving DecidableEq, Repr, Inhabited

/-- Whether the check of a name is on; an unknown check is. -/
def DetectorSwitches.isEnabled (s : DetectorSwitches) (name : String) : Bool :=
  match name with
  | "secrets" => s.secrets
  | "configuration" => s.configuration
  | "upload" => s.upload
  | "endpoint" => s.endpoint
  | "rate_limit" => s.rateLimit
  | "http_client" => s.httpClient
  | "logging" => s.logging
  | "gitignore" => s.gitignore
  | _ => true

structure Settings where
  scan : ScanSettings := {}
  secrets : SecretSettings := {}
  dependencies : LookupSettings := {}
  policy : Policy := {}
  detectors : DetectorSwitches := {}
  deriving DecidableEq, Repr, Inhabited

def WidenRule.toJson (r : WidenRule) : Json :=
  .object
    ([("category", .string r.category.name)] ++ (r.kind.toList.map fun k => ("kind", .string k)) ++
      [("floor", .string r.floor.name)])

def Settings.toJson (s : Settings) : Json :=
  let nat (n : Nat) : Json := .number (.int n)
  .object
    [("scan", .object
        [("parallelism", nat s.scan.parallelism), ("ignore_file", .string s.scan.ignoreFile),
          ("ignore_patterns", .array (s.scan.ignorePatterns.map .string)),
          ("max_file_bytes", nat s.scan.maxFileBytes),
          ("include_dev_dependencies", .bool s.scan.includeDevDependencies)]),
      ("secrets", .object
        [("entropy_scan", .bool s.secrets.entropyScan),
          ("entropy_threshold", .number (.double s.secrets.entropyThreshold)),
          ("entropy_min_length", nat s.secrets.entropyMinLength),
          ("aws_secret_min_distinct", nat s.secrets.awsSecretMinDistinct)]),
      ("dependencies", .object
        [("enabled", .bool s.dependencies.enabled), ("osv_url", .string s.dependencies.osvUrl),
          ("batch_size", nat s.dependencies.batchSize),
          ("timeout_secs", nat s.dependencies.timeoutSecs),
          ("details_concurrency", nat s.dependencies.detailsConcurrency)]),
      ("policy", .object
        [("threshold", .string s.policy.threshold.name),
          ("widen", .array (s.policy.widen.map WidenRule.toJson)),
          ("exit_threshold", .string s.policy.exitThreshold.name),
          ("exit_exempt_categories", .array (s.policy.exitExempt.map fun c => .string c.name))]),
      ("detectors", .object
        [("secrets", .bool s.detectors.secrets), ("configuration", .bool s.detectors.configuration),
          ("upload", .bool s.detectors.upload), ("endpoint", .bool s.detectors.endpoint),
          ("rate_limit", .bool s.detectors.rateLimit),
          ("http_client", .bool s.detectors.httpClient), ("logging", .bool s.detectors.logging),
          ("gitignore", .bool s.detectors.gitignore)])]

end WebAudit
