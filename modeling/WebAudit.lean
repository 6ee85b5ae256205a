import WebAudit.Advisory.Client
import WebAudit.Advisory.Database
import WebAudit.Advisory.Decoding
import WebAudit.Advisory.Record
import WebAudit.Advisory.Resolution
import WebAudit.Advisory.Score
import WebAudit.Command.Arguments
import WebAudit.Command.Machine
import WebAudit.Command.Run
import WebAudit.Dependency.Manifest
import WebAudit.Dependency.Record
import WebAudit.Dependency.Requirements
import WebAudit.Dependency.Technologies
import WebAudit.Dependency.Version
import WebAudit.Detector.Configuration
import WebAudit.Detector.Context
import WebAudit.Detector.Endpoint
import WebAudit.Detector.EnvCoverage
import WebAudit.Detector.HttpClient
import WebAudit.Detector.Logging
import WebAudit.Detector.RateLimit
import WebAudit.Detector.Registry
import WebAudit.Detector.Secrets
import WebAudit.Detector.Upload
import WebAudit.Digest.Sha256
import WebAudit.Finding.Basic
import WebAudit.Finding.Category
import WebAudit.Finding.Encoding
import WebAudit.Finding.Order
import WebAudit.Finding.Severity
import WebAudit.Ignore.Glob
import WebAudit.Ignore.Rule
import WebAudit.Ignore.RuleSet
import WebAudit.Json.Reader
import WebAudit.Json.Value
import WebAudit.Main
import WebAudit.Number.Binary
import WebAudit.Number.Decimal
import WebAudit.Project.Discovery
import WebAudit.Project.Path
import WebAudit.Project.Tree
import WebAudit.Proofs.Aggregation
import WebAudit.Proofs.Deduplication
import WebAudit.Proofs.FirstOfEach
import WebAudit.Proofs.ReportOrder
import WebAudit.Proofs.Resolution
import WebAudit.Proofs.ResolutionRun
import WebAudit.Proofs.Summary
import WebAudit.Proofs.Threshold
import WebAudit.Report.Aggregate
import WebAudit.Report.Document
import WebAudit.Report.Policy
import WebAudit.Report.Suggestion
import WebAudit.Report.Summary
import WebAudit.Report.Timestamp
import WebAudit.Scan
import WebAudit.Script.Call
import WebAudit.Script.Grammar.Basic
import WebAudit.Script.Grammar.Declaration
import WebAudit.Script.Grammar.Element
import WebAudit.Script.Grammar.Expression
import WebAudit.Script.Grammar.Literal
import WebAudit.Script.Grammar.Member
import WebAudit.Script.Grammar.Signature
import WebAudit.Script.Grammar.Statement
import WebAudit.Script.Grammar.Type
import WebAudit.Script.Language
import WebAudit.Script.Lexeme
import WebAudit.Script.Parse
import WebAudit.Script.Semicolon
import WebAudit.Script.Tree
import WebAudit.Script.Walk
import WebAudit.Settings.Basic
import WebAudit.Settings.Environment
import WebAudit.Settings.Inline
import WebAudit.Settings.Layers
import WebAudit.Settings.Reading
import WebAudit.Settings.Rendering
import WebAudit.Settings.Setting
import WebAudit.Text.Basic
import WebAudit.Text.Entropy
import WebAudit.Text.Escaped
import WebAudit.Text.Lowercase
import WebAudit.Text.Pattern
import WebAudit.Text.WordClass
import WebAudit.Toml.Document
import WebAudit.Toml.Quoted
import WebAudit.Toml.Scalar
import WebAudit.Toml.Statement
import WebAudit.Toml.Table
import WebAudit.Toml.Value
import WebAudit.Yaml.Document
import WebAudit.Yaml.Event
import WebAudit.Yaml.Scalar
import WebAudit.Yaml.Scan
import WebAudit.Yaml.Token
import WebAudit.Proofs.Accounting
import WebAudit.Proofs.BatchFailure
import WebAudit.Proofs.Composition
import WebAudit.Proofs.Discovery
import WebAudit.Proofs.AdvisoryExchange
import WebAudit.Proofs.BatchSizes
import WebAudit.Proofs.FileChange
import WebAudit.Proofs.RequestTimeouts
import WebAudit.Proofs.HiddenFiles
import WebAudit.Proofs.KnownAdvisories
import WebAudit.Proofs.MonotoneReports
import WebAudit.Proofs.NamedEntries
import WebAudit.Proofs.SettingTrees
import WebAudit.Proofs.TomlTables
import WebAudit.Proofs.RecordReading
import WebAudit.Proofs.SettingLeaves
import WebAudit.Proofs.LayeredSettings
import WebAudit.Proofs.QuotedText
import WebAudit.Proofs.TomlValues
import WebAudit.Proofs.TomlDocuments
import WebAudit.Proofs.ShownSettings
import WebAudit.Proofs.RepeatedKeys
import WebAudit.Proofs.Merging
import WebAudit.Proofs.NumberOrder
import WebAudit.Proofs.PackageSeverity
import WebAudit.Proofs.FindingIdentity
import WebAudit.Proofs.PackageSections
import WebAudit.Proofs.TextCuts
import WebAudit.Proofs.SensitiveRoutes
import WebAudit.Proofs.PinnedRequirements
import WebAudit.Proofs.RequirementLists
import WebAudit.Proofs.VersionTexts
import WebAudit.Proofs.DeclaredVersions
import WebAudit.Proofs.DeclaredRanges
import WebAudit.Proofs.DocumentPlaces
import WebAudit.Proofs.WildcardOrigins
import WebAudit.Proofs.KeyLines
import WebAudit.Proofs.SecretLines
import WebAudit.Proofs.SecretSearch
import WebAudit.Proofs.PatternSearch
import WebAudit.Proofs.AccessKeys
import WebAudit.Proofs.DistinctFindings
import WebAudit.Proofs.TreeWalk
import WebAudit.Proofs.ReaderBounds
import WebAudit.Proofs.ExpressionBounds
import WebAudit.Proofs.ScriptBounds
import WebAudit.Proofs.FindingLines
import WebAudit.Proofs.OpenRequests
import WebAudit.Proofs.GlobEndings
import WebAudit.Proofs.IgnoreRules
import WebAudit.Proofs.LayeredRules
import WebAudit.Proofs.EnvFileCoverage
import WebAudit.Proofs.FileRoutes
import WebAudit.Proofs.VectorMetrics
import WebAudit.Proofs.ScoreRange
import WebAudit.Proofs.AffectedRanges
import WebAudit.Proofs.RelativePaths
import WebAudit.Proofs.RouteEvidence
import WebAudit.Proofs.JsonTexts
import WebAudit.Proofs.SeparatedFindings
import WebAudit.Proofs.CursorWalk
import WebAudit.Proofs.Registration
import WebAudit.Proofs.TypedSources
import WebAudit.Proofs.DecisiveSegments
