import WebAudit.Finding.Basic

/-!
The JSON form of findings. Members without a value are left out.
-/

namespace WebAudit

def Location.toJson : Location → Json
  | .file path line =>
    .object ([("type", .string "file"), ("path", .string path.text)] ++
      Advisory.optional "line" (line.map fun n => .number (.int n)))
  | .package name version =>
    .object [("type", .string "package"), ("name", .string name), ("version", .string version)]

def DependencyReport.members (r : DependencyReport) : List (String × Json) :=
  [("ecosystem", .string r.ecosystem), ("manifest", .string r.manifest.text)] ++
    (if r.advisories.isEmpty then []
      else [("vulnerabilities", .array (r.advisories.map Advisory.toJson))]) ++
    Advisory.optional "max_score" (r.maxScore.map fun s => .number (.single s)) ++
    [("max_severity", .string r.maxSeverity.name)] ++
    Advisory.optional "error" (r.error.map .string)

def Payload.toJson : Payload → Json
  | .empty => .object [("kind", .string "none")]
  | .pattern matched => .object [("kind", .string "pattern"), ("matched", .string matched)]
  | .entropy bits length =>
    .object [("kind", .string "entropy"), ("entropy", .number (.double bits)),
      ("length", .number (.int length))]
  | .dependency report => .object (("kind", .string "dependency") :: report.members)
  | .library name => .object [("kind", .string "library"), ("name", .string name)]
  | .endpoint keyword route =>
    .object [("kind", .string "endpoint"), ("keyword", .string keyword), ("route", .string route)]

def Finding.withPayloadJson (f : Finding) (payload : Json) : Json :=
  .object
    ([("id", .string f.id), ("category", .string f.category.name), ("kind", .string f.kind),
      ("severity", .string f.severity.name), ("location", f.location.toJson),
      ("message", .string f.message)] ++
      Advisory.optional "details" (f.details.map .string) ++ [("payload", payload)])

def Finding.toJson (f : Finding) : Json := f.withPayloadJson f.payload.toJson

end WebAudit
