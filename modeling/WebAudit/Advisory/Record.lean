import WebAudit.Json.Value

/-!
Records of known vulnerabilities.
-/

namespace WebAudit

/-- A known vulnerability of a package version. The score is a base score of
single precision, when one could be derived; a range says in words which
versions are affected. -/
structure Advisory where
  id : String
  aliases : List String
  summary : String
  score : Option Number.Binary
  ranges : List String
  deriving DecidableEq, Repr, Inhabited

namespace Advisory

def bare (id : String) : Advisory := ⟨id, [], "", none, []⟩

def optional (name : String) (value : Option Json) : List (String × Json) :=
  value.toList.map fun v => (name, v)

def texts (name : String) (items : List String) : List (String × Json) :=
  if items.isEmpty then [] else [(name, .array (items.map .string))]

/-- The JSON form of a record; what is empty or unknown is left out, save the
summary. -/
def toJson (a : Advisory) : Json :=
  .object
    ([("id", .string a.id)] ++ texts "aliases" a.aliases ++ [("summary", .string a.summary)] ++
      optional "severity_score" (a.score.map fun s => .number (.single s)) ++
      texts "affected_ranges" a.ranges)

end Advisory

end WebAudit
