import WebAudit.Advisory.Record
import WebAudit.Advisory.Score

/-!
Reading an advisory from the JSON of a vulnerability database.
-/

namespace WebAudit.Advisory

def textMember? (name : String) (v : Json) : Option String := (v.member? name).bind Json.string?

def itemsOf (name : String) (v : Json) : List Json := ((v.member? name).bind Json.items?).getD []

/-- The greatest of a list of scores. A score that is no number gives way to
any other. -/
def greatestScore? (scores : List Number.Binary) : Option Number.Binary :=
  scores.foldl (fun best s => some ((best.map (·.greater s)).getD s)) none

/-- The numeral of a component `score:X`, in any case of its letters. -/
def scoreComponent? (part : List Char) : Option Number.Binary :=
  (Text.after? "score:".toList (Text.lowerAscii part)).bind (Number.readNumeral? .single)

/-- The score that a vector carries in a component of its own. -/
def embeddedScore? (vector : String) : Option Number.Binary :=
  (Text.splitOn '/' vector.toList).findSome? scoreComponent?

def vectorScore? (vector : String) : Option Number.Binary :=
  match baseScore? vector with
  | some s => some s
  | none => embeddedScore? vector

def labelScore? (label : String) : Option Number.Binary :=
  let tenths : Option Nat :=
    match label.toUpper with
    | "CRITICAL" => some 95
    | "HIGH" => some 75
    | "MODERATE" => some 55
    | "MEDIUM" => some 55
    | "LOW" => some 25
    | _ => none
  tenths.map tenthsValue

/-- The child of a value under a name; `0` also names the first item of an
array. -/
def child? (v : Json) (name : String) : Option Json :=
  match v with
  | .array items => if name == "0" then items.head? else none
  | v => v.member? name

def descend? (v : Json) (names : List String) : Option Json := names.foldlM child? v

/-- The severity in words, of the advisory or of its first affected package. -/
def label? (v : Json) : Option String :=
  let whole := descend? v ["database_specific", "severity"]
  let first := descend? v ["affected", "0", "database_specific", "severity"]
  (whole.orElse fun _ => first).bind Json.string?

/-- The score of an advisory: the greatest among its vectors, or that of its
severity in words. -/
def score? (v : Json) : Option Number.Binary :=
  let vectors := (itemsOf "severity" v).filterMap (textMember? "score")
  match greatestScore? (vectors.filterMap vectorScore?) with
  | some s => some s
  | none => (label? v).bind labelScore?

/-- The version that ends a range in an event. -/
def endVersion? (event : Json) : Option String :=
  ((event.member? "fixed").orElse fun _ => event.member? "last_affected").bind Json.string?

structure Bounds where
  introduced : Option String := none
  fixed : Option String := none

/-- An event puts the versions that it names in the place of earlier ones. -/
def Bounds.read (bounds : Bounds) (event : Json) : Bounds where
  introduced := (textMember? "introduced" event).or bounds.introduced
  fixed := (endVersion? event).or bounds.fixed

def boundsOf (events : List Json) : Bounds := events.foldl Bounds.read {}

/-- A range in words. A range without start and end has none. -/
def describeRange? (range : Json) : Option String :=
  let kind := (textMember? "type" range).getD "UNSPECIFIED"
  match boundsOf (itemsOf "events" range) with
  | ⟨some start, some stop⟩ => some s!"{kind}: >= {start}, < {stop}"
  | ⟨some start, none⟩ => some s!"{kind}: >= {start}"
  | ⟨none, some stop⟩ => some s!"{kind}: < {stop}"
  | ⟨none, none⟩ => none

def affectedRanges (v : Json) : List String :=
  (itemsOf "affected" v).flatMap fun entry => (itemsOf "ranges" entry).filterMap describeRange?

/-- The advisory that a value describes; it needs an identifier. -/
def ofJson? (v : Json) : Option Advisory :=
  (textMember? "id" v).map fun id =>
    { id := id
      aliases := (itemsOf "aliases" v).filterMap Json.string?
      summary := (((v.member? "summary").orElse fun _ => v.member? "details").bind Json.string?).getD ""
      score := score? v
      ranges := affectedRanges v }

end WebAudit.Advisory
