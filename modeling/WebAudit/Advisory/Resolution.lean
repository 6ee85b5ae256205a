import WebAudit.Advisory.Database
import WebAudit.Advisory.Decoding
import WebAudit.Finding.Basic

/-!
Resolution of dependencies against an advisory database. Each package version
is looked up once, in batches; a batch either answers for all its packages or
fails for all of them.
-/

namespace WebAudit

structure IntegrityFault where
  batch : Nat
  expected : Nat
  actual : Option Nat
  message : String
  deriving DecidableEq, Repr, Inhabited

def IntegrityFault.toJson (f : IntegrityFault) : Json :=
  .object
    [("batch", .number (.int f.batch)), ("expected", .number (.int f.expected)),
      ("actual", (f.actual.map fun n => Json.number (.int n)).getD .null),
      ("message", .string f.message)]

structure Resolution where
  findings : List Finding
  errors : List Finding
  faults : List IntegrityFault
  deriving DecidableEq, Repr, Inhabited

namespace Resolution

def vulnerableKind : String := "Vulnerable Dependency"

def lookupFailedKind : String := "Dependency Lookup Failed"

/-- The worst score of a list of advisories and the severity of a package with
them. Without a positive score a package with advisories counts as medium. -/
def maxSeverity (advisories : List Advisory) : Option Number.Binary × Severity :=
  if advisories.isEmpty then (none, .clean)
  else
    let best := Advisory.greatestScore? (advisories.filterMap (·.score))
    match best with
    | some score =>
      if (Number.Binary.zero .single).lt score then (best, .ofScore score) else (best, .medium)
    | none => (none, .medium)

def message (d : Dependency) : List Advisory → String
  | [] => d.coordinate ++ " has no known vulnerabilities"
  | [a] => s!"{d.coordinate} has 1 known vulnerability ({a.id})"
  | advisories => s!"{d.coordinate} has {advisories.length} known vulnerabilities"

def finding (d : Dependency) (advisories : List Advisory) : Finding :=
  let (score, severity) := maxSeverity advisories
  ((Finding.new .dependency vulnerableKind severity (.package d.name d.version)
      (message d advisories)).withDetails "Upgrade to a patched release").withPayload
    (.dependency
      { ecosystem := d.ecosystem.name
        manifest := d.manifest
        advisories := advisories
        maxScore := score
        maxSeverity := severity
        error := none })

def errorFinding (e : LookupError) (d : Dependency) : Finding :=
  (Finding.new .dependency lookupFailedKind .clean (.package d.name d.version)
      s!"Could not check {d.coordinate} for vulnerabilities").withPayload
    (.dependency
      { ecosystem := d.ecosystem.name
        manifest := d.manifest
        advisories := []
        maxScore := none
        maxSeverity := .clean
        error := some e.message })

/-- What a run asks: the queries in order, for each of them the place of the
first dependency with it, and which place a query has among the queries. -/
structure Plan where
  queries : List Query := []
  origin : List Nat := []
  positions : List (Query × Nat) := []

/-- A dependency, with its place, adds its query unless it cannot be looked up or
one before it has the same query. -/
def Plan.add (plan : Plan) (record : Dependency × Nat) : Plan :=
  let query := record.1.query
  if record.1.unsupported then plan
  else if (plan.positions.lookup query).isSome then plan
  else
    { queries := plan.queries ++ [query]
      origin := plan.origin ++ [record.2]
      positions := (query, plan.queries.length) :: plan.positions }

def Plan.ofDependencies (ds : List Dependency) : Plan := ds.zipIdx.foldl add {}

/-- A list cut into pieces of a given size; the last may be shorter. The number
of pieces is bounded by `fuel`. -/
def cut {α : Type} (size : Nat) : Nat → List α → List (List α)
  | 0, _ => []
  | fuel + 1, xs => if xs.isEmpty then [] else xs.take size :: cut size fuel (xs.drop size)

/-- A list in batches of a size of at least one. -/
def batches {α : Type} (size : Nat) (xs : List α) : List (List α) := cut (max size 1) xs.length xs

/-- What the answer to a batch of some length says about its dependencies. -/
def ofAnswer (batch expected : Nat) (ds : List Dependency) :
    Except LookupError (List (List Advisory)) → Resolution
  | .ok results =>
    if results.length == expected then ⟨List.zipWith finding ds results, [], []⟩
    else
      let text := s!"expected {expected} results, received {results.length}"
      ⟨[], ds.map (errorFinding (.integrity text)),
        [⟨batch, expected, some results.length, text⟩]⟩
  | .error e =>
    let faults :=
      match e with
      | .integrity text => [⟨batch, expected, none, text⟩]
      | _ => []
    ⟨[], ds.map (errorFinding e), faults⟩

def append (a b : Resolution) : Resolution :=
  ⟨a.findings ++ b.findings, a.errors ++ b.errors, a.faults ++ b.faults⟩

structure Run where
  outcome : Resolution := ⟨[], [], []⟩
  calls : List (List Query) := []

/-- One call: the queries of a batch, with the places of their dependencies and
the number of the batch. -/
def Run.call (database : Database) (ds : List Dependency) (run : Run)
    (batch : (List Query × List Nat) × Nat) : Run :=
  let queries := batch.1.1
  let records := batch.1.2.filterMap fun place => ds[place]?
  { outcome := run.outcome.append
      (ofAnswer batch.2 queries.length records (database batch.2 queries))
    calls := run.calls ++ [queries] }

/-- The run over a list of dependencies, with the given batch size. Queries and
places are cut into batches alike. -/
def run (database : Database) (batchSize : Nat) (ds : List Dependency) : Run :=
  let plan := Plan.ofDependencies ds
  ((batches batchSize plan.queries).zip (batches batchSize plan.origin)).zipIdx.foldl
    (Run.call database ds) {}

def resolve (database : Database) (batchSize : Nat) (ds : List Dependency) : Resolution :=
  (run database batchSize ds).outcome

/-- The query lists of the calls that a run makes, whatever it is answered. -/
def calls (batchSize : Nat) (ds : List Dependency) : List (List Query) :=
  batches batchSize (Plan.ofDependencies ds).queries

end Resolution

end WebAudit
