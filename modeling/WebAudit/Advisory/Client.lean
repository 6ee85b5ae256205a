import WebAudit.Advisory.Database
import WebAudit.Advisory.Decoding
import WebAudit.Advisory.Resolution
import WebAudit.Json.Reader

/-!
The client of an advisory server. Queries are posted in chunks and answered
with advisory identifiers; the record of each identifier is then requested
once. A record that cannot be had is replaced by one with the identifier only.
-/

namespace WebAudit

inductive Reply where
  | answer (status : Nat) (body : String)
  | unreachable (reason : String)
  deriving DecidableEq, Repr, Inhabited

structure AdvisoryServer where
  post : Nat → String → Reply
  record : String → Reply

namespace AdvisoryServer

def offline : AdvisoryServer := ⟨fun _ _ => .unreachable "", fun _ => .unreachable ""⟩

end AdvisoryServer

namespace Client

def body : Reply → Except LookupError String
  | .answer status text => if 400 ≤ status && status < 600 then .error (.http status) else .ok text
  | .unreachable reason => .error (.network reason)

def queryJson (q : Query) : Json :=
  .object
    [("package", .object
        [("name", .string q.name), ("ecosystem", .string q.ecosystem.advisoryName)]),
      ("version", .string q.version)]

def requestBody (chunk : List Query) : String :=
  (Json.object [("queries", .array (chunk.map queryJson))]).compact

/-- The value of the only field that counts in a record. A record is an object,
which must not repeat the field, or a list of at most the value. -/
def fieldOf (name : String) : Json → Except LookupError (Option Json)
  | .object members =>
    match members.filter fun m => m.1 == name with
    | [] => .ok none
    | [(_, value)] => .ok (some value)
    | _ => .error (.decode s!"duplicate field `{name}`")
  | .array [] => .ok none
  | .array [value] => .ok (some value)
  | .array _ => .error (.decode "trailing characters")
  | _ => .error (.decode s!"invalid type, expected a record with `{name}`")

/-- The items of a field that holds a list; an absent one is the empty list. -/
def listField (name : String) (record : Json) : Except LookupError (List Json) := do
  match ← fieldOf name record with
  | none => .ok []
  | some (.array items) => .ok items
  | some _ => .error (.decode s!"invalid type, expected a list in `{name}`")

def referenceId (reference : Json) : Except LookupError String := do
  match ← fieldOf "id" reference with
  | some (.string id) => .ok id
  | some _ => .error (.decode "invalid type, expected a string in `id`")
  | none => .error (.decode "missing field `id`")

def readAnswer (text : String) : Except LookupError (List (List String)) := do
  let value ←
    match Json.read text with
    | .ok v => Except.ok v
    | .error e => .error (.decode e.message)
  (← listField "results" value).mapM fun result => do
    (← listField "vulns" result).mapM referenceId

/-- The identifiers that a reply gives for a chunk; it has to hold one list for
each query. -/
def chunkIds (chunk : List Query) (reply : Reply) : Except LookupError (List (List String)) := do
  let ids ← readAnswer (← body reply)
  if ids.length == chunk.length then .ok ids
  else .error (.integrity s!"OSV returned {ids.length} results for {chunk.length} queries")

def Reply.delivered : Reply → Bool
  | .answer .. => true
  | .unreachable _ => false

/-- The identifiers for all chunks from a number on, and the bodies that the
server received. The first failure ends the run. -/
def allIds (server : AdvisoryServer) (number : Nat) :
    List (List Query) → Except LookupError (List (List String)) × List String
  | [] => (.ok [], [])
  | chunk :: rest =>
    let text := requestBody chunk
    let reply := server.post number text
    let received := if Reply.delivered reply then [text] else []
    match chunkIds chunk reply with
    | .error e => (.error e, received)
    | .ok ids =>
      let (later, posts) := allIds server (number + 1) rest
      (later.map (ids ++ ·), received ++ posts)

/-- The record of an identifier, or one with the identifier only. -/
def fetch (server : AdvisoryServer) (id : String) : Advisory :=
  let record : Option Advisory :=
    match body (server.record id) with
    | .error _ => none
    | .ok text =>
      match Json.parse text with
      | .ok value => Advisory.ofJson? value
      | .error _ => none
  record.getD (.bare id)

/-- The records that were requested, each with its identifier, in the order of
arrival. -/
abbrev Arrivals := List (String × Advisory)

/-- The records of each query, looked up among those that arrived. -/
def assemble (arrived : Arrivals) (ids : List (List String)) : List (List Advisory) :=
  ids.map fun own => own.filterMap fun id => arrived.lookup id

/-- The distinct identifiers of all queries in the order of their texts. -/
def requestedIds (ids : List (List String)) : List String :=
  ids.flatten.eraseDups.mergeSort fun a b => compare a b != .gt

/-- What passed between client and server: the answer to the queries, the
bodies that the server received and the identifiers it was asked for. -/
structure Exchange where
  result : Except LookupError (List (List Advisory))
  posts : List String
  requests : List String

def exchange (server : AdvisoryServer) (chunkSize : Nat) (queries : List Query) : Exchange :=
  match allIds server 0 (Resolution.batches chunkSize queries) with
  | (.error e, posts) => ⟨.error e, posts, []⟩
  | (.ok ids, posts) =>
    let wanted := requestedIds ids
    ⟨.ok (assemble (wanted.map fun id => (id, fetch server id)) ids), posts,
      wanted.filter fun id => Reply.delivered (server.record id)⟩

def database (server : AdvisoryServer) (chunkSize : Nat) : Database :=
  fun _ queries => (exchange server chunkSize queries).result

end Client

end WebAudit
