import WebAudit.Proofs.AdvisoryExchange

/-!
Batch sizes do not show. Dependencies are cut into batches by the resolution,
and the queries of each batch are cut again by the client; identifiers are
collected for each batch and their records shared out by place. Against a server
that gives each query the same identifiers wherever it stands, all of this comes
to the same as looking up one package after the other.
-/

namespace WebAudit

/-- A server that answers each query on its own: to every row of neighbours
among some queries it returns what a function gives for each of them. -/
def AdvisoryServer.Maps (server : AdvisoryServer) (ids : Query → List String)
    (queries : List Query) : Prop :=
  ∀ number chunk, chunk <:+: queries →
    ∃ status text, server.post number (Client.requestBody chunk) = .answer status text ∧
      ¬Client.IsFailure status ∧ Client.readAnswer text = .ok (chunk.map ids)

namespace AdvisoryServer

variable {server : AdvisoryServer} {ids : Query → List String} {queries : List Query}

/-- Such a server answers every chunk. -/
theorem Maps.answered (hmaps : server.Maps ids queries) (start : Nat)
    (chunks : List (List Query)) (hchunks : ∀ chunk ∈ chunks, chunk <:+: queries) :
    Client.Answered server start chunks (chunks.map (List.map ids)) := by
  induction chunks generalizing start with
  | nil => exact .nil start
  | cons chunk rest ih =>
      obtain ⟨hchunk, hrest⟩ := List.forall_mem_cons.mp hchunks
      obtain ⟨status, text, hreply, hstatus, hread⟩ := hmaps start chunk hchunk
      refine .cons ?_ (ih (start + 1) hrest)
      exact (Client.chunkIds_eq_ok_iff _ _ _).mpr
        ⟨status, text, hreply, hstatus, hread, List.length_map _⟩

/-- For neighbours among its queries it is a database that answers each query on
its own, whatever the size of the chunks. -/
theorem Maps.database_eq (hmaps : server.Maps ids queries) (chunkSize number : Nat)
    {asked : List Query} (hasked : asked <:+: queries) :
    Client.database server chunkSize number asked =
      Database.answering (fun q => (ids q).map (Client.fetch server)) number asked := by
  have hchunks : ∀ chunk ∈ Resolution.batches chunkSize asked, chunk <:+: queries := by
    intro chunk hchunk
    have hrow := List.infix_of_mem_flatten hchunk
    rw [Resolution.batches_flatten] at hrow
    exact hrow.trans hasked
  have hexchange := Client.exchange_of_answered (hmaps.answered 0 _ hchunks)
  have hids : ((Resolution.batches chunkSize asked).map (List.map ids)).flatten =
      asked.map ids := by
    rw [← List.map_flatten, Resolution.batches_flatten]
  rw [Client.database, hexchange, hids, List.map_map]
  rfl

end AdvisoryServer

namespace Resolution

/-- What is found about a package that is looked up alone, if a server has the
given identifiers for it. -/
def lookedUp (server : AdvisoryServer) (ids : Query → List String) (d : Dependency) : Finding :=
  finding d ((ids d.query).map (Client.fetch server))

/-- The supported dependencies, the first of each coordinate. -/
def firstSupported (ds : List Dependency) : List Dependency :=
  firstOfEach Dependency.query (ds.filter fun d => !d.unsupported)

theorem distinct_eq_firstSupported (ds : List Dependency) : distinct ds = firstSupported ds :=
  distinctFrom_eq_firstOfEachFrom [] ds

theorem resolve_of_maps {server : AdvisoryServer} {ids : Query → List String}
    {ds : List Dependency} (hmaps : server.Maps ids ((distinct ds).map Dependency.query))
    (batchSize chunkSize : Nat) :
    resolve (Client.database server chunkSize) batchSize ds =
      ⟨(distinct ds).map (lookedUp server ids), [], []⟩ := by
  have hagree : ∀ k queries, (calls batchSize ds)[k]? = some queries →
      Client.database server chunkSize k queries =
        Database.answering (fun q => (ids q).map (Client.fetch server)) k queries := by
    intro k queries hcall
    apply hmaps.database_eq
    rw [← calls_flatten batchSize ds]
    exact List.infix_of_mem_flatten (List.mem_of_getElem? hcall)
  rw [resolve_congr hagree, resolve_answering]
  rfl

/-- A dependency that is looked up is also looked up when it is alone. -/
theorem distinct_singleton {ds : List Dependency} {d : Dependency} (hmember : d ∈ distinct ds) :
    distinct [d] = [d] := by
  have hfirst := List.find?_some (find?_eq_of_mem_distinct hmember)
  have hsupported : d.unsupported = false := by simpa using hfirst
  simp [distinct, distinctFrom, hsupported]

/-- Against a server that answers each query on its own, neither the batch size
of the resolution nor that of the client shows in what is resolved: nothing
fails, and the findings are those of the first supported dependency of each
coordinate, each as if it were resolved alone. -/
theorem batch_sizes_unobservable (server : AdvisoryServer) (ids : Query → List String)
    (ds : List Dependency)
    (hmaps : server.Maps ids ((firstSupported ds).map Dependency.query)) :
    (∀ batchSize chunkSize, resolve (Client.database server chunkSize) batchSize ds =
      ⟨(firstSupported ds).map (lookedUp server ids), [], []⟩) ∧
    ∀ d ∈ firstSupported ds, ∀ batchSize chunkSize,
      resolve (Client.database server chunkSize) batchSize [d] =
        ⟨[lookedUp server ids d], [], []⟩ := by
  rw [← distinct_eq_firstSupported] at hmaps ⊢
  refine ⟨resolve_of_maps hmaps, ?_⟩
  intro d hd batchSize chunkSize
  have halone := distinct_singleton hd
  have hmaps' : server.Maps ids ((distinct [d]).map Dependency.query) := by
    intro number chunk hchunk
    apply hmaps number chunk
    rw [halone] at hchunk
    have hplace : [d.query] <:+: (distinct ds).map Dependency.query := by
      obtain ⟨before, after, hds⟩ := List.mem_iff_append.mp hd
      exact ⟨before.map Dependency.query, after.map Dependency.query, by simp [hds]⟩
    exact hchunk.trans hplace
  rw [resolve_of_maps hmaps', halone]
  rfl

end Resolution

namespace AdvisoryServer

def answerBody (ids : Query → List String) (chunk : List Query) : String :=
  (Json.object [("results", .array (chunk.map fun q => .object
    [("vulns", .array ((ids q).map fun id => .object [("id", .string id)]))]))]).compact

/-- All rows of neighbours among some queries. -/
def rows (queries : List Query) : List (List Query) := queries.tails.flatMap List.inits

theorem mem_rows {chunk queries : List Query} (hrow : chunk <:+: queries) :
    chunk ∈ rows queries := by
  obtain ⟨tail, hlead, htail⟩ := List.infix_iff_prefix_suffix.mp hrow
  rw [rows, List.mem_flatMap]
  exact ⟨tail, (List.mem_tails _ _).mpr htail, (List.mem_inits _ _).mpr hlead⟩

/-- A server that knows the answers for all rows of neighbours among some
queries, and has no records. -/
def knowing (ids : Query → List String) (queries : List Query) : AdvisoryServer where
  post _ text :=
    match (rows queries).find? fun chunk => Client.requestBody chunk == text with
    | some chunk => .answer 200 (answerBody ids chunk)
    | none => .answer 400 ""
  record _ := .answer 404 ""

end AdvisoryServer

namespace Resolution

def sharedRecords : List Dependency :=
  [⟨"lodash", "4.17.4", .npm, ⟨"package.json"⟩, false, false⟩,
    ⟨"lodash", "4.17.4", .npm, ⟨"web/package.json"⟩, true, false⟩,
    ⟨"react", "18.2.0", .npm, ⟨"web/package.json"⟩, false, false⟩]

def sharedQueries : List Query := (firstSupported sharedRecords).map Dependency.query

def knownIds (q : Query) : List String :=
  if q.name = "lodash" then ["GHSA-jf85-cpcp-j695", "GHSA-p6mc-m468-83gw"] else []

/-- The records are resolved alike in batches of all sizes. -/
theorem sharedRecords_batch_sizes :
    (AdvisoryServer.knowing knownIds sharedQueries).Maps knownIds sharedQueries ∧
      ∀ batchSize chunkSize,
        resolve (Client.database (.knowing knownIds sharedQueries) chunkSize) batchSize
            sharedRecords =
          ⟨(firstSupported sharedRecords).map
            (lookedUp (.knowing knownIds sharedQueries) knownIds), [], []⟩ := by
  have hmaps : (AdvisoryServer.knowing knownIds sharedQueries).Maps knownIds sharedQueries := by
    intro number chunk hchunk
    have hids : ∀ chunk ∈ AdvisoryServer.rows sharedQueries,
        Client.chunkIds chunk ((AdvisoryServer.knowing knownIds sharedQueries).post 0
          (Client.requestBody chunk)) = .ok (chunk.map knownIds) := by
      decide +kernel
    obtain ⟨status, text, hreply, hstatus, hread, -⟩ := (Client.chunkIds_eq_ok_iff _ _ _).mp
      (hids chunk (AdvisoryServer.mem_rows hchunk))
    exact ⟨status, text, hreply, hstatus, hread⟩
  exact ⟨hmaps, (batch_sizes_unobservable _ knownIds sharedRecords hmaps).1⟩

end Resolution

end WebAudit
