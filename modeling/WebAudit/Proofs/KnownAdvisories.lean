import WebAudit.Proofs.BatchSizes

/-!
A known advisory is never passed over. Once an exchange with a server has
succeeded, each identifier that the server returned for a package has become a
record, be it only a bare one, and a package with a record is not clean,
whatever scores the records have. So the packages that come out clean are those
for which nothing was returned, and the requests for records have no part in
it.
-/

namespace WebAudit

namespace Client

/-- A successful exchange holds the records of what was returned for each query,
place by place. -/
theorem exchange_getElem? {server : AdvisoryServer} {size : Nat} {queries : List Query}
    {results : List (List Advisory)}
    (hresult : (exchange server size queries).result = .ok results) :
    results.length = queries.length ∧
      ∀ i, results[i]? = (returned? server size queries i).map fun own =>
        own.map (fetch server) := by
  rcases answered_or_firstRefusal server (Resolution.batches size queries) with
    ⟨answers, hanswered⟩ | ⟨k, chunk, e, hrefusal⟩
  · rw [exchange_of_answered hanswered] at hresult
    obtain rfl := Except.ok.inj hresult
    refine ⟨?_, fun i => ?_⟩
    · rw [List.length_map, hanswered.flatten_length, Resolution.batches_flatten]
    · rw [List.getElem?_map, hanswered.returned? i]
  · rw [exchange_of_refusal hrefusal] at hresult
    cases hresult

/-- What was returned for a query that an answered exchange asked about. -/
theorem exists_returned {server : AdvisoryServer} {size : Nat} {queries : List Query}
    {results : List (List Advisory)}
    (hresult : (exchange server size queries).result = .ok results) {i : Nat} {q : Query}
    (hplace : queries[i]? = some q) :
    ∃ ids, returned? server size queries i = some ids ∧
      results[i]? = some (ids.map (fetch server)) := by
  obtain ⟨hlength, hresults⟩ := exchange_getElem? hresult
  have hbound : i < results.length := by
    rw [hlength]
    exact (List.getElem?_eq_some_iff.mp hplace).1
  have hsome := List.getElem?_eq_getElem hbound
  rw [hresults i] at hsome
  obtain ⟨ids, hids, -⟩ := Option.map_eq_some_iff.mp hsome
  exact ⟨ids, hids, by rw [hresults i, hids, Option.map_some]⟩

end Client

namespace Resolution

/-- Each finding about a package that was looked up is built from a dependency
and its advisories. -/
theorem exists_of_mem_findings {database : Database} {size : Nat} {ds : List Dependency}
    {f : Finding} (hmember : f ∈ (resolve database size ds).findings) :
    ∃ d advisories, f = finding d advisories := by
  obtain ⟨k, batch, -, hf⟩ := (mem_resolve_findings_iff database size ds f).mp hmember
  rw [ofBatch] at hf
  rcases fits_or_failure batch.length (database k (batch.map Dependency.query)) with
    ⟨results, hfits⟩ | ⟨e, hfailure, -⟩
  · rw [ofAnswer_of_fits hfits, ← List.map_uncurry_zip_eq_zipWith, List.mem_map] at hf
    obtain ⟨⟨d, advisories⟩, -, rfl⟩ := hf
    exact ⟨d, advisories, rfl⟩
  · rw [ofAnswer_of_failure hfailure] at hf
    exact absurd hf List.not_mem_nil

/-- A finding about a package is clean exactly when its payload lists no
advisory. -/
theorem severity_eq_clean_iff_of_payload {database : Database} {size : Nat}
    {ds : List Dependency} {f : Finding} {report : DependencyReport}
    (hmember : f ∈ (resolve database size ds).findings)
    (hpayload : f.payload = .dependency report) :
    f.severity = .clean ↔ report.advisories = [] := by
  obtain ⟨d, advisories, rfl⟩ := exists_of_mem_findings hmember
  obtain rfl := Payload.dependency.inj hpayload
  exact finding_severity_eq_clean_iff d advisories

/-- The packages that come out clean are those for which the server returned no
identifier. This holds of the finding for any dependency and its results in a
successful exchange. It holds of a whole resolution, in which the server may be
another one for each batch and other batches may fail: a package of a batch
whose exchange succeeds has one finding, which is clean exactly when nothing was
returned at its place. -/
theorem clean_iff_nothing_returned :
    (∀ server size queries results,
      (Client.exchange server size queries).result = .ok results →
        ∀ i q, queries[i]? = some q → ∃ ids advisories,
          Client.returned? server size queries i = some ids ∧
          results[i]? = some advisories ∧
          ∀ d, (finding d advisories).severity = .clean ↔ ids = []) ∧
    ∀ (servers : Nat → AdvisoryServer) (chunkSize batchSize : Nat) (ds : List Dependency)
      (k place : Nat) (queries : List Query) (q : Query) (results : List (List Advisory)),
      (calls batchSize ds)[k]? = some queries → queries[place]? = some q →
      (Client.exchange (servers k) chunkSize queries).result = .ok results →
        let r := resolve (fun number => Client.database (servers number) chunkSize number)
          batchSize ds
        ∃ f ids, (r.findings ++ r.errors).filter (fun g => g.IsAbout q) = [f] ∧
          f ∈ r.findings ∧ Client.returned? (servers k) chunkSize queries place = some ids ∧
          (f.severity = .clean ↔ ids = []) := by
  constructor
  · intro server size queries results hresult i q hplace
    obtain ⟨ids, hids, hadvisories⟩ := Client.exists_returned hresult hplace
    refine ⟨ids, _, hids, hadvisories, fun d => ?_⟩
    rw [finding_severity_eq_clean_iff, List.map_eq_nil_iff]
  · intro servers chunkSize batchSize ds k place queries q results hcall hplace hresult r
    obtain ⟨ids, hids, hadvisories⟩ := Client.exists_returned hresult hplace
    obtain ⟨first, f, report, -, hfilter, hpayload, -, htold⟩ :=
      resolve_accountsFor (fun number => Client.database (servers number) chunkSize number)
        batchSize ds hcall hplace
    have hfits : Answer.Fits (Client.database (servers k) chunkSize k queries) queries.length
        results := ⟨hresult, (Client.exchange_getElem? hresult).1⟩
    rcases htold with ⟨results', ⟨hresult', -⟩, hreport, hf⟩ | ⟨hunfit, -⟩
    · obtain rfl : results = results' := Except.ok.inj (hresult.symm.trans hresult')
      refine ⟨f, ids, hfilter, hf, hids, ?_⟩
      obtain hsame := Option.some.inj (hadvisories.symm.trans hreport)
      rw [severity_eq_clean_iff_of_payload hf hpayload, ← hsame, List.map_eq_nil_iff]
    · exact absurd hfits (hunfit results)

/-- A server with two advisories for one of two packages. The record of the first
has scores that are no number and below zero; the second one has no record. -/
def hollowServer : AdvisoryServer :=
  { AdvisoryServer.knowing knownIds sharedQueries with
    record := fun id =>
      if id = "GHSA-jf85-cpcp-j695" then
        .answer 200 ("\x7b\"id\": \"GHSA-jf85-cpcp-j695\", \"severity\": [" ++
          "\x7b\"score\": \"CVSS:4.0/score:NaN\"\x7d, \x7b\"score\": \"score:-1\"\x7d]\x7d")
      else .answer 500 "" }

/-- Hollow records leave the vulnerable package with a severity, and the other
one is clean. -/
theorem hollowServer_not_clean :
    let r := resolve (fun number => Client.database hollowServer 1 number) 2 sharedRecords
    (∃ f ∈ r.findings, f.severity ≠ .clean) ∧ ∃ f ∈ r.findings, f.severity = .clean := by
  intro r
  have hcall : (calls 2 sharedRecords)[0]? = some sharedQueries := by decide +kernel
  have hok : (Client.exchange hollowServer 1 sharedQueries).result.isOk := by decide +kernel
  obtain ⟨results, hresult⟩ :
      ∃ results, (Client.exchange hollowServer 1 sharedQueries).result = .ok results := by
    cases hcase : (Client.exchange hollowServer 1 sharedQueries).result with
    | error e =>
        rw [hcase] at hok
        cases hok
    | ok results => exact ⟨results, rfl⟩
  have hfinding := fun place q hplace => clean_iff_nothing_returned.2 (fun _ => hollowServer) 1 2
    sharedRecords 0 place sharedQueries q results hcall hplace hresult
  constructor
  · obtain ⟨f, ids, -, hf, hids, hclean⟩ := hfinding 0 ⟨"lodash", .npm, "4.17.4"⟩ (by decide +kernel)
    have hreturned : Client.returned? hollowServer 1 sharedQueries 0 =
        some ["GHSA-jf85-cpcp-j695", "GHSA-p6mc-m468-83gw"] := by decide +kernel
    obtain rfl := Option.some.inj (hids.symm.trans hreturned)
    exact ⟨f, hf, fun h => List.cons_ne_nil _ _ (hclean.mp h)⟩
  · obtain ⟨f, ids, -, hf, hids, hclean⟩ := hfinding 1 ⟨"react", .npm, "18.2.0"⟩ (by decide +kernel)
    have hreturned : Client.returned? hollowServer 1 sharedQueries 1 = some [] := by
      decide +kernel
    obtain rfl := Option.some.inj (hids.symm.trans hreturned)
    exact ⟨f, hf, hclean.mpr rfl⟩

end Resolution

end WebAudit
