import Mathlib.Data.List.Forall2
import Mathlib.Data.List.Perm.Basic
import WebAudit.Proofs.Resolution

/-!
What a resolution owes to its queries. The packages to look up are cut into
batches, and each batch is one call. The answer to a call settles its whole
batch: if there is a list of advisories for each query, every package has a
finding with the list at its place, and else every package has an error. So
whatever the database answers, each package that is looked up is accounted for
once, in the order of the queries.
-/

namespace WebAudit

def Payload.ecosystem? : Payload → Option String
  | .dependency report => some report.ecosystem
  | _ => none

instance (f : Finding) (q : Query) : Decidable (f.IsAbout q) :=
  decidable_of_iff
    (f.location = .package q.name q.version ∧ f.payload.ecosystem? = some q.ecosystem.name)
    (by cases hpayload : f.payload <;> simp [Finding.IsAbout, Payload.ecosystem?, hpayload])

/-- What a database answers to one call. -/
abbrev Answer := Except LookupError (List (List Advisory))

/-- Whether an answer has one list of advisories for each of some queries. -/
def Answer.Fits (answer : Answer) (expected : Nat) (results : List (List Advisory)) : Prop :=
  answer = .ok results ∧ results.length = expected

namespace Resolution

section Batches

variable {α : Type}

private theorem cut_getElem? (size fuel : Nat) (items : List α) (hsize : 0 < size)
    (hfuel : items.length ≤ fuel) (k : Nat) :
    (cut size fuel items)[k]? =
      if k * size < items.length then some ((items.drop (k * size)).take size) else none := by
  induction fuel generalizing items k with
  | zero =>
      obtain rfl : items = [] := List.length_eq_zero_iff.mp (by omega)
      simp [cut]
  | succ fuel ih =>
      cases items with
      | nil => simp [cut]
      | cons a rest =>
          simp only [cut, List.isEmpty_cons, Bool.false_eq_true, if_false]
          cases k with
          | zero => simp
          | succ k =>
              have hrest : ((a :: rest).drop size).length ≤ fuel := by
                simp only [List.length_drop, List.length_cons] at hfuel ⊢
                omega
              have hnext : k * size < ((a :: rest).drop size).length ↔
                  (k + 1) * size < (a :: rest).length := by
                rw [List.length_drop, Nat.succ_mul]
                omega
              rw [List.getElem?_cons_succ, ih _ hrest, List.drop_drop, if_congr hnext rfl rfl,
                Nat.succ_mul, Nat.add_comm size]

/-- The batch of a number starts where the ones before it end. -/
theorem batches_getElem? (size : Nat) (items : List α) (hsize : 1 ≤ size) (k : Nat) :
    (batches size items)[k]? =
      if k * size < items.length then some ((items.drop (k * size)).take size) else none := by
  have hmax : max size 1 = size := by omega
  rw [batches, hmax]
  exact cut_getElem? size items.length items hsize (Nat.le_refl _) k

/-- No batch is empty, and all are full but for the last one. -/
theorem batches_length (size : Nat) (items : List α) (hsize : 1 ≤ size) {k : Nat}
    {batch : List α} (hbatch : (batches size items)[k]? = some batch) :
    1 ≤ batch.length ∧ batch.length ≤ size ∧
      (k + 1 < (batches size items).length → batch.length = size) := by
  rw [batches_getElem? size items hsize] at hbatch
  split at hbatch
  · rename_i hstart
    obtain rfl := Option.some.inj hbatch
    rw [List.length_take, List.length_drop]
    refine ⟨by omega, by omega, ?_⟩
    intro hlater
    have hnext := List.getElem?_eq_getElem hlater
    rw [batches_getElem? size items hsize] at hnext
    split at hnext
    · rename_i hfull
      rw [Nat.succ_mul] at hfull
      omega
    · cases hnext
  · cases hbatch

end Batches

def ofBatch (database : Database) (batch : List Dependency × Nat) : Resolution :=
  ofAnswer batch.2 batch.1.length batch.1 (database batch.2 (batch.1.map Dependency.query))

/-- A run over batches is put together from what each one gives on its own. -/
theorem ofBatches_eq (database : Database) (start : Nat) (pieces : List (List Dependency)) :
    ofBatches database start pieces =
      ⟨(pieces.zipIdx start).flatMap fun b => (ofBatch database b).findings,
        (pieces.zipIdx start).flatMap fun b => (ofBatch database b).errors,
        (pieces.zipIdx start).flatMap fun b => (ofBatch database b).faults⟩ := by
  induction pieces generalizing start with
  | nil => rfl
  | cons ds rest ih =>
      rw [ofBatches, ih, List.zipIdx_cons]
      rfl

/-- Why nothing is known about the packages of a batch. -/
def failure? (expected : Nat) : Answer → Option LookupError
  | .ok results =>
    if results.length = expected then none
    else some (.integrity s!"expected {expected} results, received {results.length}")
  | .error e => some e

def fault? (batch expected : Nat) : Answer → Option IntegrityFault
  | .ok results =>
    if results.length = expected then none
    else
      some ⟨batch, expected, some results.length,
        s!"expected {expected} results, received {results.length}"⟩
  | .error (.integrity text) => some ⟨batch, expected, none, text⟩
  | .error _ => none

theorem ofAnswer_of_fits {batch : Nat} {ds : List Dependency} {answer : Answer}
    {results : List (List Advisory)} (hfits : answer.Fits ds.length results) :
    ofAnswer batch ds.length ds answer = ⟨List.zipWith finding ds results, [], []⟩ := by
  obtain ⟨rfl, hlength⟩ := hfits
  simp [ofAnswer, hlength]

theorem ofAnswer_of_failure {batch : Nat} {ds : List Dependency} {answer : Answer}
    {e : LookupError} (hfailure : failure? ds.length answer = some e) :
    ofAnswer batch ds.length ds answer =
      ⟨[], ds.map (errorFinding e), (fault? batch ds.length answer).toList⟩ := by
  cases answer with
  | ok results =>
      simp only [failure?] at hfailure
      split at hfailure
      · cases hfailure
      · rename_i hlength
        obtain rfl := Option.some.inj hfailure
        simp [ofAnswer, fault?, hlength]
  | error cause =>
      obtain rfl := Option.some.inj hfailure
      cases cause <;> rfl

/-- An answer fits or fails, and then the batch is settled as a whole. -/
theorem fits_or_failure (expected : Nat) (answer : Answer) :
    (∃ results, answer.Fits expected results) ∨
      (∃ e, failure? expected answer = some e ∧
        ∀ results, ¬ answer.Fits expected results) := by
  cases answer with
  | ok results =>
      by_cases hlength : results.length = expected
      · exact Or.inl ⟨results, rfl, hlength⟩
      · refine Or.inr ⟨_, if_neg hlength, ?_⟩
        rintro _ ⟨⟨⟩, hfits⟩
        exact hlength hfits
  | error e =>
      refine Or.inr ⟨e, rfl, ?_⟩
      rintro _ ⟨⟨⟩, -⟩

/-- The share-out of some queries by a resolution: each is answered or failed,
and findings and errors are about them one by one, in their order. -/
structure Settles (r : Resolution) (queries answered failed : List Query) : Prop where
  findings_about : List.Forall₂ Finding.IsAbout r.findings answered
  errors_about : List.Forall₂ Finding.IsAbout r.errors failed
  answered_sublist : answered.Sublist queries
  failed_sublist : failed.Sublist queries
  perm : (answered ++ failed).Perm queries

theorem forall₂_zipWith_finding {ds : List Dependency} {results : List (List Advisory)}
    (hlength : results.length = ds.length) :
    List.Forall₂ Finding.IsAbout (List.zipWith finding ds results)
      (ds.map Dependency.query) := by
  induction ds generalizing results with
  | nil => simp
  | cons d rest ih =>
      cases results with
      | nil => simp at hlength
      | cons advisories more =>
          simp only [List.length_cons, Nat.add_right_cancel_iff] at hlength
          exact List.Forall₂.cons (finding_isAbout d advisories) (ih hlength)

theorem errorFinding_isAbout (e : LookupError) (d : Dependency) :
    (errorFinding e d).IsAbout d.query :=
  ⟨rfl, _, rfl, rfl⟩

theorem forall₂_map_errorFinding (e : LookupError) (ds : List Dependency) :
    List.Forall₂ Finding.IsAbout (ds.map (errorFinding e)) (ds.map Dependency.query) := by
  rw [List.forall₂_map_left_iff, List.forall₂_map_right_iff, List.forall₂_same]
  exact fun d _ => errorFinding_isAbout e d

/-- One batch settles its queries: all are answered or all failed. -/
theorem ofAnswer_settles (batch : Nat) (ds : List Dependency) (answer : Answer) :
    ∃ answered failed,
      (ofAnswer batch ds.length ds answer).Settles (ds.map Dependency.query) answered failed := by
  rcases fits_or_failure ds.length answer with ⟨results, hfits⟩ | ⟨e, hfailure, -⟩
  · refine ⟨ds.map Dependency.query, [], ?_⟩
    rw [ofAnswer_of_fits hfits]
    exact ⟨forall₂_zipWith_finding hfits.2, List.Forall₂.nil, List.Sublist.refl _,
      List.nil_sublist _, by simp⟩
  · refine ⟨[], ds.map Dependency.query, ?_⟩
    rw [ofAnswer_of_failure hfailure]
    exact ⟨List.Forall₂.nil, forall₂_map_errorFinding e ds, List.nil_sublist _,
      List.Sublist.refl _, List.Perm.refl _⟩

theorem Settles.append {a b : Resolution} {qs qs' answered answered' failed failed' : List Query}
    (ha : a.Settles qs answered failed) (hb : b.Settles qs' answered' failed') :
    (a.append b).Settles (qs ++ qs') (answered ++ answered') (failed ++ failed') where
  findings_about := List.rel_append ha.findings_about hb.findings_about
  errors_about := List.rel_append ha.errors_about hb.errors_about
  answered_sublist := ha.answered_sublist.append hb.answered_sublist
  failed_sublist := ha.failed_sublist.append hb.failed_sublist
  perm := by
    have hswap : (answered ++ answered' ++ (failed ++ failed')).Perm
        ((answered ++ failed) ++ (answered' ++ failed')) := by
      simp only [List.append_assoc]
      apply List.Perm.append_left
      rw [← List.append_assoc, ← List.append_assoc]
      exact List.perm_append_comm.append_right failed'
    exact hswap.trans (ha.perm.append hb.perm)

/-- A run over batches settles the queries of all of them. -/
theorem ofBatches_settles (database : Database) (start : Nat)
    (pieces : List (List Dependency)) :
    ∃ answered failed,
      (ofBatches database start pieces).Settles (pieces.flatten.map Dependency.query)
        answered failed := by
  induction pieces generalizing start with
  | nil => exact ⟨[], [], ⟨.nil, .nil, .slnil, .slnil, .nil⟩⟩
  | cons ds rest ih =>
      obtain ⟨answered, failed, hfirst⟩ :=
        ofAnswer_settles start ds (database start (ds.map Dependency.query))
      obtain ⟨answered', failed', hrest⟩ := ih (start + 1)
      refine ⟨answered ++ answered', failed ++ failed', ?_⟩
      rw [List.flatten_cons, List.map_append]
      exact hfirst.append hrest

theorem calls_flatten (size : Nat) (ds : List Dependency) :
    (calls size ds).flatten = (distinct ds).map Dependency.query := by
  rw [calls_eq, ← List.map_flatten, batches_flatten]

theorem resolve_settles (database : Database) (size : Nat) (ds : List Dependency) :
    ∃ answered failed,
      (resolve database size ds).Settles (calls size ds).flatten answered failed := by
  rw [calls_flatten, ← batches_flatten size (distinct ds), resolve_eq]
  exact ofBatches_settles database 0 _

/-- What is looked up: each coordinate of a supported dependency once, in the
order in which they first occur. -/
theorem distinct_queries (ds : List Dependency) :
    (distinct ds).map Dependency.query =
      ((ds.filter fun d => !d.unsupported).map Dependency.query).eraseDups := by
  rw [distinct, distinctFrom_eq_firstOfEachFrom, map_key_firstOfEachFrom]
  simp

theorem calls_flatten_nodup (size : Nat) (ds : List Dependency) :
    (calls size ds).flatten.Nodup := by
  rw [calls_flatten, distinct, distinctFrom_eq_firstOfEachFrom]
  exact firstOfEachFrom_keys_nodup Dependency.query [] _

/-- A dependency that is looked up is the first supported one of its
coordinate. -/
theorem find?_eq_of_mem_distinct {ds : List Dependency} {d : Dependency}
    (hmember : d ∈ distinct ds) :
    ds.find? (fun e => !e.unsupported && e.query == d.query) = some d := by
  rw [distinct, distinctFrom_eq_firstOfEachFrom] at hmember
  have hfirst := find?_eq_of_mem_firstOfEachFrom Dependency.query [] _ hmember
  rw [List.find?_filter] at hfirst
  rw [← hfirst]
  congr 1
  funext e
  rw [Bool.eq_iff_iff]
  simp

/-- Findings about different packages: filtering by one of them leaves one. -/
theorem exists_filter_isAbout {fs : List Finding} {queries : List Query} {q : Query}
    (habout : List.Forall₂ Finding.IsAbout fs queries) (hnodup : queries.Nodup)
    (hmember : q ∈ queries) : ∃ f, fs.filter (fun f => f.IsAbout q) = [f] := by
  have hother : ∀ {gs : List Finding} {rest : List Query},
      List.Forall₂ Finding.IsAbout gs rest → q ∉ rest →
        gs.filter (fun f => f.IsAbout q) = [] := by
    intro gs rest hgs habsent
    induction hgs with
    | nil => rfl
    | cons hg _ ih =>
        obtain ⟨hne, habsent⟩ := List.ne_and_not_mem_of_not_mem_cons habsent
        rw [List.filter_cons_of_neg (by simpa using fun hq => hne (Finding.IsAbout.unique hq hg)),
          ih habsent]
  induction habout with
  | nil => simp at hmember
  | @cons f p _ rest hf hrest ih =>
      obtain ⟨hfresh, hnodup⟩ := List.nodup_cons.mp hnodup
      by_cases hq : q = p
      · subst hq
        exact ⟨f, by rw [List.filter_cons_of_pos (by simpa using hf), hother hrest hfresh]⟩
      · have hlater : q ∈ rest := (List.mem_cons.mp hmember).resolve_left hq
        rw [List.filter_cons_of_neg (by simpa using fun hf' => hq (Finding.IsAbout.unique hf' hf))]
        exact ih hnodup hlater

/-- Each query has one finding among the findings and errors of a run. -/
theorem exists_filter_resolve (database : Database) (size : Nat) (ds : List Dependency)
    {q : Query} (hasked : q ∈ (calls size ds).flatten) :
    ∃ f, ((resolve database size ds).findings ++ (resolve database size ds).errors).filter
      (fun f => f.IsAbout q) = [f] := by
  obtain ⟨answered, failed, hsettles⟩ := resolve_settles database size ds
  apply exists_filter_isAbout (List.rel_append hsettles.findings_about hsettles.errors_about)
  · exact hsettles.perm.nodup_iff.mpr (calls_flatten_nodup size ds)
  · exact hsettles.perm.mem_iff.mpr hasked

/-- A call is the list of queries of a batch. -/
theorem exists_batch_of_call {size : Nat} {ds : List Dependency} {k : Nat}
    {queries : List Query} (hcall : (calls size ds)[k]? = some queries) :
    ∃ batch, (batches size (distinct ds))[k]? = some batch ∧
      batch.map Dependency.query = queries := by
  simpa [calls_eq, List.getElem?_map] using hcall

theorem call_of_mem_zipIdx {size : Nat} {ds : List Dependency} {b : List Dependency × Nat}
    (hmember : b ∈ (batches size (distinct ds)).zipIdx) :
    (calls size ds)[b.2]? = some (b.1.map Dependency.query) := by
  rw [calls_eq, List.getElem?_map, List.mem_zipIdx_iff_getElem?.mp hmember]
  rfl

private theorem mem_flatMap_zipIdx_iff (pieces : List (List Dependency))
    (given : List Dependency × Nat → List Finding) (f : Finding) :
    f ∈ pieces.zipIdx.flatMap given ↔
      ∃ k batch, pieces[k]? = some batch ∧ f ∈ given (batch, k) := by
  simp only [List.mem_flatMap, List.mem_zipIdx_iff_getElem?, Prod.exists]
  exact exists_comm

theorem mem_resolve_findings_iff (database : Database) (size : Nat) (ds : List Dependency)
    (f : Finding) :
    f ∈ (resolve database size ds).findings ↔
      ∃ k batch, (batches size (distinct ds))[k]? = some batch ∧
        f ∈ (ofBatch database (batch, k)).findings := by
  rw [resolve_eq, ofBatches_eq]
  exact mem_flatMap_zipIdx_iff _ _ f

theorem mem_resolve_errors_iff (database : Database) (size : Nat) (ds : List Dependency)
    (f : Finding) :
    f ∈ (resolve database size ds).errors ↔
      ∃ k batch, (batches size (distinct ds))[k]? = some batch ∧
        f ∈ (ofBatch database (batch, k)).errors := by
  rw [resolve_eq, ofBatches_eq]
  exact mem_flatMap_zipIdx_iff _ _ f

/-- What is told about the query at a place of a call: there is one finding
about its package, with the manifest of the first record of the coordinate. If
the answer fits, it is among the findings and has the advisories at the place;
if not, it is among the errors. -/
def AccountsFor (r : Resolution) (ds : List Dependency) (queries : List Query)
    (answer : Answer) (place : Nat) (q : Query) : Prop :=
  ∃ first f report,
    ds.find? (fun d => !d.unsupported && d.query == q) = some first ∧
    (r.findings ++ r.errors).filter (fun g => g.IsAbout q) = [f] ∧
    f.payload = .dependency report ∧ report.manifest = first.manifest ∧
    ((∃ results, answer.Fits queries.length results ∧
        results[place]? = some report.advisories ∧ f ∈ r.findings) ∨
      ((∀ results, ¬ answer.Fits queries.length results) ∧ f ∈ r.errors))

/-- The finding about a dependency is the only one about its query. -/
private theorem filter_eq_of_mem {database : Database} {size : Nat} {ds : List Dependency}
    {q : Query} {f : Finding} (hasked : q ∈ (calls size ds).flatten) (habout : f.IsAbout q)
    (hmember : f ∈ (resolve database size ds).findings ∨
      f ∈ (resolve database size ds).errors) :
    ((resolve database size ds).findings ++ (resolve database size ds).errors).filter
      (fun g => g.IsAbout q) = [f] := by
  obtain ⟨g, hfilter⟩ := exists_filter_resolve database size ds hasked
  have hf : f ∈ [g] := by
    rw [← hfilter, List.mem_filter]
    exact ⟨List.mem_append.mpr hmember, decide_eq_true habout⟩
  rw [hfilter, List.mem_singleton.mp hf]

theorem resolve_accountsFor (database : Database) (size : Nat) (ds : List Dependency)
    {k place : Nat} {queries : List Query} {q : Query}
    (hcall : (calls size ds)[k]? = some queries) (hplace : queries[place]? = some q) :
    (resolve database size ds).AccountsFor ds queries (database k queries) place q := by
  have hasked : q ∈ (calls size ds).flatten :=
    List.mem_flatten.mpr ⟨queries, List.mem_of_getElem? hcall, List.mem_of_getElem? hplace⟩
  obtain ⟨batch, hbatch, rfl⟩ := exists_batch_of_call hcall
  obtain ⟨d, hd, rfl⟩ : ∃ d, batch[place]? = some d ∧ d.query = q := by
    simpa [List.getElem?_map] using hplace
  have hdistinct : d ∈ distinct ds := by
    rw [← batches_flatten size (distinct ds)]
    exact List.mem_flatten.mpr ⟨batch, List.mem_of_getElem? hbatch, List.mem_of_getElem? hd⟩
  rcases fits_or_failure batch.length (database k (batch.map Dependency.query)) with
    ⟨results, hfits⟩ | ⟨e, hfailure, hunfit⟩
  · obtain ⟨advisories, hadvisories⟩ : ∃ advisories, results[place]? = some advisories := by
      have hbound := List.getElem?_eq_some_iff.mp hd
      exact ⟨_, List.getElem?_eq_getElem (hfits.2 ▸ hbound.1)⟩
    have hmember : finding d advisories ∈ (resolve database size ds).findings := by
      refine (mem_resolve_findings_iff database size ds _).mpr ⟨k, batch, hbatch, ?_⟩
      rw [ofBatch, ofAnswer_of_fits hfits]
      apply List.mem_of_getElem? (i := place)
      rw [List.getElem?_zipWith, hd, hadvisories]
    refine ⟨d, finding d advisories, _, find?_eq_of_mem_distinct hdistinct,
      filter_eq_of_mem hasked (finding_isAbout d advisories) (Or.inl hmember), rfl, rfl, ?_⟩
    exact Or.inl ⟨results, by simpa using hfits, hadvisories, hmember⟩
  · have hmember : errorFinding e d ∈ (resolve database size ds).errors := by
      refine (mem_resolve_errors_iff database size ds _).mpr ⟨k, batch, hbatch, ?_⟩
      rw [ofBatch, ofAnswer_of_failure hfailure]
      exact List.mem_map_of_mem (List.mem_of_getElem? hd)
    refine ⟨d, errorFinding e d, _, find?_eq_of_mem_distinct hdistinct,
      filter_eq_of_mem hasked (errorFinding_isAbout e d) (Or.inr hmember), rfl, rfl, ?_⟩
    exact Or.inr ⟨by simpa using hunfit, hmember⟩

/-- Unsupported dependencies take no part in a resolution. -/
theorem distinct_supported (ds : List Dependency) :
    distinct (ds.filter fun d => !d.unsupported) = distinct ds := by
  simp only [distinct, distinctFrom_eq_firstOfEachFrom, List.filter_filter, Bool.and_self]

/-- A resolution depends on nothing but the answers to its calls. -/
theorem resolve_congr {database database' : Database} {size : Nat} {ds : List Dependency}
    (hagree : ∀ k queries, (calls size ds)[k]? = some queries →
      database' k queries = database k queries) :
    resolve database' size ds = resolve database size ds := by
  have hbatch : ∀ b ∈ (batches size (distinct ds)).zipIdx,
      ofBatch database' b = ofBatch database b := by
    intro b hb
    rw [ofBatch, ofBatch, hagree _ _ (call_of_mem_zipIdx hb)]
  simp only [resolve_eq, ofBatches_eq]
  congr 1 <;> exact List.flatMap_congr fun b hb => by rw [hbatch b hb]

/-- The books of a resolution. The calls ask for each coordinate of a supported
dependency once, in the order of first occurrences; they are full but for the
last one; each query is accounted for; and findings and errors stand in the
order of the queries that they are about. -/
structure Accounts (r : Resolution) (database : Database) (size : Nat)
    (ds : List Dependency) : Prop where
  asked : (calls size ds).flatten =
    ((ds.filter fun d => !d.unsupported).map Dependency.query).eraseDups
  full : ∀ k queries, (calls size ds)[k]? = some queries →
    1 ≤ queries.length ∧ queries.length ≤ size ∧
      (k + 1 < (calls size ds).length → queries.length = size)
  told : ∀ k queries place q, (calls size ds)[k]? = some queries →
    queries[place]? = some q → r.AccountsFor ds queries (database k queries) place q
  ordered : ∃ answered failed, r.Settles (calls size ds).flatten answered failed

/-- Whatever a database answers, a resolution accounts for each package that is
looked up. Unsupported dependencies change neither the calls nor the result, and
nothing but the answers to the calls does. -/
theorem resolve_accounts (database : Database) (size : Nat) (ds : List Dependency)
    (hsize : 1 ≤ size) :
    (resolve database size ds).Accounts database size ds ∧
      (calls size (ds.filter fun d => !d.unsupported) = calls size ds ∧
        resolve database size (ds.filter fun d => !d.unsupported) =
          resolve database size ds) ∧
      ∀ database' : Database,
        (∀ k queries, (calls size ds)[k]? = some queries →
          database' k queries = database k queries) →
        resolve database' size ds = resolve database size ds := by
  refine ⟨⟨?_, ?_, ?_, resolve_settles database size ds⟩, ⟨?_, ?_⟩, ?_⟩
  · rw [calls_flatten, distinct_queries]
  · intro k queries hcall
    obtain ⟨batch, hbatch, rfl⟩ := exists_batch_of_call hcall
    simpa [calls_eq] using batches_length size (distinct ds) hsize hbatch
  · exact fun _ _ _ _ hcall hplace => resolve_accountsFor database size ds hcall hplace
  · rw [calls_eq, distinct_supported, calls_eq]
  · rw [resolve_eq, distinct_supported, resolve_eq]
  · exact fun _ hagree => resolve_congr hagree

/-- Five records: a package in two manifests, one that cannot be looked up, and
two more. -/
def mixedRecords : List Dependency :=
  [⟨"lodash", "4.17.4", .npm, ⟨"package.json"⟩, false, false⟩,
    ⟨"shared", "workspace:*", .npm, ⟨"package.json"⟩, false, true⟩,
    ⟨"lodash", "4.17.4", .npm, ⟨"web/package.json"⟩, true, false⟩,
    ⟨"react", "18.2.0", .npm, ⟨"web/package.json"⟩, false, false⟩,
    ⟨"requests", "2.19.0", .pypi, ⟨"requirements.txt"⟩, false, false⟩]

def failingDatabase : Database
  | 0, _ => .ok [[.bare "GHSA-jf85-cpcp-j695"], []]
  | _, _ => .error (.http 503)

/-- Two calls, of which the second one fails. -/
theorem mixedRecords_accounts :
    1 ≤ 2 ∧
      calls 2 mixedRecords =
        [[⟨"lodash", .npm, "4.17.4"⟩, ⟨"react", .npm, "18.2.0"⟩],
          [⟨"requests", .pypi, "2.19.0"⟩]] ∧
      (resolve failingDatabase 2 mixedRecords).Accounts failingDatabase 2 mixedRecords :=
  ⟨by decide, by decide, (resolve_accounts failingDatabase 2 mixedRecords (by decide)).1⟩

end Resolution

end WebAudit
