import WebAudit.Proofs.Accounting

/-!
The failure of one batch. A batch succeeds or fails as a whole, since its
answer is judged before any of its packages. No other batch can tell: what a
run says about the packages of the other batches does not depend on the answer.
The faults that a run lists are those of answers that do not belong to their
batches, one for each such batch in the order of the calls; a batch that fails
on the way to the database is no fault.
-/

namespace WebAudit

/-- An answer that does not belong to its call, with the number of results that
came: their number is wrong, or the database says itself that they do not
match. -/
def Answer.Mismatched (answer : Answer) (expected : Nat) (actual : Option Nat) : Prop :=
  (∃ results, answer = .ok results ∧ results.length ≠ expected ∧
      actual = some results.length) ∨
    ∃ text, answer = .error (.integrity text) ∧ actual = none

namespace Resolution

/-- The findings about the packages of some queries. -/
def aboutAny (queries : List Query) (fs : List Finding) : List Finding :=
  fs.filter fun f => queries.any fun q => f.IsAbout q

def otherQueries (size : Nat) (ds : List Dependency) (k : Nat) : List Query :=
  ((calls size ds).eraseIdx k).flatten

private theorem exists_about_of_forall₂ {fs : List Finding} {queries : List Query}
    (habout : List.Forall₂ Finding.IsAbout fs queries) {f : Finding} (hmember : f ∈ fs) :
    ∃ q ∈ queries, f.IsAbout q := by
  induction habout with
  | nil => simp at hmember
  | cons hf _ ih =>
      rcases List.mem_cons.mp hmember with rfl | hlater
      · exact ⟨_, List.mem_cons_self, hf⟩
      · obtain ⟨q, hq, habout⟩ := ih hlater
        exact ⟨q, List.mem_cons_of_mem _ hq, habout⟩

/-- What a batch gives is about its own packages. -/
theorem exists_about_of_mem_ofBatch {database : Database} {b : List Dependency × Nat}
    {f : Finding}
    (hmember : f ∈ (ofBatch database b).findings ∨ f ∈ (ofBatch database b).errors) :
    ∃ q ∈ b.1.map Dependency.query, f.IsAbout q := by
  obtain ⟨answered, failed, hsettles⟩ :=
    ofAnswer_settles b.2 b.1 (database b.2 (b.1.map Dependency.query))
  rcases hmember with hfinding | herror
  · obtain ⟨q, hq, habout⟩ := exists_about_of_forall₂ hsettles.findings_about hfinding
    exact ⟨q, hsettles.answered_sublist.subset hq, habout⟩
  · obtain ⟨q, hq, habout⟩ := exists_about_of_forall₂ hsettles.errors_about herror
    exact ⟨q, hsettles.failed_sublist.subset hq, habout⟩

/-- A query is part of one call only. -/
theorem not_mem_otherQueries {size : Nat} {ds : List Dependency} {k : Nat}
    {queries : List Query} {q : Query} (hcall : (calls size ds)[k]? = some queries)
    (hmember : q ∈ queries) : q ∉ otherQueries size ds k := by
  have hdisjoint := (List.nodup_flatten.mp (calls_flatten_nodup size ds)).2
  intro hother
  obtain ⟨queries', hqueries', hmember'⟩ := List.mem_flatten.mp hother
  obtain ⟨j, hne, hcall'⟩ := List.mem_eraseIdx_iff_getElem?.mp hqueries'
  obtain ⟨hk, rfl⟩ := List.getElem?_eq_some_iff.mp hcall
  obtain ⟨hj, rfl⟩ := List.getElem?_eq_some_iff.mp hcall'
  rw [List.pairwise_iff_getElem] at hdisjoint
  rcases Nat.lt_or_gt_of_ne hne with hbefore | hafter
  · exact hdisjoint j k hj hk hbefore hmember' hmember
  · exact hdisjoint k j hk hj hafter hmember hmember'

/-- What a batch of a run gives says nothing about the packages of others. -/
theorem aboutAny_otherQueries_eq_nil {database : Database} {size : Nat}
    {ds : List Dependency} {b : List Dependency × Nat}
    (hmember : b ∈ (batches size (distinct ds)).zipIdx) {fs : List Finding}
    (hgiven : ∀ f ∈ fs, f ∈ (ofBatch database b).findings ∨ f ∈ (ofBatch database b).errors) :
    aboutAny (otherQueries size ds b.2) fs = [] := by
  rw [aboutAny, List.filter_eq_nil_iff]
  intro f hf hany
  obtain ⟨q, hq, habout⟩ := exists_about_of_mem_ofBatch (hgiven f hf)
  simp only [List.any_eq_true, decide_eq_true_eq] at hany
  obtain ⟨p, hp, habout'⟩ := hany
  obtain rfl := habout.unique habout'
  exact not_mem_otherQueries (call_of_mem_zipIdx hmember) hq hp

/-- The answer to one call does not show in what is said about the packages of
the others, be it in the findings or in the errors. -/
private theorem aboutAny_side_congr {database database' : Database} {k : Nat} (size : Nat)
    (ds : List Dependency)
    (hagree : ∀ j queries, j ≠ k → database' j queries = database j queries)
    (side : Resolution → List Finding)
    (hside : ∀ r, ∀ f ∈ side r, f ∈ r.findings ∨ f ∈ r.errors) :
    aboutAny (otherQueries size ds k)
        ((batches size (distinct ds)).zipIdx.flatMap fun b => side (ofBatch database' b)) =
      aboutAny (otherQueries size ds k)
        ((batches size (distinct ds)).zipIdx.flatMap fun b => side (ofBatch database b)) := by
  rw [aboutAny, aboutAny, List.filter_flatMap, List.filter_flatMap]
  apply List.flatMap_congr
  intro b hb
  by_cases hbatch : b.2 = k
  · subst hbatch
    have hnone := aboutAny_otherQueries_eq_nil hb (hside (ofBatch database b))
    have hnone' := aboutAny_otherQueries_eq_nil hb (hside (ofBatch database' b))
    exact hnone'.trans hnone.symm
  · rw [ofBatch, ofBatch, hagree b.2 _ hbatch]

theorem aboutAny_otherQueries_congr {database database' : Database} {k : Nat} (size : Nat)
    (ds : List Dependency)
    (hagree : ∀ j queries, j ≠ k → database' j queries = database j queries) :
    aboutAny (otherQueries size ds k) (resolve database' size ds).findings =
        aboutAny (otherQueries size ds k) (resolve database size ds).findings ∧
      aboutAny (otherQueries size ds k) (resolve database' size ds).errors =
        aboutAny (otherQueries size ds k) (resolve database size ds).errors := by
  simp only [resolve_eq, ofBatches_eq]
  exact ⟨aboutAny_side_congr size ds hagree Resolution.findings fun _ _ => Or.inl,
    aboutAny_side_congr size ds hagree Resolution.errors fun _ _ => Or.inr⟩

/-- The packages of a call are all in one list and none is in the other. -/
def AllIn (queries : List Query) (fs gs : List Finding) : Prop :=
  ∀ q ∈ queries, (∃ f ∈ fs, f.IsAbout q) ∧ ∀ g ∈ gs, ¬ g.IsAbout q

private theorem not_isAbout_of_filter {fs gs : List Finding} {q : Query} {f : Finding}
    (hfilter : (fs ++ gs).filter (fun g => g.IsAbout q) = [f]) :
    (f ∈ fs → ∀ g ∈ gs, ¬ g.IsAbout q) ∧ (f ∈ gs → ∀ g ∈ fs, ¬ g.IsAbout q) := by
  have habout : f.IsAbout q := of_decide_eq_true (mem_of_filter_eq_singleton hfilter).2
  have hlength := congrArg List.length hfilter
  rw [List.filter_append, List.length_append, List.length_singleton] at hlength
  have hpositive : ∀ {hs : List Finding} {h : Finding}, h ∈ hs → h.IsAbout q →
      0 < (hs.filter fun g => g.IsAbout q).length := by
    intro hs h hmember hh
    exact List.length_pos_of_mem (List.mem_filter.mpr ⟨hmember, decide_eq_true hh⟩)
  have hboth : ∀ {a b : Finding}, a ∈ fs → b ∈ gs → a.IsAbout q → ¬ b.IsAbout q := by
    intro a b ha hb habout hother
    have hone := hpositive ha habout
    have htwo := hpositive hb hother
    omega
  exact ⟨fun hf g hg => hboth hf hg habout, fun hf g hg hother => hboth hg hf hother habout⟩

/-- A batch succeeds as a whole or fails as a whole. -/
theorem allIn_or_allIn (database : Database) {size : Nat} {ds : List Dependency} {k : Nat}
    {queries : List Query} (hcall : (calls size ds)[k]? = some queries) :
    AllIn queries (resolve database size ds).findings (resolve database size ds).errors ∨
      AllIn queries (resolve database size ds).errors (resolve database size ds).findings := by
  have htold : ∀ q ∈ queries, ∃ place,
      (resolve database size ds).AccountsFor ds queries (database k queries) place q := by
    intro q hq
    obtain ⟨place, hplace⟩ := List.mem_iff_getElem?.mp hq
    exact ⟨place, resolve_accountsFor database size ds hcall hplace⟩
  rcases fits_or_failure queries.length (database k queries) with
    ⟨results, hfits⟩ | ⟨-, -, hunfit⟩
  · refine Or.inl fun q hq => ?_
    obtain ⟨-, -, f, -, -, hfilter, -, -, ⟨-, -, -, hf⟩ | ⟨hunfit, -⟩⟩ := htold q hq
    · exact ⟨⟨f, hf, of_decide_eq_true (mem_of_filter_eq_singleton hfilter).2⟩,
        (not_isAbout_of_filter hfilter).1 hf⟩
    · exact absurd hfits (hunfit results)
  · refine Or.inr fun q hq => ?_
    obtain ⟨-, -, f, -, -, hfilter, -, -, ⟨results, hfits, -, -⟩ | ⟨-, hf⟩⟩ := htold q hq
    · exact absurd hfits (hunfit results)
    · exact ⟨⟨f, hf, of_decide_eq_true (mem_of_filter_eq_singleton hfilter).2⟩,
        (not_isAbout_of_filter hfilter).2 hf⟩

theorem ofBatch_faults (database : Database) (b : List Dependency × Nat) :
    (ofBatch database b).faults =
      (fault? b.2 b.1.length (database b.2 (b.1.map Dependency.query))).toList := by
  rw [ofBatch]
  rcases fits_or_failure b.1.length (database b.2 (b.1.map Dependency.query)) with
    ⟨results, hfits⟩ | ⟨e, hfailure, -⟩
  · rw [ofAnswer_of_fits hfits, hfits.1]
    simp [fault?, hfits.2]
  · rw [ofAnswer_of_failure hfailure]

/-- The faults of a run are those of its calls, in their order. -/
theorem resolve_faults (database : Database) (size : Nat) (ds : List Dependency) :
    (resolve database size ds).faults =
      (calls size ds).zipIdx.filterMap fun call =>
        fault? call.2 call.1.length (database call.2 call.1) := by
  rw [calls_eq, List.zipIdx_map, List.filterMap_map, List.filterMap_eq_flatMap_toList, resolve_eq,
    ofBatches_eq]
  apply List.flatMap_congr
  intro b _
  rw [ofBatch_faults]
  simp

theorem fault?_batch {batch expected : Nat} {answer : Answer} {fault : IntegrityFault}
    (hfault : fault? batch expected answer = some fault) :
    fault.batch = batch ∧ fault.expected = expected := by
  cases answer with
  | ok results =>
      simp only [fault?] at hfault
      split at hfault
      · cases hfault
      · obtain rfl := Option.some.inj hfault
        exact ⟨rfl, rfl⟩
  | error e =>
      cases e with
      | integrity text =>
          obtain rfl := Option.some.inj hfault
          exact ⟨rfl, rfl⟩
      | network message => cases hfault
      | http status => cases hfault
      | decode message => cases hfault

/-- An answer has a fault exactly when it does not belong to its call. -/
theorem exists_fault?_iff (batch expected : Nat) (answer : Answer) (actual : Option Nat) :
    (∃ fault, fault? batch expected answer = some fault ∧ fault.actual = actual) ↔
      answer.Mismatched expected actual := by
  cases answer with
  | ok results =>
      by_cases hlength : results.length = expected
      · simp [fault?, Answer.Mismatched, hlength]
      · constructor
        · rintro ⟨fault, hfault, rfl⟩
          simp only [fault?, hlength, if_false] at hfault
          obtain rfl := Option.some.inj hfault
          exact Or.inl ⟨results, rfl, hlength, rfl⟩
        · rintro (⟨_, ⟨⟩, -, rfl⟩ | ⟨_, ⟨⟩, -⟩)
          exact ⟨_, if_neg hlength, rfl⟩
  | error e =>
      cases e <;> simp [fault?, Answer.Mismatched, eq_comm]

/-- The faults stand in the order of their batches, each batch once. -/
theorem faults_increasing (database : Database) (size : Nat) (ds : List Dependency) :
    ((resolve database size ds).faults.map IntegrityFault.batch).Pairwise (· < ·) := by
  rw [List.pairwise_map, resolve_faults, List.pairwise_filterMap]
  have hnumbers : (calls size ds).zipIdx.Pairwise fun a b => a.2 < b.2 := by
    rw [← List.pairwise_map, List.zipIdx_map_snd]
    exact List.pairwise_lt_range' 1
  apply hnumbers.imp
  intro a b hlt fault hfault fault' hfault'
  rw [(fault?_batch hfault).1, (fault?_batch hfault').1]
  exact hlt

/-- There is a fault for a batch exactly when its answer does not belong to
it. -/
theorem exists_fault_iff (database : Database) (size : Nat) (ds : List Dependency)
    (batch expected : Nat) (actual : Option Nat) :
    (∃ fault ∈ (resolve database size ds).faults,
        fault.batch = batch ∧ fault.expected = expected ∧ fault.actual = actual) ↔
      ∃ queries, (calls size ds)[batch]? = some queries ∧ expected = queries.length ∧
        Answer.Mismatched (database batch queries) expected actual := by
  rw [resolve_faults]
  simp only [List.mem_filterMap, List.mem_zipIdx_iff_getElem?, Prod.exists]
  constructor
  · rintro ⟨fault, ⟨queries, k, hcall, hfault⟩, rfl, rfl, hactual⟩
    obtain ⟨hbatch, hexpected⟩ := fault?_batch hfault
    rw [hbatch, hexpected]
    exact ⟨queries, hcall, rfl, (exists_fault?_iff k _ _ actual).mp ⟨fault, hfault, hactual⟩⟩
  · rintro ⟨queries, hcall, rfl, hmismatched⟩
    obtain ⟨fault, hfault, hactual⟩ :=
      (exists_fault?_iff batch _ _ actual).mpr hmismatched
    obtain ⟨hbatch, hexpected⟩ := fault?_batch hfault
    exact ⟨fault, ⟨queries, batch, hcall, hfault⟩, hbatch, hexpected, hactual⟩

/-- The failure of a batch is its own. If two databases differ in their answers
to one call only, the findings and errors about the packages of all other calls
are the same; each batch succeeds or fails as a whole; and the faults are those
of the answers that do not belong to their calls, in order. -/
theorem batch_failure_is_local (database database' : Database) (size : Nat)
    (ds : List Dependency) (k : Nat)
    (hagree : ∀ j queries, j ≠ k → database' j queries = database j queries) :
    let r := resolve database size ds
    let r' := resolve database' size ds
    (aboutAny (otherQueries size ds k) r'.findings =
        aboutAny (otherQueries size ds k) r.findings ∧
      aboutAny (otherQueries size ds k) r'.errors =
        aboutAny (otherQueries size ds k) r.errors) ∧
    (∀ (j : Nat) (queries : List Query), (calls size ds)[j]? = some queries →
      AllIn queries r.findings r.errors ∨ AllIn queries r.errors r.findings) ∧
    (r.faults.map IntegrityFault.batch).Pairwise (· < ·) ∧
    ∀ (batch expected : Nat) (actual : Option Nat),
      (∃ fault ∈ r.faults,
          fault.batch = batch ∧ fault.expected = expected ∧ fault.actual = actual) ↔
        ∃ queries, (calls size ds)[batch]? = some queries ∧ expected = queries.length ∧
          Answer.Mismatched (database batch queries) expected actual :=
  ⟨aboutAny_otherQueries_congr size ds hagree,
    fun _ _ hcall => allIn_or_allIn database hcall,
    faults_increasing database size ds, exists_fault_iff database size ds⟩

def shortDatabase : Database
  | 1, _ => .ok []
  | j, queries => failingDatabase j queries

/-- The second call refused or answered with no results: only the latter is a
fault, and the first batch does not see the difference. -/
theorem mixedRecords_failure_is_local :
    (∀ j queries, j ≠ 1 → failingDatabase j queries = shortDatabase j queries) ∧
      aboutAny (otherQueries 2 mixedRecords 1)
          (resolve failingDatabase 2 mixedRecords).findings =
        aboutAny (otherQueries 2 mixedRecords 1)
          (resolve shortDatabase 2 mixedRecords).findings ∧
      ∃ fault ∈ (resolve shortDatabase 2 mixedRecords).faults,
        fault.batch = 1 ∧ fault.expected = 1 ∧ fault.actual = some 0 := by
  have hagree : ∀ j queries, j ≠ 1 →
      failingDatabase j queries = shortDatabase j queries := by
    intro j queries hne
    unfold shortDatabase
    split
    · contradiction
    · rfl
  have hlocal := batch_failure_is_local shortDatabase failingDatabase 2 mixedRecords 1 hagree
  refine ⟨hagree, hlocal.1.1, (hlocal.2.2.2 1 1 (some 0)).mpr ?_⟩
  exact ⟨[⟨"requests", .pypi, "2.19.0"⟩], by decide, rfl, Or.inl ⟨[], rfl, by decide, rfl⟩⟩

end Resolution

end WebAudit
