import WebAudit.Advisory.Resolution
import WebAudit.Proofs.FirstOfEach

/-!
The run of a resolution against the dependencies it is about. A plan keeps
queries and places of dependencies in two lists, which are cut into batches
apart from each other. Both list the first supported dependency of each query in
order, one by its query and the other by its place, so a batch of queries and a
batch of places belong to the same dependencies. Hence a run asks about each of
them once, and what it finds is what the answers say about them batch by batch.
-/

namespace WebAudit.Resolution

/-- The first dependency of each query that can be looked up, in order; `seen`
holds the queries so far. -/
def distinctFrom (seen : List Query) : List Dependency → List Dependency
  | [] => []
  | d :: rest =>
    if d.unsupported || seen.contains d.query then distinctFrom seen rest
    else d :: distinctFrom (d.query :: seen) rest

/-- The dependencies to look up: the first of each query. -/
def distinct (ds : List Dependency) : List Dependency := distinctFrom [] ds

def ofBatches (database : Database) (batch : Nat) : List (List Dependency) → Resolution
  | [] => ⟨[], [], []⟩
  | ds :: rest =>
    (ofAnswer batch ds.length ds (database batch (ds.map Dependency.query))).append
      (ofBatches database (batch + 1) rest)

theorem distinctFrom_eq_firstOfEachFrom (seen : List Query) (ds : List Dependency) :
    distinctFrom seen ds =
      firstOfEachFrom Dependency.query seen (ds.filter fun d => !d.unsupported) := by
  induction ds generalizing seen with
  | nil => rfl
  | cons d rest ih =>
      cases hunsupported : d.unsupported <;>
        simp [distinctFrom, firstOfEachFrom, hunsupported, ih]

section Plan

/-- Of dependencies with their places, the first one of each query that can be
looked up and is not among some queries. -/
def chosen (seen : List Query) (records : List (Dependency × Nat)) : List (Dependency × Nat) :=
  firstOfEachFrom (fun record => record.1.query) seen
    (records.filter fun record => !record.1.unsupported)

theorem map_fst_chosen (ds : List Dependency) :
    (chosen [] ds.zipIdx).map Prod.fst = distinct ds := by
  have hfilter : (ds.zipIdx.filter fun record => !record.1.unsupported).map Prod.fst =
      ds.filter fun d => !d.unsupported := by
    rw [← List.zipIdx_map_fst 0 ds, List.filter_map, List.zipIdx_map_fst]
    rfl
  rw [distinct, distinctFrom_eq_firstOfEachFrom, ← hfilter, firstOfEachFrom_map]
  rfl

theorem getElem?_of_mem_chosen {ds : List Dependency} {record : Dependency × Nat}
    (hrecord : record ∈ chosen [] ds.zipIdx) : ds[record.2]? = some record.1 := by
  have hmember := (firstOfEachFrom_sublist _ _ _).subset hrecord
  exact List.mem_zipIdx_iff_getElem?.mp (List.mem_filter.mp hmember).1

/-- The positions of a plan are those of its queries. -/
def Plan.IsIndexed (plan : Plan) : Prop :=
  ∀ query, (plan.positions.lookup query).isSome ↔ query ∈ plan.queries

theorem Plan.IsIndexed.snoc {plan : Plan} (hindexed : plan.IsIndexed) (query : Query)
    (place : Nat) :
    Plan.IsIndexed ⟨plan.queries ++ [query], plan.origin ++ [place],
      (query, plan.queries.length) :: plan.positions⟩ := by
  intro other
  rw [List.mem_append, List.mem_singleton, ← hindexed other, List.lookup_cons]
  by_cases hsame : other = query
  · simp [hsame]
  · simp [hsame, beq_eq_false_iff_ne.mpr hsame]

/-- A step: a dependency is passed over by the plan and by the choice, or it is
added by both. -/
theorem Plan.IsIndexed.add_cases {plan : Plan} (hindexed : plan.IsIndexed)
    (record : Dependency × Nat) (rest : List (Dependency × Nat)) :
    (plan.add record = plan ∧
        chosen plan.queries (record :: rest) = chosen plan.queries rest) ∨
      plan.add record = ⟨plan.queries ++ [record.1.query], plan.origin ++ [record.2],
          (record.1.query, plan.queries.length) :: plan.positions⟩ ∧
        chosen plan.queries (record :: rest) =
          record :: chosen (plan.queries ++ [record.1.query]) rest := by
  unfold add chosen
  dsimp only
  split
  · rename_i hunsupported
    exact .inl ⟨rfl, by rw [List.filter_cons_of_neg (by simp [hunsupported])]⟩
  · rename_i hsupported
    rw [List.filter_cons_of_pos (by simp [hsupported]), firstOfEachFrom]
    split
    · rename_i hseen
      exact .inl ⟨rfl, if_pos (List.contains_iff_mem.mpr ((hindexed _).mp hseen))⟩
    · rename_i hnew
      have hfresh : record.1.query ∉ plan.queries := fun h => hnew ((hindexed _).mpr h)
      refine .inr ⟨rfl, ?_⟩
      rw [if_neg (by simpa using hfresh)]
      -- the order in which queries are known does not matter to what is chosen
      exact congrArg (record :: ·)
        (firstOfEachFrom_congr_seen _ _ _ _ fun _ _ => by simp [or_comm])

/-- A plan grows by the dependencies that are chosen, in both of its lists. -/
theorem Plan.foldl_add (records : List (Dependency × Nat)) {plan : Plan}
    (hindexed : plan.IsIndexed) :
    (records.foldl add plan).queries =
        plan.queries ++ (chosen plan.queries records).map (fun record => record.1.query) ∧
      (records.foldl add plan).origin =
        plan.origin ++ (chosen plan.queries records).map Prod.snd := by
  induction records generalizing plan with
  | nil => simp [chosen, firstOfEachFrom]
  | cons record rest ih =>
      rw [List.foldl_cons]
      rcases hindexed.add_cases record rest with ⟨hadd, hchosen⟩ | ⟨hadd, hchosen⟩
      · rw [hadd, hchosen]
        exact ih hindexed
      · obtain ⟨hqueries, horigin⟩ := ih (hindexed.snoc record.1.query record.2)
        rw [hadd, hchosen, hqueries, horigin, List.append_assoc, List.append_assoc]
        exact ⟨rfl, rfl⟩

theorem Plan.ofDependencies_eq (ds : List Dependency) :
    (Plan.ofDependencies ds).queries =
        (chosen [] ds.zipIdx).map (fun record => record.1.query) ∧
      (Plan.ofDependencies ds).origin = (chosen [] ds.zipIdx).map Prod.snd := by
  have hempty : Plan.IsIndexed {} := fun query => by simp
  exact Plan.foldl_add ds.zipIdx hempty

end Plan

section Batches

theorem cut_flatten {α : Type} (size fuel : Nat) (items : List α)
    (hsize : 0 < size) (hfuel : items.length ≤ fuel) :
    (cut size fuel items).flatten = items := by
  induction fuel generalizing items with
  | zero =>
      obtain rfl : items = [] := List.length_eq_zero_iff.mp (by omega)
      rfl
  | succ fuel ih =>
      cases items with
      | nil => rfl
      | cons a rest =>
          have hrest : ((a :: rest).drop size).length ≤ fuel := by
            simp only [List.length_drop, List.length_cons] at hfuel ⊢
            omega
          simp only [cut, List.isEmpty_cons, Bool.false_eq_true, if_false,
            List.flatten_cons, ih _ hrest, List.take_append_drop]

/-- Batches hold what they were cut from, in order. -/
theorem batches_flatten {α : Type} (size : Nat) (items : List α) :
    (batches size items).flatten = items :=
  cut_flatten (max size 1) items.length items (by omega) (Nat.le_refl _)

theorem cut_map {α β : Type} (f : α → β) (size fuel : Nat) (items : List α) :
    cut size fuel (items.map f) = (cut size fuel items).map (List.map f) := by
  induction fuel generalizing items with
  | zero => rfl
  | succ fuel ih =>
      rw [cut, cut, ← List.map_drop, ih, ← List.map_take, List.isEmpty_map]
      split <;> rfl

theorem batches_map {α β : Type} (f : α → β) (size : Nat) (items : List α) :
    batches size (items.map f) = (batches size items).map (List.map f) := by
  rw [batches, batches, List.length_map, cut_map]

end Batches

section Run

variable (database : Database) (size : Nat) (ds : List Dependency)

theorem calls_eq :
    calls size ds = (batches size (distinct ds)).map (List.map Dependency.query) := by
  rw [calls, (Plan.ofDependencies_eq ds).1, ← map_fst_chosen, batches_map, batches_map,
    List.map_map]
  refine List.map_congr_left fun batch _ => ?_
  rw [Function.comp_apply, List.map_map]
  rfl

/-- One call: its queries and places belong to the same dependencies, so it adds
what the answer says about them. -/
theorem Run.call_eq (run : Run) (batch : List (Dependency × Nat)) (number : Nat)
    (hbatch : ∀ record ∈ batch, ds[record.2]? = some record.1) :
    run.call database ds ((batch.map (fun record => record.1.query), batch.map Prod.snd), number) =
      ⟨run.outcome.append (ofAnswer number batch.length (batch.map Prod.fst)
          (database number (batch.map fun record => record.1.query))),
        run.calls ++ [batch.map fun record => record.1.query]⟩ := by
  have hrecords : (batch.map Prod.snd).filterMap (fun place => ds[place]?) =
      batch.map Prod.fst := by
    rw [List.filterMap_map, ← List.filterMap_eq_map]
    exact List.filterMap_congr hbatch
  simp only [call, hrecords, List.length_map]

theorem append_assoc (a b c : Resolution) : (a.append b).append c = a.append (b.append c) := by
  simp only [append, List.append_assoc]

/-- All calls, from any run so far. -/
theorem Run.foldl_call (pieces : List (List (Dependency × Nat)))
    (hpieces : ∀ batch ∈ pieces, ∀ record ∈ batch, ds[record.2]? = some record.1)
    (number : Nat) (run : Run) :
    ((pieces.map fun batch => (batch.map (fun record => record.1.query),
        batch.map Prod.snd)).zipIdx number).foldl (call database ds) run =
      ⟨run.outcome.append (ofBatches database number (pieces.map (List.map Prod.fst))),
        run.calls ++ pieces.map (List.map fun record => record.1.query)⟩ := by
  induction pieces generalizing number run with
  | nil => simp [ofBatches, append]
  | cons batch rest ih =>
      obtain ⟨hbatch, hrest⟩ := List.forall_mem_cons.mp hpieces
      rw [List.map_cons, List.zipIdx_cons, List.foldl_cons,
        call_eq database ds run batch number hbatch, ih hrest, append_assoc, List.append_assoc]
      simp only [List.map_cons, ofBatches, List.length_map, List.map_map]
      rfl

/-- A run makes its calls in order and finds what the answers say about the
distinct dependencies, batch by batch. -/
theorem run_eq :
    run database size ds =
      ⟨ofBatches database 0 (batches size (distinct ds)), calls size ds⟩ := by
  obtain ⟨hqueries, horigin⟩ := Plan.ofDependencies_eq ds
  have hpieces : ∀ batch ∈ batches size (chosen [] ds.zipIdx),
      ∀ record ∈ batch, ds[record.2]? = some record.1 := by
    intro batch hbatch record hrecord
    have hmember := List.mem_flatten.mpr ⟨batch, hbatch, hrecord⟩
    rw [batches_flatten] at hmember
    exact getElem?_of_mem_chosen hmember
  rw [run, calls, hqueries, horigin, batches_map, batches_map, List.zip_map',
    Run.foldl_call database ds _ hpieces, ← map_fst_chosen, batches_map]
  rfl

theorem resolve_eq :
    resolve database size ds = ofBatches database 0 (batches size (distinct ds)) := by
  rw [resolve, run_eq]

end Run

end WebAudit.Resolution
