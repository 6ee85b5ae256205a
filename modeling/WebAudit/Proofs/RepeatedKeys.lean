import WebAudit.Proofs.Accounting
import WebAudit.Proofs.Aggregation

/-!
Two ways to leave one finding for each key. Findings are sorted and scanned
with all keys so far at hand; failed lookups are sorted and only neighbours
are compared. The second way needs equal keys to stand together. The report
order compares the severity first and then exactly the four parts of the key,
so they do stand together among findings of one severity. All failed lookups
are clean, and for them the two ways agree.
-/

namespace WebAudit

open Std

theorem Category.rank_injective {a b : Category} (hrank : a.rank = b.rank) : a = b := by
  cases a <;> cases b <;> simp_all [Category.rank]

instance : LawfulEqOrd Category where
  eq_of_compare hcompare := Category.rank_injective (Nat.compare_eq_eq.mp hcompare)

namespace Finding

def Key.order : Key → Key → Ordering :=
  compareLex (compareOn Key.category)
    (compareLex (compareOn Key.location) (compareLex (compareOn Key.line) (compareOn Key.kind)))

instance : TransCmp Key.order := by
  unfold Key.order
  infer_instance

instance : LawfulEqCmp Key.order where
  eq_of_compare {a b} hcompare := by
    simp only [Key.order, compareLex, compareOn, Ordering.then_eq_eq] at hcompare
    obtain ⟨hcategory, hlocation, hline, hkind⟩ := hcompare
    have hparts : a.category = b.category ∧ a.location = b.location ∧ a.line = b.line ∧
        a.kind = b.kind :=
      ⟨LawfulEqCmp.eq_of_compare hcategory, LawfulEqCmp.eq_of_compare hlocation,
        LawfulEqCmp.eq_of_compare hline, LawfulEqCmp.eq_of_compare hkind⟩
    cases a
    cases b
    simp_all

/-- The report order goes by severity, then by key, and only then by the rest. -/
theorem order_eq_then_key (a b : Finding) :
    a.order b =
      (compare b.severity a.severity).then ((a.key.order b.key).then
        ((compare a.message b.message).then
          ((compare a.details b.details).then (compare a.payloadText b.payloadText)))) := by
  simp only [order_eq_lex, Key.order, key, compareLex, compareOn, Ordering.then_assoc]

theorem key_eq_of_order_eq {a b : Finding} (horder : a.order b = .eq) : a.key = b.key := by
  rw [order_eq_then_key, Ordering.then_eq_eq, Ordering.then_eq_eq] at horder
  exact LawfulEqCmp.eq_of_compare horder.2.1

theorem key_isLE_of_le {a b : Finding} (hseverity : a.severity = b.severity) (hle : a.le b) :
    (a.key.order b.key).isLE := by
  have hequal : compare b.severity a.severity = .eq := by
    rw [hseverity]
    exact ReflCmp.compare_self
  rw [le_iff_isLE, order_eq_then_key, hequal, Ordering.eq_then] at hle
  exact (Ordering.isLE_then_iff_and.mp hle).1

/-- Among findings of one severity, what stands between two of one key has that
key too. -/
theorem key_eq_of_between {a b c : Finding} (hab : a.severity = b.severity)
    (hbc : b.severity = c.severity) (hfirst : a.le b) (hlast : b.le c) (hkey : c.key = a.key) :
    b.key = a.key := by
  have hle : (a.key.order b.key).isLE := key_isLE_of_le hab hfirst
  have hge : (b.key.order a.key).isLE := hkey ▸ key_isLE_of_le hbc hlast
  exact (LawfulEqCmp.eq_of_compare (OrientedCmp.isLE_antisymm hle hge)).symm

/-- The invariant of the scan: of the keys behind the last finding that was
kept, none comes back. -/
private theorem dropRepeatsAfter_eq (severity : Severity) (last : Finding) (seen : List Key)
    (fs : List Finding) (hordered : (last :: fs).Pairwise fun a b => a.le b)
    (hseverity : ∀ f ∈ last :: fs, f.severity = severity)
    (hseen : ∀ f ∈ fs, f.key ∈ seen → f.key = last.key) :
    dropRepeats.dropRepeatsAfter last fs = firstOfEachFrom key (last.key :: seen) fs := by
  induction fs generalizing last seen with
  | nil => rfl
  | cons g rest ih =>
      obtain ⟨hlast, hrest⟩ := List.pairwise_cons.mp hordered
      by_cases hkey : g.key = last.key
      · have hskip : (last :: rest).Sublist (last :: g :: rest) :=
          (List.sublist_cons_self g rest).cons_cons last
        have hih := ih last seen (hordered.sublist hskip)
          (fun f hf => hseverity f (hskip.subset hf))
          (fun f hf => hseen f (List.mem_cons_of_mem g hf))
        simp [dropRepeats.dropRepeatsAfter, firstOfEachFrom, isDuplicateOf, hkey, hih]
      · have hfresh : g.key ∉ last.key :: seen := by
          intro hmember
          rcases List.mem_cons.mp hmember with hsame | hbefore
          · exact hkey hsame
          · exact hkey (hseen g List.mem_cons_self hbefore)
        have hgone : ∀ f ∈ rest, f.key ≠ last.key := by
          intro f hf hsame
          have hglast := hseverity last List.mem_cons_self
          have hgsame := hseverity g (by simp)
          have hfsame := hseverity f (by simp [hf])
          exact hkey (key_eq_of_between (hglast.trans hgsame.symm) (hgsame.trans hfsame.symm)
            (hlast g List.mem_cons_self) ((List.pairwise_cons.mp hrest).1 f hf) hsame)
        have hih := ih g (last.key :: seen) hrest
          (fun f hf => hseverity f (List.mem_cons_of_mem last hf))
          (fun f hf hmember => by
            rcases List.mem_cons.mp hmember with hsame | hbefore
            · exact absurd hsame (hgone f hf)
            · exact absurd (hseen f (List.mem_cons_of_mem g hf) hbefore) (hgone f hf))
        simp [dropRepeats.dropRepeatsAfter, firstOfEachFrom, isDuplicateOf, hkey, hfresh, hih]

/-- For findings of one severity it is enough to compare neighbours. -/
theorem dropRepeats_sorted (severity : Severity) (fs : List Finding)
    (hseverity : ∀ f ∈ fs, f.severity = severity) :
    dropRepeats (sorted fs) = deduplicate fs := by
  have hsorted : ∀ f ∈ sorted fs, f.severity = severity := by
    intro f hf
    exact hseverity f ((mem_sorted f fs).mp hf)
  have hordered := sorted_pairwise fs
  rw [deduplicate_eq_firstOfEachFrom]
  cases hcase : sorted fs with
  | nil => rfl
  | cons last rest =>
      rw [hcase] at hsorted hordered
      have hscan := dropRepeatsAfter_eq severity last [] rest hordered hsorted
        (fun _ _ hmember => absurd hmember List.not_mem_nil)
      simp [dropRepeats, firstOfEachFrom, hscan]

end Finding

/-- What a resolver says about a failed lookup is clean. -/
theorem Resolution.severity_of_mem_errors {database : Database} {size : Nat}
    {ds : List Dependency} {e : Finding} (hmember : e ∈ (resolve database size ds).errors) :
    e.severity = .clean := by
  obtain ⟨k, batch, -, he⟩ := (mem_resolve_errors_iff database size ds e).mp hmember
  rw [ofBatch] at he
  rcases fits_or_failure batch.length (database k (batch.map Dependency.query)) with
    ⟨results, hfits⟩ | ⟨failure, hfailure, -⟩
  · rw [ofAnswer_of_fits hfits] at he
    exact absurd he List.not_mem_nil
  · rw [ofAnswer_of_failure hfailure] at he
    obtain ⟨d, -, rfl⟩ := List.mem_map.mp he
    rfl

/-- Clean errors come out as deduplication leaves them, together with the
failures among the findings: each key once, and none is lost. The errors of a
resolver are clean, whatever the database answers. -/
theorem errors_deduplicated (policy : Policy) (mode : ReportMode) (found : List Finding) :
    (∀ errors : List Finding, (∀ e ∈ errors, e.severity = .clean) →
      let collected := errors ++ found.filter fun f => f.IsFailure
      let failed := (aggregate policy mode found errors).errors
      failed = Finding.deduplicate collected ∧
        (failed.map Finding.key).Nodup ∧
        ∀ e ∈ collected, e.key ∈ failed.map Finding.key) ∧
    ∀ (database : Database) (size : Nat) (ds : List Dependency),
      ∀ e ∈ (Resolution.resolve database size ds).errors, e.severity = .clean := by
  constructor
  · intro errors hclean collected failed
    have hcollected : ∀ f ∈ collected, f.severity = .clean := by
      intro f hf
      rcases List.mem_append.mp hf with herror | hfailure
      · exact hclean f herror
      · exact (of_decide_eq_true (List.mem_filter.mp hfailure).2).1
    have hfailed : failed = Finding.deduplicate collected := by
      rw [← Finding.dropRepeats_sorted .clean collected hcollected]
      simp only [failed, collected, aggregate, filter_isFailure]
    refine ⟨hfailed, ?_, ?_⟩
    · rw [hfailed]
      exact Finding.deduplicate_keys_nodup collected
    · intro e he
      obtain ⟨g, hg, hkey, -⟩ := Finding.exists_survivor he
      rw [hfailed, ← hkey]
      exact List.mem_map_of_mem hg
  · intro database size ds e he
    exact Resolution.severity_of_mem_errors he

def retriedLookup (name : String) : Finding :=
  (failedLookup name).withPayload
    (.dependency ⟨"npm", ⟨"package.json"⟩, [], none, .clean, some "status 503"⟩)

/-- Two packages failed twice, one of them among the errors only and with the
other one in between. -/
theorem retriedLookup_deduplicated :
    let errors := [failedLookup "qs", failedLookup "next", retriedLookup "qs"]
    let found := [registeredRoute, retriedLookup "next"]
    let failed := (aggregate {} .threshold found errors).errors
    (∀ e ∈ errors, e.severity = .clean) ∧
      failed = Finding.deduplicate (errors ++ [retriedLookup "next"]) ∧
      (failed.map Finding.key).Nodup ∧ (failedLookup "qs").key ∈ failed.map Finding.key := by
  intro errors found failed
  have hclean : ∀ e ∈ errors, e.severity = .clean := by
    intro e he
    simp only [errors, List.mem_cons, List.not_mem_nil, or_false] at he
    rcases he with rfl | rfl | rfl <;> rfl
  obtain ⟨hfailed, hdistinct, hkept⟩ := (errors_deduplicated {} .threshold found).1 errors hclean
  exact ⟨hclean, hfailed, hdistinct, hkept _ (List.mem_append_left _ List.mem_cons_self)⟩

end WebAudit
