import WebAudit.Proofs.Deduplication
import WebAudit.Proofs.Summary
import WebAudit.Report.Aggregate

/-!
What aggregation makes of the findings of a run. A report without a threshold
shows exactly one finding for each key that was reported above `clean`, a least
one in the report order, and counts what it shows. A clean finding that tells
of a failed lookup counts as one of the errors; every other clean finding is
gone. If findings that compare equal are identical, none of this depends on
the order in which findings and errors came in.
-/

namespace WebAudit

theorem Severity.isReportable_iff (s : Severity) : s.isReportable ↔ s ≠ .clean := by
  simp [Severity.isReportable]

/-- What a list of findings shows of all that were found: each of them was
found and is not clean; each key of such a finding is shown once, by a finding
that is not behind in the report order; and they stand in that order. -/
structure Represents (found shown : List Finding) : Prop where
  sound : ∀ g ∈ shown, g ∈ found ∧ g.severity ≠ .clean
  complete : ∀ f ∈ found, f.severity ≠ .clean →
    ∃ g, shown.filter (fun h => h.key = f.key) = [g] ∧
      f.order g ≠ .lt ∧ f.severity ≤ g.severity
  distinct : (shown.map Finding.key).Nodup
  ordered : shown.Pairwise fun a b => a.order b ≠ .gt

/-- Whether a finding says that nothing could be found out: it is clean and
tells of a failed lookup. -/
def Finding.IsFailure (f : Finding) : Prop :=
  f.severity = .clean ∧ f.hasLookupError

instance (f : Finding) : Decidable f.IsFailure :=
  inferInstanceAs (Decidable (_ ∧ _))

/-- What a list of failures keeps of the errors and of the findings: each of
them is an error or a failure that was found, and each of those has one of its
key that is not behind in the report order. -/
structure Failures (found errors failed : List Finding) : Prop where
  sound : ∀ g ∈ failed, g ∈ errors ∨ (g ∈ found ∧ g.IsFailure)
  complete : ∀ f, (f ∈ errors ∨ (f ∈ found ∧ f.IsFailure)) →
    ∃ g ∈ failed, g.key = f.key ∧ f.order g ≠ .lt

/-- A finding that is all a filter leaves was in the list and passes it. -/
theorem mem_of_filter_eq_singleton {fs : List Finding} {g : Finding} {p : Finding → Bool}
    (hfilter : fs.filter p = [g]) : g ∈ fs ∧ p g := by
  rw [← List.mem_filter, hfilter]
  exact List.mem_singleton_self g

/-- One finding for each key represents the findings that are not clean. -/
theorem represents_deduplicate (found : List Finding) :
    Represents found
      (Finding.deduplicate (found.filter fun f => f.severity.isReportable)) where
  sound g hg := by
    obtain ⟨hfound, hreportable⟩ := List.mem_filter.mp (Finding.mem_of_mem_deduplicate hg)
    exact ⟨hfound, (Severity.isReportable_iff _).mp hreportable⟩
  complete f hf hclean := by
    have hsurfaced : f ∈ found.filter fun f => f.severity.isReportable :=
      List.mem_filter.mpr ⟨hf, (Severity.isReportable_iff _).mpr hclean⟩
    obtain ⟨g, hg, hkey, hle⟩ := Finding.exists_survivor hsurfaced
    refine ⟨g, ?_, (Finding.le_iff_not_lt g f).mp hle, Finding.severity_le_of_le g f hle⟩
    rw [← hkey]
    exact filter_key_eq_singleton (Finding.deduplicate_keys_nodup _) hg
  distinct := Finding.deduplicate_keys_nodup _
  ordered := (Finding.deduplicate_pairwise _).imp fun hle => (Finding.le_iff_not_gt _ _).mp hle

private theorem mem_collected_iff (found errors : List Finding) (f : Finding) :
    f ∈ errors ++ found.filter (fun f => !f.severity.isReportable && f.hasLookupError) ↔
      f ∈ errors ∨ (f ∈ found ∧ f.IsFailure) := by
  simp [Finding.IsFailure, Severity.isReportable]

theorem filter_isFailure (found : List Finding) :
    (found.filter fun f => f.IsFailure) =
      found.filter fun f => !f.severity.isReportable && f.hasLookupError := by
  apply List.filter_congr
  intro f _
  rw [Bool.eq_iff_iff, decide_eq_true_iff]
  simp [Finding.IsFailure, Severity.isReportable]

/-- The sorted errors without repeats hold what failed. -/
theorem failures_aggregate (policy : Policy) (mode : ReportMode)
    (found errors : List Finding) :
    Failures found errors (aggregate policy mode found errors).errors where
  sound g hg := by
    have hsorted := (Finding.dropRepeats_sublist _).subset hg
    exact (mem_collected_iff found errors g).mp ((Finding.mem_sorted g _).mp hsorted)
  complete f hf := by
    have hsorted := (Finding.mem_sorted f _).mpr ((mem_collected_iff found errors f).mpr hf)
    obtain ⟨g, hg, hkey, hle⟩ :=
      Finding.exists_survivor_dropRepeats (Finding.sorted_pairwise _) hsorted
    exact ⟨g, hg, hkey, (Finding.le_iff_not_lt g f).mp hle⟩

/-- Clean findings take part in an aggregation only as errors. -/
theorem aggregate_separate (policy : Policy) (mode : ReportMode)
    (found errors : List Finding) :
    aggregate policy mode found errors =
      aggregate policy mode (found.filter fun f => f.severity ≠ .clean)
        (errors ++ found.filter fun f => f.IsFailure) := by
  have hsurfaced : (found.filter fun f => f.severity ≠ .clean).filter
      (fun f => f.severity.isReportable) =
        found.filter fun f => f.severity.isReportable := by
    rw [List.filter_filter]
    apply List.filter_congr
    intro f _
    simp [Severity.isReportable, bne]
  have hnone : (found.filter fun f => f.severity ≠ .clean).filter
      (fun f => !f.severity.isReportable && f.hasLookupError) = [] := by
    rw [List.filter_eq_nil_iff]
    intro f hf
    have hclean : f.severity ≠ .clean := by simpa using (List.mem_filter.mp hf).2
    simp [Severity.isReportable, hclean]
  simp only [aggregate, hsurfaced, hnone, filter_isFailure, List.append_nil]

/-- A report without a threshold is exact: what it shows represents what was
found, its summary counts what it shows, and the failures among the clean
findings, but none of the others, are left to the errors. -/
theorem aggregate_all_exact (policy : Policy) (found errors : List Finding) :
    let report := aggregate policy .all found errors
    Represents found report.findings ∧
      report.summary.Counts report.findings ∧
      Failures found errors report.errors ∧
      report = aggregate policy .all (found.filter fun f => f.severity ≠ .clean)
        (errors ++ found.filter fun f => f.IsFailure) :=
  ⟨represents_deduplicate found, Summary.ofFindings_counts _,
    failures_aggregate policy .all found errors, aggregate_separate policy .all found errors⟩

/-- The result does not depend on the order in which findings and errors come
in, provided that those which compare equal are identical. -/
theorem aggregate_eq_of_perm (policy : Policy) (mode : ReportMode)
    (found found' errors errors' : List Finding)
    (hseparated : ∀ a ∈ found ++ errors, ∀ b ∈ found ++ errors,
      a.order b = .eq → a = b)
    (hfound : found.Perm found') (herrors : errors.Perm errors') :
    aggregate policy mode found errors = aggregate policy mode found' errors' := by
  have hunique :
      Finding.deduplicate (found.filter fun f => f.severity.isReportable) =
        Finding.deduplicate (found'.filter fun f => f.severity.isReportable) := by
    apply Finding.deduplicate_eq_of_perm _ _ (hfound.filter _)
    intro a ha b hb
    exact hseparated a (List.mem_append_left _ (List.mem_filter.mp ha).1)
      b (List.mem_append_left _ (List.mem_filter.mp hb).1)
  have hsorted :
      Finding.sorted
          (errors ++ found.filter fun f => !f.severity.isReportable && f.hasLookupError) =
        Finding.sorted
          (errors' ++ found'.filter fun f => !f.severity.isReportable && f.hasLookupError) := by
    apply Finding.sorted_eq_of_perm _ _ (herrors.append (hfound.filter _))
    have hcollected : ∀ f ∈ errors ++ found.filter
        (fun f => !f.severity.isReportable && f.hasLookupError), f ∈ found ++ errors := by
      intro f hf
      rcases (mem_collected_iff found errors f).mp hf with hf | ⟨hf, -⟩
      · exact List.mem_append_right found hf
      · exact List.mem_append_left errors hf
    intro a ha b hb
    exact hseparated a (hcollected a ha) b (hcollected b hb)
  simp only [aggregate, hunique, hsorted]

def mentionedRoute : Finding :=
  .new .endpoint "Exposed Sensitive Endpoint" .low (.atLine ⟨"server.js"⟩ 2) "literal"

def registeredRoute : Finding :=
  .new .endpoint "Exposed Sensitive Endpoint" .medium (.atLine ⟨"server.js"⟩ 2) "route"

def failedLookup (name : String) : Finding :=
  (Finding.new .dependency "Dependency Lookup Failed" .clean (.package name "1.0.0")
      "failed").withPayload
    (.dependency ⟨"npm", ⟨"package.json"⟩, [], none, .clean, some "timeout"⟩)

/-- Two findings with one key, one that moves to the errors, and two errors,
all of them also in the opposite order. -/
theorem aggregate_sample_reversed :
    let found := [registeredRoute, mentionedRoute, failedLookup "lodash"]
    let errors := [failedLookup "next", failedLookup "qs"]
    aggregate {} .threshold found errors =
      aggregate {} .threshold found.reverse errors.reverse :=
  aggregate_eq_of_perm {} .threshold _ _ _ _
    (Finding.separated_of_increasing (by decide))
    (List.reverse_perm _).symm (List.reverse_perm _).symm

end WebAudit
