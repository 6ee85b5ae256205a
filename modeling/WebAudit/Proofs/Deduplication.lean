import WebAudit.Proofs.FirstOfEach
import WebAudit.Proofs.ReportOrder

/-!
One finding for each key. Deduplication sorts first and then keeps the first
finding of each key, so the one that stays is a least one of its key in the
report order, although the key is no initial part of what the order compares.
Failed lookups are thinned out by dropping repeats from the sorted list
instead. That also leaves a representative of each key that stands no later
than what it represents.
-/

namespace WebAudit.Finding

theorem firsts_eq_firstOfEachFrom (seen : List Key) (fs : List Finding) :
    firsts seen fs = firstOfEachFrom key seen fs := by
  induction fs generalizing seen with
  | nil => rfl
  | cons f rest ih => simp only [firsts, firstOfEachFrom, ih]

theorem deduplicate_eq_firstOfEachFrom (fs : List Finding) :
    deduplicate fs = firstOfEachFrom key [] (sorted fs) :=
  firsts_eq_firstOfEachFrom [] (sorted fs)

theorem deduplicate_sublist_sorted (fs : List Finding) :
    (deduplicate fs).Sublist (sorted fs) := by
  rw [deduplicate_eq_firstOfEachFrom]
  exact firstOfEachFrom_sublist key [] (sorted fs)

theorem mem_of_mem_deduplicate {f : Finding} {fs : List Finding}
    (hmember : f ∈ deduplicate fs) : f ∈ fs :=
  (mem_sorted f fs).mp ((deduplicate_sublist_sorted fs).subset hmember)

theorem deduplicate_pairwise (fs : List Finding) :
    (deduplicate fs).Pairwise fun a b => a.le b :=
  (sorted_pairwise fs).sublist (deduplicate_sublist_sorted fs)

theorem deduplicate_keys_nodup (fs : List Finding) :
    ((deduplicate fs).map key).Nodup := by
  rw [deduplicate_eq_firstOfEachFrom]
  exact firstOfEachFrom_keys_nodup key [] (sorted fs)

/-- The finding that stays for a key may stand before each one with it. -/
theorem exists_survivor {f : Finding} {fs : List Finding} (hmember : f ∈ fs) :
    ∃ g ∈ deduplicate fs, g.key = f.key ∧ g.le f := by
  have hsorted : f ∈ sorted fs := (mem_sorted f fs).mpr hmember
  obtain ⟨g, hg, hkey, hbefore⟩ :=
    exists_first_before key (fun a b => a.le b) [] (sorted fs)
      (sorted_pairwise fs) hsorted List.not_mem_nil
  rw [← deduplicate_eq_firstOfEachFrom] at hg
  refine ⟨g, hg, hkey, ?_⟩
  rcases hbefore with rfl | hbefore
  · exact le_refl g
  · exact hbefore

/-- A filter that keeps with a finding also those of its key that may stand
before it can be applied to the findings or to what is left of them. -/
theorem filter_deduplicate (keep : Finding → Bool) (fs : List Finding)
    (hclosed : ∀ a b : Finding, a.key = b.key → a.le b → keep b → keep a) :
    (deduplicate fs).filter keep = deduplicate (fs.filter keep) := by
  rw [deduplicate_eq_firstOfEachFrom, deduplicate_eq_firstOfEachFrom, sorted_filter]
  apply filter_firstOfEachFrom
  apply (sorted_pairwise fs).imp
  intro a b hle hkey
  exact hclosed a b hkey hle

theorem deduplicate_eq_of_perm (fs gs : List Finding) (hperm : fs.Perm gs)
    (hseparated : ∀ a ∈ fs, ∀ b ∈ fs, a.order b = .eq → a = b) :
    deduplicate fs = deduplicate gs := by
  unfold deduplicate
  rw [sorted_eq_of_perm fs gs hperm hseparated]

private theorem dropRepeatsAfter_sublist (last : Finding) (fs : List Finding) :
    (dropRepeats.dropRepeatsAfter last fs).Sublist fs := by
  induction fs generalizing last with
  | nil => exact List.Sublist.slnil
  | cons f rest ih =>
      simp only [dropRepeats.dropRepeatsAfter]
      split
      · exact (ih last).cons f
      · exact (ih f).cons_cons f

theorem dropRepeats_sublist (fs : List Finding) : (dropRepeats fs).Sublist fs := by
  cases fs with
  | nil => exact List.Sublist.slnil
  | cons f rest => exact (dropRepeatsAfter_sublist f rest).cons_cons f

/-- The invariant of the scan: the last finding that was kept, together with
what is kept later, represents itself and all that is still to come. -/
private theorem exists_kept_after (last : Finding) (fs : List Finding)
    (hordered : (last :: fs).Pairwise fun a b => a.le b)
    {f : Finding} (hmember : f ∈ last :: fs) :
    ∃ g ∈ last :: dropRepeats.dropRepeatsAfter last fs,
      g.key = f.key ∧ g.le f := by
  induction fs generalizing last with
  | nil =>
      obtain rfl : f = last := by simpa using hmember
      exact ⟨f, List.mem_cons_self, rfl, le_refl f⟩
  | cons b rest ih =>
      obtain ⟨hlast, hrest⟩ := List.pairwise_cons.mp hordered
      simp only [dropRepeats.dropRepeatsAfter]
      rcases List.mem_cons.mp hmember with rfl | hlater
      · exact ⟨f, List.mem_cons_self, rfl, le_refl f⟩
      split
      · rename_i hrepeat
        have hkey : b.key = last.key := by simpa [isDuplicateOf] using hrepeat
        rcases List.mem_cons.mp hlater with rfl | hlater
        · exact ⟨last, List.mem_cons_self, hkey.symm, hlast f List.mem_cons_self⟩
        · have hskip : (last :: rest).Pairwise fun a b => a.le b :=
            hordered.sublist ((List.sublist_cons_self b rest).cons_cons last)
          exact ih last hskip (List.mem_cons_of_mem last hlater)
      · obtain ⟨g, hg, hkey, hle⟩ := ih b hrest hlater
        exact ⟨g, List.mem_cons_of_mem last hg, hkey, hle⟩

theorem exists_survivor_dropRepeats {f : Finding} {fs : List Finding}
    (hordered : fs.Pairwise fun a b => a.le b) (hmember : f ∈ fs) :
    ∃ g ∈ dropRepeats fs, g.key = f.key ∧ g.le f := by
  cases fs with
  | nil => simp at hmember
  | cons last rest => exact exists_kept_after last rest hordered hmember

end WebAudit.Finding
