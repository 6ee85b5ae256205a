import WebAudit.Proofs.RepeatedKeys
import WebAudit.Proofs.Threshold

/-!
Findings can be merged in parts. What deduplication leaves is settled key by
key: the finding that stays for a key is the earliest of those with the key,
and of several that compare equal the one that came in first. For two lists
one after the other it is therefore the earlier of what each list leaves for
the key. Findings that compare equal share their key, so two deduplicated lists
that agree on every key are the same list. A report shows what deduplication
leaves of the findings that the policy lets through, and is merged like it.
-/

namespace WebAudit

theorem find?_firstOfEachFrom {α β : Type} [BEq β] [LawfulBEq β] (key : α → β) (seen : List β)
    (items : List α) {k : β} (hunseen : k ∉ seen) :
    (firstOfEachFrom key seen items).find? (fun a => key a == k) =
      items.find? fun a => key a == k := by
  induction items generalizing seen with
  | nil => rfl
  | cons a rest ih =>
      by_cases hkey : key a = k
      · simp [firstOfEachFrom, hkey, hunseen]
      · have hunseen' : k ∉ key a :: seen := by
          simp only [List.mem_cons, not_or]
          exact ⟨fun hsame => hkey hsame.symm, hunseen⟩
        simp only [firstOfEachFrom]
        split
        · simp [hkey, ih seen hunseen]
        · simp [hkey, ih (key a :: seen) hunseen']

namespace Finding

/-- The one of two findings that stands first in a report; if they compare
equal, the left one. -/
def earlier : Option Finding → Option Finding → Option Finding
  | none, b => b
  | some a, none => some a
  | some a, some b => some (if a.le b then a else b)

/-- The earliest finding with a key; of several that compare equal, the first. -/
def survivor? (k : Key) : List Finding → Option Finding
  | [] => none
  | f :: rest => if f.key = k then earlier (some f) (survivor? k rest) else survivor? k rest

theorem earlier_assoc (a b c : Option Finding) :
    earlier (earlier a b) c = earlier a (earlier b c) := by
  rcases a with _ | a
  · rfl
  rcases b with _ | b
  · rfl
  rcases c with _ | c
  · rfl
  have htrans := le_trans a b c
  by_cases hab : a.le b <;> by_cases hbc : b.le c
  · simp [earlier, hab, hbc, htrans hab hbc]
  · simp [earlier, hab, hbc]
  · simp [earlier, hab, hbc]
  · have hcb : c.le b := by
      have htotal := le_total b c
      simpa [hbc] using htotal
    have hac : ¬a.le c := fun hac => hab (le_trans a c b hac hcb)
    simp [earlier, hab, hbc, hac]

theorem survivor?_append (k : Key) (fs gs : List Finding) :
    survivor? k (fs ++ gs) = earlier (survivor? k fs) (survivor? k gs) := by
  induction fs with
  | nil => rfl
  | cons f rest ih =>
      by_cases hkey : f.key = k
      · simp only [List.cons_append, survivor?, hkey, if_true, ih, earlier_assoc]
      · simp only [List.cons_append, survivor?, hkey, if_false, ih]

/-- A stable sort brings the survivor of a key before all others with it. -/
theorem find?_sorted (k : Key) (fs : List Finding) :
    (sorted fs).find? (fun f => f.key == k) = survivor? k fs := by
  induction fs with
  | nil => simp [sorted, survivor?]
  | cons f rest ih =>
      obtain ⟨low, high, hsorted, hrest, hlow⟩ := List.mergeSort_cons le_trans le_total f rest
      have hpairwise := sorted_pairwise (f :: rest)
      unfold sorted at ih hpairwise ⊢
      rw [hsorted] at hpairwise ⊢
      rw [hrest, List.find?_append] at ih
      have hhigh : ∀ g ∈ high, f.le g :=
        (List.pairwise_cons.mp (List.pairwise_append.mp hpairwise).2.1).1
      rw [List.find?_append, survivor?, ← ih]
      by_cases hkey : f.key = k
      · rw [if_pos hkey, List.find?_cons_of_pos (by simpa using hkey)]
        cases hfirst : low.find? (fun g => g.key == k) with
        | some g =>
            have hbehind : f.le g = false := by
              simpa using hlow g (List.mem_of_find?_eq_some hfirst)
            simp [earlier, hbehind]
        | none =>
            cases hnext : high.find? (fun g => g.key == k) with
            | some g =>
                have hbefore : f.le g := hhigh g (List.mem_of_find?_eq_some hnext)
                simp [earlier, hbefore]
            | none => simp [earlier]
      · rw [if_neg hkey, List.find?_cons_of_neg (by simpa using hkey)]

theorem find?_deduplicate (k : Key) (fs : List Finding) :
    (deduplicate fs).find? (fun f => f.key == k) = survivor? k fs := by
  rw [deduplicate_eq_firstOfEachFrom, find?_firstOfEachFrom key [] _ List.not_mem_nil, find?_sorted]

/-- Deduplication leaves what it needs to be done again. -/
theorem survivor?_deduplicate (k : Key) (fs : List Finding) :
    survivor? k (deduplicate fs) = survivor? k fs := by
  have hsorted : sorted (deduplicate fs) = deduplicate fs :=
    List.mergeSort_of_pairwise (deduplicate_pairwise fs)
  rw [← find?_sorted, hsorted, find?_deduplicate]

theorem mem_deduplicate_iff (f : Finding) (fs : List Finding) :
    f ∈ deduplicate fs ↔ survivor? f.key fs = some f := by
  rw [← find?_deduplicate]
  constructor
  · intro hmember
    rw [deduplicate_eq_firstOfEachFrom] at hmember ⊢
    rw [find?_firstOfEachFrom key [] _ List.not_mem_nil]
    exact find?_eq_of_mem_firstOfEachFrom key [] (sorted fs) hmember
  · exact fun hfind => List.mem_of_find?_eq_some hfind

/-- Two lists that leave the same for every key leave the same list. -/
theorem deduplicate_eq_of_survivors {fs gs : List Finding}
    (hsurvivors : ∀ k, survivor? k fs = survivor? k gs) : deduplicate fs = deduplicate gs := by
  have hmembers : ∀ f, f ∈ deduplicate fs ↔ f ∈ deduplicate gs := by
    intro f
    rw [mem_deduplicate_iff, mem_deduplicate_iff, hsurvivors]
  have hperm : (deduplicate fs).Perm (deduplicate gs) :=
    (List.perm_ext_iff_of_nodup (deduplicate_keys_nodup fs).of_map
      (deduplicate_keys_nodup gs).of_map).mpr hmembers
  apply hperm.eq_of_pairwise _ (deduplicate_pairwise fs) (deduplicate_pairwise gs)
  intro a b ha hb hab hba
  have hkey : a.key = b.key := key_eq_of_order_eq (order_eq_of_le_of_le a b hab hba)
  exact List.inj_on_of_nodup_map (deduplicate_keys_nodup fs) ha ((hmembers b).mpr hb) hkey

theorem deduplicate_deduplicate (fs : List Finding) :
    deduplicate (deduplicate fs) = deduplicate fs :=
  deduplicate_eq_of_survivors fun k => survivor?_deduplicate k fs

theorem deduplicate_append_left (fs gs : List Finding) :
    deduplicate (deduplicate fs ++ gs) = deduplicate (fs ++ gs) := by
  apply deduplicate_eq_of_survivors
  intro k
  rw [survivor?_append, survivor?_append, survivor?_deduplicate]

theorem deduplicate_append_both (fs gs : List Finding) :
    deduplicate (deduplicate fs ++ deduplicate gs) = deduplicate (fs ++ gs) := by
  apply deduplicate_eq_of_survivors
  intro k
  rw [survivor?_append, survivor?_append, survivor?_deduplicate, survivor?_deduplicate]

end Finding

/-- Whether a report has room for a finding: it is not clean, and a threshold,
if there is one, keeps it. -/
def Policy.shows (p : Policy) (mode : ReportMode) (f : Finding) : Bool :=
  f.severity.isReportable && (mode == .all || p.keeps f)

/-- In either mode a report shows what deduplication leaves of the findings it
has room for. -/
theorem aggregate_findings_eq (policy : Policy) (mode : ReportMode) (found errors : List Finding) :
    (aggregate policy mode found errors).findings =
      Finding.deduplicate (found.filter (policy.shows mode)) := by
  cases mode with
  | all =>
      have hshows : policy.shows .all = fun f => f.severity.isReportable := by
        funext f
        simp [Policy.shows]
      rw [hshows]
      rfl
  | threshold =>
      have hshows : policy.shows .threshold =
          fun f => f.severity.isReportable && policy.keeps f := rfl
      rw [aggregate_threshold_findings, hshows, ← List.filter_filter]
      rfl

theorem filter_shows_findings (policy : Policy) (mode : ReportMode) (found errors : List Finding) :
    (aggregate policy mode found errors).findings.filter (policy.shows mode) =
      (aggregate policy mode found errors).findings := by
  rw [aggregate_findings_eq, List.filter_eq_self]
  intro f hf
  exact (List.mem_filter.mp (Finding.mem_of_mem_deduplicate hf)).2

/-- Deduplication and reports may be built in parts: what was left or shown so
far can take the place of the findings it was made from, when more findings
come in and when none do. -/
theorem merging_in_parts (fs gs : List Finding) :
    Finding.deduplicate (fs ++ gs) = Finding.deduplicate (Finding.deduplicate fs ++ gs) ∧
    Finding.deduplicate (fs ++ gs) =
      Finding.deduplicate (Finding.deduplicate fs ++ Finding.deduplicate gs) ∧
    Finding.deduplicate (Finding.deduplicate fs) = Finding.deduplicate fs ∧
    ∀ (policy : Policy) (mode : ReportMode) (errors errors' errors'' : List Finding),
      let shown := (aggregate policy mode fs errors).findings
      (aggregate policy mode (fs ++ gs) errors').findings =
          (aggregate policy mode (shown ++ gs) errors'').findings ∧
        (aggregate policy mode shown errors').findings = shown := by
  refine ⟨(Finding.deduplicate_append_left fs gs).symm,
    (Finding.deduplicate_append_both fs gs).symm, Finding.deduplicate_deduplicate fs, ?_⟩
  intro policy mode errors errors' errors'' shown
  have hshown : shown = Finding.deduplicate (fs.filter (policy.shows mode)) :=
    aggregate_findings_eq policy mode fs errors
  have hstays : shown.filter (policy.shows mode) = shown :=
    filter_shows_findings policy mode fs errors
  constructor
  · rw [aggregate_findings_eq, aggregate_findings_eq, List.filter_append, List.filter_append,
      hstays, hshown, Finding.deduplicate_append_left]
  · rw [aggregate_findings_eq, hstays, hshown, Finding.deduplicate_deduplicate]

end WebAudit
