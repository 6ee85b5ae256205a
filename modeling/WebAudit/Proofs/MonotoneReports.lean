import Mathlib.Data.List.Basic
import WebAudit.Proofs.Threshold

/-!
Reports only grow. With more findings every key that was reported stays, at the
same severity or a higher one, although another finding may stand for it. A
policy that asks for less, with a lower threshold, more rules, a lower exit
threshold or fewer exemptions, reports what was reported before and more. In
neither way does a run that fails become one that passes.
-/

namespace WebAudit

theorem Severity.le_iff_rank (a b : Severity) : a ≤ b ↔ a.rank ≤ b.rank := Iff.rfl

theorem Severity.min_le_iff (a b s : Severity) : min a b ≤ s ↔ a ≤ s ∨ b ≤ s := by
  have hmin : min a b = if a ≤ b then a else b := rfl
  rw [hmin]
  split <;> rename_i hfirst <;> rw [le_iff_rank] at hfirst <;> simp only [le_iff_rank] <;> omega

namespace Policy

private theorem foldl_min_le_iff (floors : List Severity) (start s : Severity) :
    floors.foldl min start ≤ s ↔ start ≤ s ∨ ∃ floor ∈ floors, floor ≤ s := by
  induction floors generalizing start with
  | nil => simp
  | cons floor rest ih =>
      rw [List.foldl_cons, ih, Severity.min_le_iff, List.exists_mem_cons_iff, or_assoc]

/-- A severity reaches the floor of a finding when it reaches the threshold or
the floor of one rule about the finding. -/
theorem floorFor_le_iff (p : Policy) (f : Finding) (s : Severity) :
    p.floorFor f ≤ s ↔
      p.threshold ≤ s ∨ ∃ rule ∈ p.widen, rule.applies f ∧ rule.floor ≤ s := by
  rw [floorFor, foldl_min_le_iff]
  simp [and_assoc]

/-- One policy asks for no more than another: its threshold and exit threshold
are not higher, it has all the rules of the other one, and it exempts no further
category. -/
structure Relaxes (q p : Policy) : Prop where
  threshold : q.threshold ≤ p.threshold
  widen : ∀ rule ∈ p.widen, rule ∈ q.widen
  exitThreshold : q.exitThreshold ≤ p.exitThreshold
  exitExempt : ∀ category ∈ q.exitExempt, category ∈ p.exitExempt

theorem Relaxes.keeps {p q : Policy} (hrelaxes : q.Relaxes p) {f : Finding}
    (hkeeps : p.keeps f) : q.keeps f := by
  simp only [Policy.keeps, decide_eq_true_eq] at hkeeps ⊢
  rw [floorFor_le_iff] at hkeeps ⊢
  rcases hkeeps with hthreshold | ⟨rule, hrule, happlies, hfloor⟩
  · exact Or.inl (Nat.le_trans hrelaxes.threshold hthreshold)
  · exact Or.inr ⟨rule, hrelaxes.widen rule hrule, happlies, hfloor⟩

theorem Relaxes.triggersExit {p q : Policy} (hrelaxes : q.Relaxes p) {f : Finding}
    (htriggers : p.triggersExit f) : q.triggersExit f := by
  simp only [Policy.triggersExit, Bool.and_eq_true, decide_eq_true_eq, Bool.not_eq_true',
    List.contains_eq_mem, decide_eq_false_iff_not] at htriggers ⊢
  obtain ⟨hsevere, hexempt⟩ := htriggers
  exact ⟨Nat.le_trans hrelaxes.exitThreshold hsevere,
    fun hmember => hexempt (hrelaxes.exitExempt _ hmember)⟩

end Policy

/-- What a report shows, in either mode: the survivors that the policy keeps. -/
theorem mem_aggregate_findings_iff (policy : Policy) (mode : ReportMode)
    (found errors : List Finding) (f : Finding) :
    f ∈ (aggregate policy mode found errors).findings ↔
      f ∈ Finding.deduplicate (found.filter fun g => g.severity.isReportable) ∧
        (mode = .threshold → policy.keeps f) := by
  cases mode <;> simp [aggregate]

/-- With a finding a report on more findings shows one of its key that may stand
before it. -/
theorem exists_shown_among_more {policy : Policy} {mode : ReportMode}
    {found errors : List Finding} {f : Finding} (more errors' : List Finding)
    (hshown : f ∈ (aggregate policy mode found errors).findings) :
    ∃ g ∈ (aggregate policy mode (found ++ more) errors').findings, g.key = f.key ∧ g.le f := by
  obtain ⟨hsurvivor, hkept⟩ := (mem_aggregate_findings_iff _ _ _ _ _).mp hshown
  have hfound : f ∈ (found ++ more).filter fun g => g.severity.isReportable := by
    rw [List.filter_append]
    exact List.mem_append_left _ (Finding.mem_of_mem_deduplicate hsurvivor)
  obtain ⟨g, hg, hkey, hle⟩ := Finding.exists_survivor hfound
  refine ⟨g, (mem_aggregate_findings_iff _ _ _ _ _).mpr ⟨hg, ?_⟩, hkey, hle⟩
  exact fun hmode => policy.keeps_of_le hkey hle (hkept hmode)

theorem aggregate_shouldFail_of_more {policy : Policy} {mode : ReportMode}
    {found errors : List Finding} (more errors' : List Finding)
    (hfails : (aggregate policy mode found errors).shouldFail) :
    (aggregate policy mode (found ++ more) errors').shouldFail := by
  cases mode with
  | all => simp [aggregate] at hfails
  | threshold =>
      rw [aggregate_shouldFail_iff] at hfails ⊢
      obtain ⟨f, hf, hfails⟩ := hfails
      exact ⟨f, List.mem_append_left more hf, hfails⟩

theorem aggregate_findings_sublist_of_relaxes {p q : Policy} (hrelaxes : q.Relaxes p)
    (found errors errors' : List Finding) :
    (aggregate p .threshold found errors).findings.Sublist
      (aggregate q .threshold found errors').findings :=
  List.monotone_filter_right _ fun _ hkeeps => hrelaxes.keeps hkeeps

theorem aggregate_shouldFail_of_relaxes {p q : Policy} (hrelaxes : q.Relaxes p)
    {found errors : List Finding} (errors' : List Finding)
    (hfails : (aggregate p .threshold found errors).shouldFail) :
    (aggregate q .threshold found errors').shouldFail := by
  rw [aggregate_shouldFail_iff] at hfails ⊢
  obtain ⟨f, hf, hclean, hkeeps, htriggers⟩ := hfails
  exact ⟨f, hf, hclean, hrelaxes.keeps hkeeps, hrelaxes.triggersExit htriggers⟩

theorem aggregate_keys_nodup (policy : Policy) (mode : ReportMode)
    (found errors : List Finding) :
    ((aggregate policy mode found errors).findings.map Finding.key).Nodup := by
  have hkeys := (represents_deduplicate found).distinct
  cases mode with
  | all => exact hkeys
  | threshold => exact hkeys.sublist (List.filter_sublist.map Finding.key)

/-- Reports are monotone in the findings and in the policy. With more findings
each key stays reported, by one finding that is no less severe, and a failing
run still fails. Under a policy that asks for no more, the findings are among
those shown, in the same order, and a failing run still fails. -/
theorem reports_only_grow (policy : Policy) (found errors errors' : List Finding) :
    (∀ mode more,
      (∀ f ∈ (aggregate policy mode found errors).findings,
        ∃ g, (aggregate policy mode (found ++ more) errors').findings.filter
            (fun h => h.key = f.key) = [g] ∧ f.severity ≤ g.severity) ∧
      ((aggregate policy mode found errors).shouldFail →
        (aggregate policy mode (found ++ more) errors').shouldFail)) ∧
    ∀ relaxed : Policy, relaxed.Relaxes policy →
      (aggregate policy .threshold found errors).findings.Sublist
        (aggregate relaxed .threshold found errors').findings ∧
      ((aggregate policy .threshold found errors).shouldFail →
        (aggregate relaxed .threshold found errors').shouldFail) := by
  constructor
  · intro mode more
    refine ⟨?_, aggregate_shouldFail_of_more more errors'⟩
    intro f hf
    obtain ⟨g, hg, hkey, hle⟩ := exists_shown_among_more more errors' hf
    refine ⟨g, ?_, Finding.severity_le_of_le g f hle⟩
    rw [← hkey]
    exact filter_key_eq_singleton (aggregate_keys_nodup _ _ _ _) hg
  · intro relaxed hrelaxes
    exact ⟨aggregate_findings_sublist_of_relaxes hrelaxes found errors errors',
      aggregate_shouldFail_of_relaxes hrelaxes errors'⟩

def mediumPolicy : Policy := { threshold := .medium, exitThreshold := .medium }

/-- A run that fails for a route under one policy fails under a policy with one
more rule, and with one more finding. -/
theorem route_reports_grow :
    let wider := { mediumPolicy with widen := ⟨.endpoint, none, .low⟩ :: mediumPolicy.widen }
    wider.Relaxes mediumPolicy ∧
      (aggregate mediumPolicy .threshold [registeredRoute] []).shouldFail ∧
      (aggregate wider .threshold [registeredRoute] []).shouldFail ∧
      (aggregate mediumPolicy .threshold ([registeredRoute] ++ [mentionedRoute]) []).shouldFail := by
  intro wider
  have hrelaxes : wider.Relaxes mediumPolicy :=
    ⟨Nat.le_refl _, fun rule hrule => List.mem_cons_of_mem _ hrule, Nat.le_refl _, fun _ h => h⟩
  have hfails : (aggregate mediumPolicy .threshold [registeredRoute] []).shouldFail :=
    (aggregate_shouldFail_iff _ _ _).mpr
      ⟨registeredRoute, List.mem_singleton_self _, by decide, by decide, by decide⟩
  have hgrow := reports_only_grow mediumPolicy [registeredRoute] [] []
  exact ⟨hrelaxes, hfails, (hgrow.2 wider hrelaxes).2 hfails,
    (hgrow.1 .threshold [mentionedRoute]).2 hfails⟩

end WebAudit
