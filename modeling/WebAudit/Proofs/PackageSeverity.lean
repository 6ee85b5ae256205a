import Mathlib.Data.List.Basic
import WebAudit.Advisory.Resolution
import WebAudit.Proofs.NumberOrder

/-!
The severity of a package with several advisories. Advisories with a positive
score are rated by it; the package takes the worst of these ratings, and only
when there is none does it count as medium. An advisory on its own counts as
medium in that case too. So a package is as severe as the worst of its
advisories unless one without a positive score stands beside scores that are
all low. In that case, and when such a score is added to advisories without
any, the severity falls from medium to low.
-/

namespace WebAudit

open Number

namespace Severity

theorem rank_injective {a b : Severity} (hrank : a.rank = b.rank) : a = b := by
  cases a <;> cases b <;> simp_all [rank]

instance : LinearOrder Severity where
  le_refl a := Nat.le_refl a.rank
  le_trans _ _ _ hab hbc := Nat.le_trans hab hbc
  le_antisymm _ _ hab hba := rank_injective (Nat.le_antisymm hab hba)
  le_total a b := Nat.le_total a.rank b.rank
  toDecidableLE := inferInstance
  min_def _ _ := rfl
  max_def _ _ := rfl
  compare_eq_compareOfLessAndEq a b := by cases a <;> cases b <;> rfl

theorem clean_le (s : Severity) : .clean ≤ s := Nat.zero_le s.rank

def grade (v : WithBot (WithTop ℚ)) : Severity :=
  if (Binary.ofNat .single 9).value ≤ v then .critical
  else if (Binary.ofNat .single 7).value ≤ v then .high
  else if (Binary.ofNat .single 4).value ≤ v then .medium
  else if (Binary.zero .single).value < v then .low
  else .clean

theorem ofScore_eq_grade (x : Binary) : ofScore x = grade x.value := by
  have hnine := Binary.le_iff_of_isFinite (c := .ofNat .single 9) (by decide) x
  have hseven := Binary.le_iff_of_isFinite (c := .ofNat .single 7) (by decide) x
  have hfour := Binary.le_iff_of_isFinite (c := .ofNat .single 4) (by decide) x
  have hzero := Binary.lt_iff_of_isFinite (c := .zero .single) (by decide) x
  simp only [ofScore, grade, hnine, hseven, hfour, hzero]

theorem grade_monotone : Monotone grade := by
  intro v w hle
  unfold grade
  split
  · rename_i hv
    rw [if_pos (hv.trans hle)]
  split
  · rename_i hv
    rw [if_pos (hv.trans hle)]
    split <;> decide
  split
  · rename_i hv
    rw [if_pos (hv.trans hle)]
    split
    · decide
    split <;> decide
  split
  · rename_i hv
    rw [if_pos (hv.trans_le hle)]
    split
    · decide
    split
    · decide
    split <;> decide
  · exact clean_le _

theorem ofScore_greater (x y : Binary) :
    ofScore (x.greater y) = max (ofScore x) (ofScore y) := by
  rw [ofScore_eq_grade, ofScore_eq_grade, ofScore_eq_grade, Binary.value_greater,
    grade_monotone.map_max]

theorem zero_lt_of_le {c : Binary} {v : WithBot (WithTop ℚ)}
    (hpositive : (Binary.zero .single).lt c) (hle : c.value ≤ v) :
    (Binary.zero .single).value < v :=
  ((Binary.lt_iff_of_isFinite (by decide) c).mp hpositive).trans_le hle

theorem ofScore_eq_clean_iff (x : Binary) :
    ofScore x = .clean ↔ (Binary.zero .single).lt x = false := by
  have hzero := Binary.lt_iff_of_isFinite (c := .zero .single) (by decide) x
  rw [ofScore_eq_grade, ← Bool.not_eq_true, hzero]
  constructor
  · intro hgrade hpositive
    simp only [grade, hpositive, if_true] at hgrade
    repeat' split at hgrade
    all_goals cases hgrade
  · intro hlow
    have hnine : ¬(Binary.ofNat .single 9).value ≤ x.value :=
      fun hle => hlow (zero_lt_of_le (by decide) hle)
    have hseven : ¬(Binary.ofNat .single 7).value ≤ x.value :=
      fun hle => hlow (zero_lt_of_le (by decide) hle)
    have hfour : ¬(Binary.ofNat .single 4).value ≤ x.value :=
      fun hle => hlow (zero_lt_of_le (by decide) hle)
    simp only [grade, hnine, hseven, hfour, hlow, if_false]

theorem ofScore_ne_info (x : Binary) : ofScore x ≠ .info := by
  unfold ofScore
  dsimp only
  repeat' split
  all_goals simp

end Severity

namespace Advisory

/-- Whether an advisory has a positive score. -/
def isScored (a : Advisory) : Bool := a.score.any fun s => (Binary.zero .single).lt s

def rating (a : Advisory) : Severity := (a.score.map Severity.ofScore).getD .clean

theorem rating_eq_clean_iff (a : Advisory) : a.rating = .clean ↔ a.isScored = false := by
  unfold rating isScored
  cases a.score with
  | none => simp
  | some s => simpa using Severity.ofScore_eq_clean_iff s

theorem rating_ne_info (a : Advisory) : a.rating ≠ .info := by
  unfold rating
  cases a.score with
  | none => simp
  | some s => simpa using Severity.ofScore_ne_info s

theorem rating_ne_clean {a : Advisory} (hscored : a.isScored) : a.rating ≠ .clean := by
  rw [Ne, a.rating_eq_clean_iff, hscored]
  simp

theorem rating_lt_medium_iff {a : Advisory} (hscored : a.isScored) :
    ¬.medium ≤ a.rating ↔ a.rating = .low := by
  have hclean := rating_ne_clean hscored
  have hinfo := a.rating_ne_info
  cases h : a.rating <;> simp_all <;> decide

end Advisory

namespace Resolution

def worstRating (advisories : List Advisory) : Severity :=
  ((Advisory.greatestScore? (advisories.filterMap (·.score))).map Severity.ofScore).getD .clean

/-- One step of the search for the greatest score. -/
private theorem le_rating_step (best : Option Binary) (x : Binary) (s : Severity) :
    s ≤ Severity.ofScore ((best.map (·.greater x)).getD x) ↔
      s ≤ (best.map Severity.ofScore).getD .clean ∨ s ≤ Severity.ofScore x := by
  cases best with
  | none =>
      have hbelow : s ≤ .clean → s ≤ Severity.ofScore x :=
        fun hle => hle.trans (Severity.clean_le _)
      simpa using hbelow
  | some b => simp [Severity.ofScore_greater]

private theorem le_foldl_iff (advisories : List Advisory) (best : Option Binary) {s : Severity}
    (hsevere : ¬s ≤ .clean) :
    s ≤ (((advisories.filterMap (·.score)).foldl
        (fun best x => some ((best.map (·.greater x)).getD x)) best).map
          Severity.ofScore).getD .clean ↔
      s ≤ (best.map Severity.ofScore).getD .clean ∨ ∃ a ∈ advisories, s ≤ a.rating := by
  induction advisories generalizing best with
  | nil => simp
  | cons a rest ih =>
      cases hscore : a.score with
      | none =>
          have hrating : a.rating = .clean := by simp [Advisory.rating, hscore]
          rw [List.filterMap_cons_none hscore, ih, List.exists_mem_cons_iff, hrating]
          simp [hsevere]
      | some x =>
          have hrating : a.rating = Severity.ofScore x := by simp [Advisory.rating, hscore]
          rw [List.filterMap_cons_some hscore, List.foldl_cons, ih, List.exists_mem_cons_iff,
            hrating, Option.map_some, Option.getD_some, le_rating_step, or_assoc]

/-- The greatest score rates as bad as some advisory does, and no better than
any. -/
theorem le_worstRating_iff (advisories : List Advisory) {s : Severity} (hsevere : ¬s ≤ .clean) :
    s ≤ worstRating advisories ↔ ∃ a ∈ advisories, s ≤ a.rating := by
  unfold worstRating Advisory.greatestScore?
  rw [le_foldl_iff advisories none hsevere]
  simp [hsevere]

theorem rating_le_worstRating {advisories : List Advisory} {a : Advisory}
    (hmember : a ∈ advisories) : a.rating ≤ worstRating advisories := by
  by_cases hclean : a.rating ≤ .clean
  · exact hclean.trans (Severity.clean_le _)
  · exact (le_worstRating_iff advisories hclean).mpr ⟨a, hmember, le_rfl⟩

theorem exists_rating_eq_worstRating {advisories : List Advisory}
    (hsevere : worstRating advisories ≠ .clean) :
    ∃ a ∈ advisories, a.rating = worstRating advisories := by
  have hstrict : ¬worstRating advisories ≤ .clean :=
    fun hle => hsevere (hle.antisymm (Severity.clean_le _))
  obtain ⟨a, ha, hle⟩ := (le_worstRating_iff advisories hstrict).mp le_rfl
  exact ⟨a, ha, (rating_le_worstRating ha).antisymm hle⟩

theorem worstRating_eq_clean_iff (advisories : List Advisory) :
    worstRating advisories = .clean ↔ ∀ a ∈ advisories, a.isScored = false := by
  constructor
  · intro hclean a ha
    rw [← a.rating_eq_clean_iff]
    exact (hclean ▸ rating_le_worstRating ha).antisymm (Severity.clean_le _)
  · intro hunscored
    by_contra hsevere
    obtain ⟨a, ha, hrating⟩ := exists_rating_eq_worstRating hsevere
    exact hsevere (hrating ▸ a.rating_eq_clean_iff.mpr (hunscored a ha))

theorem worstRating_perm {advisories permuted : List Advisory}
    (hperm : advisories.Perm permuted) : worstRating advisories = worstRating permuted := by
  apply eq_of_forall_le_iff
  intro s
  by_cases hclean : s ≤ .clean
  · simp [hclean.trans (Severity.clean_le _)]
  · simp only [le_worstRating_iff _ hclean, hperm.mem_iff]

theorem worstRating_cons (a : Advisory) (advisories : List Advisory) :
    worstRating (a :: advisories) = max a.rating (worstRating advisories) := by
  apply eq_of_forall_le_iff
  intro s
  by_cases hclean : s ≤ .clean
  · simp [hclean.trans (Severity.clean_le _)]
  · rw [le_max_iff, le_worstRating_iff _ hclean, le_worstRating_iff _ hclean,
      List.exists_mem_cons_iff]

/-- The severity of a package is its worst rating, or medium if it has none. -/
theorem maxSeverity_eq {advisories : List Advisory} (hsome : advisories ≠ []) :
    (maxSeverity advisories).2 =
      if worstRating advisories = .clean then .medium else worstRating advisories := by
  unfold maxSeverity worstRating
  rw [if_neg (by simpa using hsome)]
  cases Advisory.greatestScore? (advisories.filterMap (·.score)) with
  | none => simp
  | some score =>
      have hclean := Severity.ofScore_eq_clean_iff score
      cases hpositive : (Binary.zero .single).lt score <;> simp [hpositive, hclean]

theorem maxSeverity_singleton (a : Advisory) :
    (maxSeverity [a]).2 = if a.rating = .clean then .medium else a.rating := by
  have hworst : worstRating [a] = a.rating := by
    rw [worstRating_cons]
    exact max_eq_left (Severity.clean_le _)
  rw [maxSeverity_eq (by simp), hworst]

/-- The worst of the severities that the advisories of a list have alone. -/
def WorstOf (advisories : List Advisory) (s : Severity) : Prop :=
  (∃ a ∈ advisories, (maxSeverity [a]).2 = s) ∧ ∀ a ∈ advisories, (maxSeverity [a]).2 ≤ s

/-- An advisory without a positive score stands beside positive scores that
are all low. -/
def Masks (advisories : List Advisory) : Prop :=
  (∃ a ∈ advisories, a.isScored = false) ∧ (∃ a ∈ advisories, a.isScored) ∧
    ∀ a ∈ advisories, a.isScored → (maxSeverity [a]).2 = .low

theorem maxSeverity_unscored {a : Advisory} (hscored : a.isScored = false) :
    (maxSeverity [a]).2 = .medium := by
  rw [maxSeverity_singleton, if_pos (a.rating_eq_clean_iff.mpr hscored)]

theorem maxSeverity_scored {a : Advisory} (hscored : a.isScored) :
    (maxSeverity [a]).2 = a.rating := by
  rw [maxSeverity_singleton, if_neg (Advisory.rating_ne_clean hscored)]

/-- Without a positive score a package counts as medium. -/
theorem maxSeverity_of_unscored {advisories : List Advisory} (hsome : advisories ≠ [])
    (hunscored : ∀ a ∈ advisories, a.isScored = false) :
    (maxSeverity advisories).2 = .medium := by
  rw [maxSeverity_eq hsome, if_pos ((worstRating_eq_clean_iff advisories).mpr hunscored)]

/-- With positive scores a package is as severe as the worst of those. -/
theorem worstOf_scored {advisories : List Advisory} {b : Advisory} (hb : b ∈ advisories)
    (hscored : b.isScored) :
    WorstOf (advisories.filter Advisory.isScored) (maxSeverity advisories).2 := by
  have hsome : advisories ≠ [] := List.ne_nil_of_mem hb
  have hsevere : worstRating advisories ≠ .clean := by
    intro hclean
    have hunscored := (worstRating_eq_clean_iff advisories).mp hclean b hb
    simp [hscored] at hunscored
  rw [maxSeverity_eq hsome, if_neg hsevere]
  constructor
  · obtain ⟨a, ha, hrating⟩ := exists_rating_eq_worstRating hsevere
    have hascored : a.isScored := by
      by_contra hunscored
      exact hsevere (hrating ▸ a.rating_eq_clean_iff.mpr (by simpa using hunscored))
    exact ⟨a, List.mem_filter.mpr ⟨ha, hascored⟩, (maxSeverity_scored hascored).trans hrating⟩
  · intro a ha
    obtain ⟨ha, hascored⟩ := List.mem_filter.mp ha
    rw [maxSeverity_scored hascored]
    exact rating_le_worstRating ha

theorem Masks.maxSeverity_eq {advisories : List Advisory} (hmasks : Masks advisories) :
    (maxSeverity advisories).2 = .low := by
  obtain ⟨-, ⟨b, hb, hscored⟩, hlow⟩ := hmasks
  obtain ⟨c, hc, hworst⟩ := (worstOf_scored hb hscored).1
  obtain ⟨hc, hcscored⟩ := List.mem_filter.mp hc
  rw [← hworst, hlow c hc hcscored]

/-- With positive scores a package is below medium only if all of them are low. -/
theorem masks_of_lt_medium {advisories : List Advisory} {a b : Advisory} (ha : a ∈ advisories)
    (hunscored : a.isScored = false) (hb : b ∈ advisories) (hscored : b.isScored)
    (hless : ¬.medium ≤ (maxSeverity advisories).2) : Masks advisories := by
  refine ⟨⟨a, ha, hunscored⟩, ⟨b, hb, hscored⟩, ?_⟩
  intro d hd hdscored
  have hle := (worstOf_scored hb hscored).2 d (List.mem_filter.mpr ⟨hd, hdscored⟩)
  rw [maxSeverity_scored hdscored] at hle ⊢
  apply (Advisory.rating_lt_medium_iff hdscored).mp
  exact fun hmedium => hless (hmedium.trans hle)

theorem worstOf_iff_not_masks {advisories : List Advisory} (hsome : advisories ≠ []) :
    WorstOf advisories (maxSeverity advisories).2 ↔ ¬Masks advisories := by
  constructor
  · rintro ⟨-, hbound⟩ hmasks
    obtain ⟨a, ha, hunscored⟩ := hmasks.1
    have hmedium := hbound a ha
    rw [maxSeverity_unscored hunscored, hmasks.maxSeverity_eq] at hmedium
    exact absurd hmedium (by decide)
  · intro hmasks
    by_cases hany : ∃ b ∈ advisories, b.isScored
    · obtain ⟨b, hb, hscored⟩ := hany
      obtain ⟨⟨c, hc, hworst⟩, hbound⟩ := worstOf_scored hb hscored
      refine ⟨⟨c, (List.mem_filter.mp hc).1, hworst⟩, ?_⟩
      intro a ha
      cases hascored : a.isScored with
      | true => exact hbound a (List.mem_filter.mpr ⟨ha, hascored⟩)
      | false =>
          rw [maxSeverity_unscored hascored]
          by_contra hless
          exact hmasks (masks_of_lt_medium ha hascored hb hscored hless)
    · have hunscored : ∀ a ∈ advisories, a.isScored = false := by
        intro a ha
        by_contra hscored
        exact hany ⟨a, ha, by simpa using hscored⟩
      rw [maxSeverity_of_unscored hsome hunscored]
      obtain ⟨first, hfirst⟩ := List.exists_mem_of_ne_nil advisories hsome
      refine ⟨⟨first, hfirst, maxSeverity_unscored (hunscored first hfirst)⟩, ?_⟩
      intro a ha
      exact (maxSeverity_unscored (hunscored a ha)).le

/-- One more advisory lowers the severity of a package exactly when it brings
the first positive score and that one is low. -/
theorem lowered_iff {advisories : List Advisory} (hsome : advisories ≠ []) (a : Advisory) :
    ¬(maxSeverity advisories).2 ≤ (maxSeverity (a :: advisories)).2 ↔
      (∀ b ∈ advisories, b.isScored = false) ∧ a.isScored ∧ (maxSeverity [a]).2 = .low := by
  rw [maxSeverity_eq hsome, maxSeverity_eq (List.cons_ne_nil a advisories), worstRating_cons,
    ← worstRating_eq_clean_iff]
  by_cases hclean : worstRating advisories = .clean
  · have hmax : max a.rating .clean = a.rating := max_eq_left (Severity.clean_le _)
    rw [if_pos hclean, hclean, hmax, ← maxSeverity_singleton]
    cases hscored : a.isScored with
    | false => simp [maxSeverity_unscored hscored]
    | true =>
        simpa [maxSeverity_scored hscored] using Advisory.rating_lt_medium_iff hscored
  · have hmax : max a.rating (worstRating advisories) ≠ .clean := by
      intro hmax
      have hle := le_max_right a.rating (worstRating advisories)
      rw [hmax] at hle
      exact hclean (hle.antisymm (Severity.clean_le _))
    simp [hclean, hmax]

/-- How severe a package is. It is as severe as the worst of its advisories
exactly when no low scores mask an advisory without a positive one; in any case
as severe as the worst with a positive score, and medium if there is none. The
order of the advisories does not matter. One more advisory lowers the severity
only if it brings the first positive score and that one is low. -/
theorem package_severity_exact (advisories : List Advisory) (hsome : advisories ≠ []) :
    (WorstOf advisories (maxSeverity advisories).2 ↔ ¬Masks advisories) ∧
    ((∃ a ∈ advisories, a.isScored) →
      WorstOf (advisories.filter Advisory.isScored) (maxSeverity advisories).2) ∧
    ((∀ a ∈ advisories, a.isScored = false) → (maxSeverity advisories).2 = .medium) ∧
    (∀ permuted, advisories.Perm permuted →
      (maxSeverity permuted).2 = (maxSeverity advisories).2) ∧
    ∀ a, ¬(maxSeverity advisories).2 ≤ (maxSeverity (a :: advisories)).2 ↔
      (∀ b ∈ advisories, b.isScored = false) ∧ a.isScored ∧ (maxSeverity [a]).2 = .low := by
  refine ⟨worstOf_iff_not_masks hsome, ?_, maxSeverity_of_unscored hsome, ?_, lowered_iff hsome⟩
  · rintro ⟨b, hb, hscored⟩
    exact worstOf_scored hb hscored
  · intro permuted hperm
    have hsome' : permuted ≠ [] := by
      rintro rfl
      exact hsome hperm.eq_nil
    rw [maxSeverity_eq hsome, maxSeverity_eq hsome', worstRating_perm hperm]

def unscoredAdvisory : Advisory := .bare "GHSA-x84v-xcm2-53pg"

def lowAdvisory : Advisory :=
  { Advisory.bare "GHSA-9wx4-h78v-vm56" with score := some (tenthsValue 20) }

/-- An advisory of medium severity and a low one make a low package. -/
theorem lowAdvisory_masks : ¬WorstOf [unscoredAdvisory, lowAdvisory]
    (maxSeverity [unscoredAdvisory, lowAdvisory]).2 := by
  rintro ⟨-, hbound⟩
  have hmedium := hbound unscoredAdvisory List.mem_cons_self
  exact absurd hmedium (by decide +kernel)

/-- The low score is also what lowers the severity. -/
theorem lowAdvisory_lowers :
    [unscoredAdvisory] ≠ [] ∧
      ¬(maxSeverity [unscoredAdvisory]).2 ≤ (maxSeverity [lowAdvisory, unscoredAdvisory]).2 ∧
      WorstOf [unscoredAdvisory] (maxSeverity [unscoredAdvisory]).2 := by
  have hsome : [unscoredAdvisory] ≠ [] := List.cons_ne_nil _ _
  obtain ⟨hworst, -, -, -, hlowered⟩ := package_severity_exact [unscoredAdvisory] hsome
  refine ⟨hsome, (hlowered lowAdvisory).mpr ⟨?_, by decide +kernel, by decide +kernel⟩, ?_⟩
  · intro b hb
    obtain rfl := List.mem_singleton.mp hb
    rfl
  · apply hworst.mpr
    rintro ⟨-, ⟨a, ha, hscored⟩, -⟩
    obtain rfl := List.mem_singleton.mp ha
    cases hscored

end Resolution

end WebAudit
