import Mathlib.Data.List.Basic
import WebAudit.Advisory.Decoding
import WebAudit.Proofs.NumberOrder

/-!
Scores of advisories between zero and ten. A score is computed from the metrics
of a vector, is carried by a vector in a component of its own, or stands for a
severity in words. The first and the last are always between zero and ten; a
carried one is any numeral. The score of an advisory is the greatest of its
vectors, so it leaves the range exactly when a carried score is above ten, or
when scores are carried, no vector has one of its metrics, and none of the
carried ones reaches zero.
-/

namespace WebAudit

open Number

namespace BaseMetrics

theorem rawScore_le (m : BaseMetrics) : m.rawScore ≤ Int.pow 10 95 := Int.min_le_right _ _

/-- The score of metrics is at most ten. -/
theorem tenths_le (m : BaseMetrics) : m.tenths ≤ 100 := by
  have hrounded : ((m.rawScore + 5 * Int.pow 10 88) / Int.pow 10 89).toNat ≤ 1000000 := by
    have hraw : (m.rawScore + 5 * Int.pow 10 88) / Int.pow 10 89 ≤
        (Int.pow 10 95 + 5 * Int.pow 10 88) / Int.pow 10 89 :=
      Int.ediv_le_ediv (by decide) (Int.add_le_add_right m.rawScore_le _)
    have hten : (Int.pow 10 95 + 5 * Int.pow 10 88) / Int.pow 10 89 = 1000000 := by decide
    rw [hten] at hraw
    exact Int.toNat_le.mpr hraw
  unfold tenths
  dsimp only
  split
  · exact Nat.zero_le _
  · split
    · omega
    · rename_i hrest
      have hrest : ((m.rawScore + 5 * Int.pow 10 88) / Int.pow 10 89).toNat % 10000 ≠ 0 := by
        simpa using hrest
      omega

end BaseMetrics

namespace Advisory

def IsScore (s : Binary) : Prop :=
  ∃ negative m e, s = .finite negative m e ∧ 0 ≤ Binary.rational negative m e ∧
    Binary.rational negative m e ≤ 10

def IsAbove (bound : ℚ) (s : Binary) : Prop :=
  s = .infinite false ∨
    ∃ negative m e, s = .finite negative m e ∧ bound < Binary.rational negative m e

def IsBelow (bound : ℚ) (s : Binary) : Prop :=
  s = .nan ∨ s = .infinite true ∨
    ∃ negative m e, s = .finite negative m e ∧ Binary.rational negative m e < bound

theorem isScore_iff (s : Binary) : IsScore s ↔ ¬IsAbove 10 s ∧ ¬IsBelow 0 s := by
  unfold IsScore IsAbove IsBelow
  cases s with
  | finite negative m e => simp [and_comm]
  | infinite negative => cases negative <;> simp
  | nan => simp

/-- The place of a number on the line of values. -/
def place (q : ℚ) : WithBot (WithTop ℚ) := ((q : WithTop ℚ) : WithBot (WithTop ℚ))

theorem isAbove_iff (bound : ℚ) (s : Binary) : IsAbove bound s ↔ place bound < s.value := by
  unfold IsAbove place
  cases s with
  | finite negative m e => simp [Binary.value]
  | infinite negative =>
      cases negative with
      | false => exact iff_of_true (.inl rfl) (WithBot.coe_lt_coe.mpr (WithTop.coe_lt_top bound))
      | true => simp [Binary.value]
  | nan => simp [Binary.value]

theorem isBelow_iff (bound : ℚ) (s : Binary) : IsBelow bound s ↔ s.value < place bound := by
  unfold IsBelow place
  cases s with
  | finite negative m e => simp [Binary.value]
  | infinite negative => cases negative <;> simp [Binary.value]
  | nan => simp [Binary.value]

section Greatest

variable {scores : List Binary} {s : Binary}

/-- The search for the greatest score, from a best one on. -/
theorem foldl_greater (best : Binary) (scores : List Binary) :
    ∃ s, scores.foldl (fun best s => some ((best.map (·.greater s)).getD s)) (some best) = some s ∧
      (∃ x ∈ best :: scores, x.value = s.value) ∧ ∀ x ∈ best :: scores, x.value ≤ s.value := by
  induction scores generalizing best with
  | nil => exact ⟨best, rfl, ⟨best, List.mem_cons_self, rfl⟩, by simp⟩
  | cons next rest ih =>
      obtain ⟨s, hs, ⟨x, hx, hvalue⟩, hbound⟩ := ih (best.greater next)
      rw [List.forall_mem_cons, Binary.value_greater, max_le_iff] at hbound
      refine ⟨s, hs, ?_, ?_⟩
      · rcases List.mem_cons.mp hx with rfl | hrest
        · rw [Binary.value_greater] at hvalue
          rcases max_choice best.value next.value with hbest | hnext
          · exact ⟨best, by simp, hbest ▸ hvalue⟩
          · exact ⟨next, by simp, hnext ▸ hvalue⟩
        · exact ⟨x, by simp [hrest], hvalue⟩
      · rw [List.forall_mem_cons, List.forall_mem_cons]
        exact ⟨hbound.1.1, hbound.1.2, hbound.2⟩

theorem greatestScore?_eq_none_iff : greatestScore? scores = none ↔ scores = [] := by
  cases scores with
  | nil => simp [greatestScore?]
  | cons first rest =>
      obtain ⟨s, hs, -⟩ := foldl_greater first rest
      have hsome : greatestScore? (first :: rest) = some s := hs
      simp [hsome]

/-- The greatest score stands where one of the scores does, and no score stands
above it. -/
theorem of_greatestScore? (hgreatest : greatestScore? scores = some s) :
    (∃ x ∈ scores, x.value = s.value) ∧ ∀ x ∈ scores, x.value ≤ s.value := by
  cases scores with
  | nil => cases hgreatest
  | cons first rest =>
      obtain ⟨t, ht, hplace⟩ := foldl_greater first rest
      have hsome : greatestScore? (first :: rest) = some t := ht
      rw [hsome, Option.some.injEq] at hgreatest
      exact hgreatest ▸ hplace

theorem isAbove_of_greatestScore? {bound : ℚ} (hgreatest : greatestScore? scores = some s) :
    IsAbove bound s ↔ ∃ x ∈ scores, IsAbove bound x := by
  obtain ⟨⟨x, hx, hvalue⟩, hbound⟩ := of_greatestScore? hgreatest
  simp only [isAbove_iff]
  constructor
  · exact fun habove => ⟨x, hx, hvalue ▸ habove⟩
  · rintro ⟨y, hy, habove⟩
    exact habove.trans_le (hbound y hy)

theorem isBelow_of_greatestScore? {bound : ℚ} (hgreatest : greatestScore? scores = some s) :
    IsBelow bound s ↔ ∀ x ∈ scores, IsBelow bound x := by
  obtain ⟨⟨x, hx, hvalue⟩, hbound⟩ := of_greatestScore? hgreatest
  simp only [isBelow_iff]
  constructor
  · exact fun hbelow y hy => (hbound y hy).trans_lt hbelow
  · exact fun hbelow => hvalue ▸ hbelow x hx

end Greatest

section Sources

theorem isScore_tenthsValue {n : Nat} (hn : n ≤ 100) : IsScore (tenthsValue n) := by
  have hall : ∀ n < 101, (Binary.zero .single).le (tenthsValue n) = true ∧
      (tenthsValue n).isFinite = true ∧ (tenthsValue n).le (tenthsValue 100) = true := by
    decide +kernel
  have hzero : (Binary.zero .single).value = place 0 := by
    simp [Binary.zero, Binary.value, Binary.rational, place]
  have hten : (tenthsValue 100).value = place 10 := by
    have hvalue : tenthsValue 100 = .finite false 10485760 (-20) := by decide +kernel
    rw [hvalue]
    norm_num [Binary.value, Binary.rational, place]
  obtain ⟨hlow, hfinite, hhigh⟩ := hall n (by omega)
  rw [Binary.le_iff_of_isFinite (by decide), hzero] at hlow
  rw [Binary.le_iff_of_isFinite hfinite, hten] at hhigh
  rw [isScore_iff, isAbove_iff, isBelow_iff]
  exact ⟨not_lt.mpr hhigh, not_lt.mpr hlow⟩

theorem isScore_of_baseScore? {vector : String} {s : Binary} (hscore : baseScore? vector = some s) :
    IsScore s := by
  obtain ⟨m, -, rfl⟩ := Option.map_eq_some_iff.mp hscore
  exact isScore_tenthsValue m.tenths_le

theorem isScore_of_labelScore? {label : String} {s : Binary} (hscore : labelScore? label = some s) :
    IsScore s := by
  obtain ⟨n, hn, rfl⟩ := Option.map_eq_some_iff.mp hscore
  apply isScore_tenthsValue
  split at hn
  all_goals cases hn
  all_goals decide

end Sources

section Records

def vectors (v : Json) : List String := (itemsOf "severity" v).filterMap (textMember? "score")

/-- A vector of an advisory has no score of its metrics and carries one in a
component. -/
def Carries (v : Json) (s : Binary) : Prop :=
  ∃ vector ∈ vectors v, baseScore? vector = none ∧ embeddedScore? vector = some s

/-- How carried scores lead out of the range: one of them is above ten, or they
are all that there is and none of them reaches zero. -/
inductive Strays (v : Json) : Prop
  | above {s : Binary} (hcarries : Carries v s) (habove : IsAbove 10 s)
  | below {s : Binary} (hcarries : Carries v s)
      (hbase : ∀ vector ∈ vectors v, baseScore? vector = none)
      (hbelow : ∀ t, Carries v t → IsBelow 0 t)

theorem mem_vectorScores_iff {v : Json} {s : Binary} :
    s ∈ (vectors v).filterMap vectorScore? ↔
      (∃ vector ∈ vectors v, baseScore? vector = some s) ∨ Carries v s := by
  have hvector : ∀ vector, vectorScore? vector = some s ↔
      baseScore? vector = some s ∨ baseScore? vector = none ∧ embeddedScore? vector = some s := by
    intro vector
    unfold vectorScore?
    cases baseScore? vector <;> simp
  simp only [List.mem_filterMap, hvector, and_or_left, exists_or, Carries]

theorem score?_eq (v : Json) : score? v =
    ((greatestScore? ((vectors v).filterMap vectorScore?)).orElse
      fun _ => (label? v).bind labelScore?) := by
  unfold score?
  dsimp only
  rw [vectors]
  cases greatestScore? _ <;> rfl

theorem isAbove_score_iff {v : Json} {s : Binary}
    (hgreatest : greatestScore? ((vectors v).filterMap vectorScore?) = some s) :
    IsAbove 10 s ↔ ∃ t, Carries v t ∧ IsAbove 10 t := by
  rw [isAbove_of_greatestScore? hgreatest]
  constructor
  · rintro ⟨t, ht, habove⟩
    rcases mem_vectorScores_iff.mp ht with ⟨vector, -, hbase⟩ | hcarries
    · exact absurd habove ((isScore_iff t).mp (isScore_of_baseScore? hbase)).1
    · exact ⟨t, hcarries, habove⟩
  · rintro ⟨t, hcarries, habove⟩
    exact ⟨t, mem_vectorScores_iff.mpr (.inr hcarries), habove⟩

theorem isBelow_score_iff {v : Json} {s : Binary}
    (hgreatest : greatestScore? ((vectors v).filterMap vectorScore?) = some s) :
    IsBelow 0 s ↔ (∀ vector ∈ vectors v, baseScore? vector = none) ∧
      ∀ t, Carries v t → IsBelow 0 t := by
  rw [isBelow_of_greatestScore? hgreatest]
  constructor
  · intro hbelow
    refine ⟨fun vector hvector => ?_, fun t hcarries => ?_⟩
    · cases hbase : baseScore? vector with
      | none => rfl
      | some t =>
          have ht := mem_vectorScores_iff.mpr (.inl ⟨vector, hvector, hbase⟩)
          exact absurd (hbelow t ht) ((isScore_iff t).mp (isScore_of_baseScore? hbase)).2
    · exact hbelow t (mem_vectorScores_iff.mpr (.inr hcarries))
  · rintro ⟨hbase, hbelow⟩ t ht
    rcases mem_vectorScores_iff.mp ht with ⟨vector, hvector, hsome⟩ | hcarries
    · rw [hbase vector hvector] at hsome
      cases hsome
    · exact hbelow t hcarries

theorem isScore_score_iff (v : Json) : (∀ s, score? v = some s → IsScore s) ↔ ¬Strays v := by
  rw [score?_eq]
  cases hgreatest : greatestScore? ((vectors v).filterMap vectorScore?) with
  | none =>
      have hnone : ∀ s, ¬Carries v s := by
        rw [greatestScore?_eq_none_iff] at hgreatest
        intro s hcarries
        have hs := mem_vectorScores_iff.mpr (.inr hcarries)
        rw [hgreatest] at hs
        cases hs
      refine iff_of_true (fun s hs => ?_) ?_
      · obtain ⟨label, -, hlabel⟩ := Option.bind_eq_some_iff.mp hs
        exact isScore_of_labelScore? hlabel
      · rintro (⟨hcarries, -⟩ | ⟨hcarries, -, -⟩)
        · exact hnone _ hcarries
        · exact hnone _ hcarries
  | some s =>
      have hsome : (∀ t, (some s).orElse (fun _ => (label? v).bind labelScore?) = some t →
          IsScore t) ↔ IsScore s := by simp
      rw [hsome, isScore_iff, isAbove_score_iff hgreatest, isBelow_score_iff hgreatest, ← not_or,
        not_iff_not]
      constructor
      · rintro (⟨t, hcarries, habove⟩ | ⟨hbase, hbelow⟩)
        · exact .above hcarries habove
        · obtain ⟨⟨t, ht, -⟩, -⟩ := of_greatestScore? hgreatest
          rcases mem_vectorScores_iff.mp ht with ⟨vector, hvector, hsome⟩ | hcarries
          · rw [hbase vector hvector] at hsome
            cases hsome
          · exact .below hcarries hbase hbelow
      · rintro (⟨hcarries, habove⟩ | ⟨-, hbase, hbelow⟩)
        · exact .inl ⟨_, hcarries, habove⟩
        · exact .inr ⟨hbase, hbelow⟩

/-- The score of an advisory is missing or a number from zero to ten exactly
when no carried score leads out of this range. Scores of metrics and scores of
severities in words never do. -/
theorem advisory_score_in_range_iff (v : Json) (a : Advisory) (ha : ofJson? v = some a) :
    ((∀ s, a.score = some s → IsScore s) ↔ ¬Strays v) ∧
    (∀ (vector : String) (s : Binary), baseScore? vector = some s → IsScore s) ∧
    ∀ (label : String) (s : Binary), labelScore? label = some s → IsScore s := by
  refine ⟨?_, fun _ _ => isScore_of_baseScore?, fun _ _ => isScore_of_labelScore?⟩
  obtain ⟨id, -, rfl⟩ := Option.map_eq_some_iff.mp ha
  exact isScore_score_iff v

def withVector (vector : String) : Json :=
  .object [("id", .string "GHSA-p6mc-m468-83gw"),
    ("severity", .array [.object [("score", .string vector)]])]

/-- A vector that carries a score of ninety-eight gives it to the advisory. -/
theorem carried_score_strays :
    ∃ a s, ofJson? (withVector "AV:N/AC:L/Au:N/C:P/I:P/A:P/score:98") = some a ∧
      a.score = some s ∧ ¬IsScore s := by
  refine ⟨{ bare "GHSA-p6mc-m468-83gw" with score := some (tenthsValue 980) }, tenthsValue 980,
    by decide +kernel, rfl, ?_⟩
  have hvalue : tenthsValue 980 = .finite false 12845056 (-17) := by decide +kernel
  rw [isScore_iff, not_and_or, not_not]
  exact .inl (.inr ⟨false, 12845056, -17, hvalue, by norm_num [Binary.rational]⟩)

/-- A vector that carries a score of 7.1 does so too, and it is in the range. -/
theorem carried_score_in_range :
    ∃ a, ofJson? (withVector "AV:N/AC:L/Au:N/C:P/I:P/A:P/score:7.1") = some a ∧
      a.score = some (tenthsValue 71) ∧ ∀ s, a.score = some s → IsScore s := by
  have ha : ofJson? (withVector "AV:N/AC:L/Au:N/C:P/I:P/A:P/score:7.1") =
      some { bare "GHSA-p6mc-m468-83gw" with score := some (tenthsValue 71) } := by decide +kernel
  have hcarried : embeddedScore? "AV:N/AC:L/Au:N/C:P/I:P/A:P/score:7.1" =
      some (tenthsValue 71) := by decide +kernel
  have hrange : ∀ s, Carries (withVector "AV:N/AC:L/Au:N/C:P/I:P/A:P/score:7.1") s → IsScore s := by
    rintro s ⟨vector, hvector, -, hs⟩
    obtain rfl := List.mem_singleton.mp hvector
    rw [hcarried, Option.some.injEq] at hs
    exact hs ▸ isScore_tenthsValue (by decide)
  refine ⟨_, ha, rfl, (advisory_score_in_range_iff _ _ ha).1.mpr ?_⟩
  rintro (⟨hcarries, habove⟩ | ⟨hcarries, -, hbelow⟩)
  · exact ((isScore_iff _).mp (hrange _ hcarries)).1 habove
  · exact ((isScore_iff _).mp (hrange _ hcarries)).2 (hbelow _ hcarries)

end Records

end Advisory

end WebAudit
