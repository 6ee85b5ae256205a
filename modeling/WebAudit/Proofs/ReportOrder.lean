import Mathlib.Data.List.Basic
import WebAudit.Finding.Order

/-!
The report order is a total preorder on findings: it compares eight keys one
after the other, each by a lawful comparison. It does not tell all findings
apart, so sorting is pinned down by its stability. A finding put at the front
of a list lands before exactly those of the sorted rest that it may precede;
hence sorting commutes with every filter. Where findings that compare equal are
identical, the sorted list depends on nothing but what it holds.
-/

namespace WebAudit

open Std

instance : TransOrd Severity :=
  inferInstanceAs (TransCmp (compareOn Severity.rank))

instance : TransOrd Category :=
  inferInstanceAs (TransCmp (compareOn Category.rank))

private theorem orderOption_compare {α : Type} [Ord α] (a b : Option α) :
    orderOption compare a b = compare a b := by
  cases a <;> cases b <;> rfl

section StableSort

variable {α : Type} {le : α → α → Bool}

/-- A stable sort puts an item behind the sorted items that it may not
precede and before all others. -/
private theorem mergeSort_cons_eq
    (htrans : ∀ a b c, le a b → le b c → le a c) (htotal : ∀ a b, le a b || le b a)
    (a : α) (items : List α) :
    (a :: items).mergeSort le =
      (items.mergeSort le).filter (fun b => !le a b) ++
        a :: (items.mergeSort le).filter (fun b => le a b) := by
  obtain ⟨low, high, hsorted, hrest, hlow⟩ := List.mergeSort_cons htrans htotal a items
  have hpairwise := List.pairwise_mergeSort htrans htotal (a :: items)
  rw [hsorted] at hpairwise
  have hhigh : ∀ b ∈ high, le a b := by
    have htail := (List.pairwise_append.mp hpairwise).2.1
    exact fun b hb => (List.pairwise_cons.mp htail).1 b hb
  have hlow' : ∀ b ∈ low, le a b = false := fun b hb => by simpa using hlow b hb
  rw [hsorted, hrest, List.filter_append, List.filter_append]
  congr 1
  · rw [List.filter_eq_self.mpr (by simpa using hlow'),
      List.filter_eq_nil_iff.mpr (by simpa using hhigh), List.append_nil]
  · rw [List.filter_eq_nil_iff.mpr (by simpa using hlow'),
      List.filter_eq_self.mpr hhigh, List.nil_append]

private theorem mergeSort_filter
    (htrans : ∀ a b c, le a b → le b c → le a c) (htotal : ∀ a b, le a b || le b a)
    (keep : α → Bool) (items : List α) :
    (items.filter keep).mergeSort le = (items.mergeSort le).filter keep := by
  induction items with
  | nil => simp
  | cons a rest ih =>
      cases hkeep : keep a with
      | true =>
          rw [List.filter_cons_of_pos hkeep, mergeSort_cons_eq htrans htotal,
            mergeSort_cons_eq htrans htotal, ih, List.filter_append,
            List.filter_cons_of_pos hkeep]
          simp only [List.filter_comm]
      | false =>
          obtain ⟨low, high, hsorted, hrest, -⟩ :=
            List.mergeSort_cons htrans htotal a rest
          rw [List.filter_cons_of_neg (by simp [hkeep]), ih, hsorted, hrest]
          simp [hkeep]

end StableSort

namespace Finding

/-- The report order as one lexicographic comparison of eight keys. -/
theorem order_eq_lex :
    order =
      compareLex (fun a b => compare b.severity a.severity)
        (compareLex (compareOn (·.category))
          (compareLex (compareOn (·.location.key))
            (compareLex (compareOn (·.location.line?))
              (compareLex (compareOn (·.kind))
                (compareLex (compareOn (·.message))
                  (compareLex (compareOn (·.details)) (compareOn payloadText))))))) := by
  funext a b
  simp only [order, orderOption_compare, compareLex, compareOn]

instance : TransCmp (fun a b : Finding => compare b.severity a.severity) :=
  inferInstanceAs (TransCmp fun a b : Finding => compareOn (fun f : Finding => f.severity) b a)

instance : TransCmp order := by
  rw [order_eq_lex]
  infer_instance

theorem le_iff_isLE (a b : Finding) : a.le b ↔ (a.order b).isLE := by
  cases h : a.order b <;> simp [le, h, Ordering.isLE]

theorem le_iff_not_gt (a b : Finding) : a.le b ↔ a.order b ≠ .gt := by
  simp [le]

/-- A finding may stand first exactly when the other is not strictly before
it. -/
theorem le_iff_not_lt (a b : Finding) : a.le b ↔ b.order a ≠ .lt := by
  have hswap : a.order b = (b.order a).swap := OrientedCmp.eq_swap
  rw [le_iff_not_gt, hswap]
  cases b.order a <;> simp

theorem le_refl (a : Finding) : a.le a :=
  (le_iff_isLE a a).mpr ReflCmp.isLE_rfl

theorem le_trans (a b c : Finding) (hab : a.le b) (hbc : b.le c) : a.le c := by
  rw [le_iff_isLE] at *
  exact TransCmp.isLE_trans hab hbc

theorem le_total (a b : Finding) : a.le b || b.le a := by
  rw [Bool.or_eq_true, le_iff_not_gt, le_iff_not_lt]
  cases a.order b <;> simp

theorem order_eq_of_le_of_le (a b : Finding) (hab : a.le b) (hba : b.le a) :
    a.order b = .eq := by
  rw [le_iff_not_gt] at hab
  rw [le_iff_not_lt] at hba
  cases h : a.order b <;> simp_all

/-- What stands first is at least as severe. -/
theorem severity_le_of_le (a b : Finding) (hle : a.le b) : b.severity ≤ a.severity := by
  rw [le_iff_isLE] at hle
  have hfirst : (compare b.severity a.severity).isLE := by
    unfold order at hle
    exact (Ordering.isLE_then_iff_and.mp hle).1
  exact Nat.isLE_compare.mp hfirst

theorem sorted_perm (fs : List Finding) : (sorted fs).Perm fs :=
  List.mergeSort_perm fs le

@[simp]
theorem mem_sorted (f : Finding) (fs : List Finding) : f ∈ sorted fs ↔ f ∈ fs :=
  List.mem_mergeSort

theorem sorted_pairwise (fs : List Finding) :
    (sorted fs).Pairwise fun a b => a.le b :=
  List.pairwise_mergeSort le_trans le_total fs

/-- Sorting commutes with every filter, ties included. -/
theorem sorted_filter (keep : Finding → Bool) (fs : List Finding) :
    sorted (fs.filter keep) = (sorted fs).filter keep :=
  mergeSort_filter le_trans le_total keep fs

/-- The order of the input is lost when findings that compare equal are
identical. -/
theorem sorted_eq_of_perm (fs gs : List Finding) (hperm : fs.Perm gs)
    (hseparated : ∀ a ∈ fs, ∀ b ∈ fs, a.order b = .eq → a = b) :
    sorted fs = sorted gs := by
  have hsorted : (sorted fs).Perm (sorted gs) :=
    ((sorted_perm fs).trans hperm).trans (sorted_perm gs).symm
  apply hsorted.eq_of_pairwise _ (sorted_pairwise fs) (sorted_pairwise gs)
  intro a b ha hb hab hba
  have hb' : b ∈ fs := hperm.mem_iff.mpr ((mem_sorted b gs).mp hb)
  exact hseparated a ((mem_sorted a fs).mp ha) b hb' (order_eq_of_le_of_le a b hab hba)

/-- In a strictly increasing list no two findings compare equal. -/
theorem separated_of_increasing {fs : List Finding}
    (hincreasing : fs.Pairwise fun a b => a.order b = .lt) :
    ∀ a ∈ fs, ∀ b ∈ fs, a.order b = .eq → a = b := by
  have hforward : fs.Pairwise fun a b => a.order b = .eq → a = b :=
    hincreasing.imp fun hlt heq => by simp [hlt] at heq
  have hbackward : fs.Pairwise fun a b => b.order a = .eq → b = a := by
    apply hincreasing.imp
    intro a b hlt heq
    simp [OrientedCmp.gt_of_lt hlt] at heq
  intro a ha b hb
  exact hforward.forall_of_forall_of_flip (fun _ _ _ => rfl) hbackward ha hb

end Finding

end WebAudit
