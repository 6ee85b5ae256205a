import Mathlib
import WebAudit.Report.Summary
import WebAudit.Proofs.FindingIdentity
import WebAudit.Proofs.NamedEntries

/-!
The counts of a summary. They are kept in the order of the names while findings
are counted one by one: each step raises the entry of one value, or puts it in,
and leaves all others alone. So in the end each value that occurs is listed once
with the number of its occurrences, and the numbers add up to the number of
findings.
-/

namespace WebAudit.Summary

open Std

section Bump

variable {α : Type} {name : α → String} {counts : List (α × Nat)}

/-- Entries in the order of the names, no two under one name. -/
def Rising (name : α → String) (counts : List (α × Nat)) : Prop :=
  counts.Pairwise fun a b => compare (name a.1) (name b.1) = .lt

theorem not_before_self (s : String) : compare s s ≠ .lt := by
  rw [ReflOrd.compare_self]
  decide

theorem key_of_mem_bump {v : α} {entry : α × Nat} (hentry : entry ∈ bump name v counts) :
    entry.1 = v ∨ ∃ n, (entry.1, n) ∈ counts := by
  induction counts with
  | nil =>
      obtain rfl := List.mem_singleton.mp hentry
      exact .inl rfl
  | cons first rest ih =>
      obtain ⟨w, n⟩ := first
      rw [bump] at hentry
      split at hentry
      · rcases List.mem_cons.mp hentry with rfl | hentry
        · exact .inl rfl
        · exact .inr ⟨entry.2, hentry⟩
      · rcases List.mem_cons.mp hentry with rfl | hentry
        · exact .inr ⟨n, List.mem_cons_self⟩
        · exact .inr ⟨entry.2, List.mem_cons_of_mem _ hentry⟩
      · rcases List.mem_cons.mp hentry with rfl | hentry
        · exact .inr ⟨n, List.mem_cons_self⟩
        · exact (ih hentry).imp_right fun ⟨k, hk⟩ => ⟨k, List.mem_cons_of_mem _ hk⟩

theorem Rising.bump (hrising : Rising name counts) (v : α) :
    Rising name (bump name v counts) := by
  induction counts with
  | nil => exact List.pairwise_singleton _ _
  | cons first rest ih =>
      obtain ⟨hfirst, hrest⟩ := List.pairwise_cons.mp hrising
      rw [Summary.bump]
      split
      · rename_i hless
        refine List.pairwise_cons.mpr ⟨fun entry hentry => ?_, hrising⟩
        rcases List.mem_cons.mp hentry with rfl | hentry
        · exact hless
        · exact TransCmp.lt_trans hless (hfirst entry hentry)
      · exact List.pairwise_cons.mpr ⟨hfirst, hrest⟩
      · rename_i hgreater
        refine List.pairwise_cons.mpr ⟨fun entry hentry => ?_, ih hrest⟩
        rcases key_of_mem_bump hentry with hkey | ⟨k, hk⟩
        · rw [hkey]
          exact OrientedCmp.lt_of_gt hgreater
        · exact hfirst (entry.1, k) hk

theorem sum_bump (v : α) (counts : List (α × Nat)) :
    ((bump name v counts).map Prod.snd).sum = (counts.map Prod.snd).sum + 1 := by
  induction counts with
  | nil => rfl
  | cons first rest ih =>
      rw [bump]
      split
      · rw [List.map_cons, List.sum_cons, Nat.add_comm]
      · simp only [List.map_cons, List.sum_cons]
        omega
      · simp only [List.map_cons, List.sum_cons, ih]
        omega

theorem Rising.keys_nodup (hrising : Rising name counts) : (counts.map Prod.fst).Nodup := by
  rw [List.Nodup, List.pairwise_map]
  refine hrising.imp fun {a b} hless hsame => ?_
  rw [hsame] at hless
  exact not_before_self _ hless

variable [DecidableEq α]

theorem Rising.mem_iff (hrising : Rising name counts) {v : α} {n : Nat} :
    (v, n) ∈ counts ↔ counts.lookup v = some n := by
  induction counts with
  | nil => simp
  | cons first rest ih =>
      obtain ⟨w, k⟩ := first
      obtain ⟨hfirst, hrest⟩ := List.pairwise_cons.mp hrising
      rw [List.mem_cons, lookup_cons_ite, ih hrest]
      by_cases hv : v = w
      · subst hv
        have hnone : rest.lookup v ≠ some n := fun hfound =>
          not_before_self _ (hfirst (v, n) ((ih hrest).mpr hfound))
        simp [hnone, eq_comm]
      · simp [hv]

/-- One step: the value has one more, and every other entry is what it was. -/
theorem lookup_bump (hname : name.Injective) (hrising : Rising name counts) (v w : α) :
    (bump name v counts).lookup w =
      if w = v then some ((counts.lookup v).getD 0 + 1) else counts.lookup w := by
  induction counts with
  | nil => rw [bump, lookup_cons_ite]; rfl
  | cons first rest ih =>
      obtain ⟨u, k⟩ := first
      obtain ⟨hfirst, hrest⟩ := List.pairwise_cons.mp hrising
      rw [bump]
      split
      · rename_i hless
        have hnone : ((u, k) :: rest).lookup v = none := by
          rw [Option.eq_none_iff_forall_ne_some]
          intro n hfound
          rcases List.mem_cons.mp (hrising.mem_iff.mpr hfound) with hsame | hlater
          · rw [(Prod.mk.inj hsame).1] at hless
            exact not_before_self _ hless
          · exact not_before_self _ (TransCmp.lt_trans hless (hfirst _ hlater))
        rw [lookup_cons_ite, hnone]
        rfl
      · rename_i hsame
        obtain rfl : v = u := hname (LawfulEqCmp.eq_of_compare hsame)
        rw [lookup_cons_ite, lookup_cons_ite, lookup_cons_ite, if_pos rfl]
        split <;> rfl
      · rename_i hgreater
        have hv : v ≠ u := by
          rintro rfl
          rw [ReflOrd.compare_self] at hgreater
          cases hgreater
        rw [lookup_cons_ite, lookup_cons_ite, lookup_cons_ite, if_neg hv, ih hrest]
        by_cases hw : w = u
        · subst hw
          rw [if_pos rfl, if_pos rfl, if_neg hv.symm]
        · rw [if_neg hw, if_neg hw]

end Bump

section Tallies

variable {α : Type} [DecidableEq α] {name : α → String} {counts : List (α × Nat)}
  {found : List α}

/-- The counts of some values: they are in the order of the names, and each value
that occurs stands with the number of its occurrences. -/
structure Tallies (name : α → String) (counts : List (α × Nat)) (found : List α) : Prop where
  rising : Rising name counts
  mem_iff : ∀ v n, (v, n) ∈ counts ↔ n = found.count v ∧ n ≠ 0
  sum_eq : (counts.map Prod.snd).sum = found.length

theorem Tallies.nil : Tallies name [] ([] : List α) where
  rising := List.Pairwise.nil
  mem_iff v n := by simp
  sum_eq := rfl

theorem Tallies.getD_lookup (h : Tallies name counts found) (v : α) :
    (counts.lookup v).getD 0 = found.count v := by
  cases hentry : counts.lookup v with
  | some n => exact ((h.mem_iff v n).mp (h.rising.mem_iff.mpr hentry)).1
  | none =>
      by_contra hcount
      have hmember := (h.mem_iff v _).mpr ⟨rfl, Ne.symm hcount⟩
      rw [h.rising.mem_iff, hentry] at hmember
      cases hmember

theorem Tallies.bump (hname : name.Injective) (h : Tallies name counts found) (v : α) :
    Tallies name (bump name v counts) (found ++ [v]) where
  rising := h.rising.bump v
  mem_iff w n := by
    rw [(h.rising.bump v).mem_iff, lookup_bump hname h.rising, h.getD_lookup, List.count_append]
    by_cases hw : w = v
    · subst hw
      rw [if_pos rfl, List.count_singleton_self, Option.some.injEq, eq_comm]
      exact ⟨fun hn => ⟨hn, hn ▸ Nat.succ_ne_zero _⟩, And.left⟩
    · rw [if_neg hw, ← h.rising.mem_iff, h.mem_iff, List.count_singleton,
        if_neg (by simpa using Ne.symm hw), Nat.add_zero]
  sum_eq := by rw [sum_bump, h.sum_eq, List.length_append, List.length_singleton]

/-- A run: the counts go on from those of the values before. -/
theorem Tallies.foldl {β : Type} (hname : name.Injective) (value : β → α)
    (h : Tallies name counts found) (items : List β) :
    Tallies name (items.foldl (fun counts item => Summary.bump name (value item) counts) counts)
      (found ++ items.map value) := by
  induction items generalizing counts found with
  | nil => simpa using h
  | cons item rest ih =>
      have hrest := ih (h.bump hname (value item))
      rwa [List.append_assoc, List.singleton_append] at hrest

end Tallies

structure Counts (s : Summary) (fs : List Finding) : Prop where
  total : s.total = fs.length
  severity : ∀ v n, (v, n) ∈ s.bySeverity ↔
    n = fs.countP (fun f => f.severity = v) ∧ n ≠ 0
  severity_once : (s.bySeverity.map Prod.fst).Nodup
  severity_sum : (s.bySeverity.map Prod.snd).sum = s.total
  category : ∀ v n, (v, n) ∈ s.byCategory ↔
    n = fs.countP (fun f => f.category = v) ∧ n ≠ 0
  category_once : (s.byCategory.map Prod.fst).Nodup
  category_sum : (s.byCategory.map Prod.snd).sum = s.total

theorem foldl_read (fs : List Finding) (s : Summary) :
    fs.foldl read s =
      ⟨s.total, fs.foldl (fun counts f => bump Severity.name f.severity counts) s.bySeverity,
        fs.foldl (fun counts f => bump Category.name f.category counts) s.byCategory⟩ := by
  induction fs generalizing s with
  | nil => rfl
  | cons f rest ih => exact ih (s.read f)

theorem ofFindings_counts (fs : List Finding) : (ofFindings fs).Counts fs := by
  have hseverity := Tallies.nil.foldl (fun _ _ => Severity.name_injective) Finding.severity fs
  have hcategory := Tallies.nil.foldl (fun _ _ => Category.name_injective) Finding.category fs
  have hcounts {α : Type} [DecidableEq α] (value : Finding → α) (v : α) :
      (fs.map value).count v = fs.countP fun f => value f = v := by
    simp only [List.count, List.countP_map, Function.comp_def, beq_eq_decide]
  rw [ofFindings, foldl_read]
  exact {
    total := rfl
    severity := fun v n => (hseverity.mem_iff v n).trans (by rw [List.nil_append, hcounts])
    severity_once := hseverity.rising.keys_nodup
    severity_sum := hseverity.sum_eq.trans (by rw [List.nil_append, List.length_map])
    category := fun v n => (hcategory.mem_iff v n).trans (by rw [List.nil_append, hcounts])
    category_once := hcategory.rising.keys_nodup
    category_sum := hcategory.sum_eq.trans (by rw [List.nil_append, List.length_map]) }

end WebAudit.Summary
