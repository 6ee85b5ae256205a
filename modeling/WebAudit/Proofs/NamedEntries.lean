import Mathlib.Data.List.Nodup
import WebAudit.Settings.Setting

/-!
Entries under names: lists of pairs in which the first pair with a name counts.
Trees of settings and tables of documents are built of such lists by the same
operation, which puts a value in the place of the one with its name or else at
the end. It is the one update that keeps names apart.
-/

namespace WebAudit

section Lookup

variable {α : Type} {name : String} {entries : List (String × α)}

theorem lookup_cons_ite {κ : Type} [DecidableEq κ] (name n : κ) (value : α)
    (rest : List (κ × α)) :
    ((n, value) :: rest).lookup name = if name = n then some value else rest.lookup name := by
  rw [List.lookup_cons]
  by_cases hname : name = n
  · simp [hname]
  · simp only [beq_eq_false_iff_ne.mpr hname, hname, if_false]

theorem lookup_eq_none_iff_not_mem :
    entries.lookup name = none ↔ name ∉ entries.map Prod.fst := by
  rw [List.lookup_eq_none_iff]
  simp only [bne_iff_ne, List.mem_map, not_exists, not_and]
  exact forall₂_congr fun p _ => ne_comm

theorem exists_lookup_iff_mem :
    (∃ v, entries.lookup name = some v) ↔ name ∈ entries.map Prod.fst := by
  rw [← Option.ne_none_iff_exists', ne_eq, lookup_eq_none_iff_not_mem, not_not]

theorem lookup_append (name : String) (entries more : List (String × α)) :
    (entries ++ more).lookup name = (entries.lookup name).or (more.lookup name) := by
  induction entries with
  | nil => simp
  | cons first rest ih =>
      rw [List.cons_append, lookup_cons_ite, lookup_cons_ite, ih]
      split <;> simp

end Lookup

def putNamed {α : Type} (name : String) (value : α) : List (String × α) → List (String × α)
  | [] => [(name, value)]
  | (n, old) :: rest =>
    if n = name then (n, value) :: rest else (n, old) :: putNamed name value rest

theorem Setting.put_eq (name : String) (value : Setting) (entries : List (String × Setting)) :
    Setting.put name value entries = putNamed name value entries := by
  induction entries with
  | nil => rfl
  | cons first rest ih => simp only [Setting.put, putNamed, beq_iff_eq, ih]

theorem Toml.Table.put_eq (name : String) (node : Node) (entries : List (String × Node)) :
    Table.put name node entries = putNamed name node entries := by
  induction entries with
  | nil => rfl
  | cons first rest ih => simp only [Table.put, putNamed, beq_iff_eq, ih]

section Put

variable {α : Type} {name : String} {value : α} {entries : List (String × α)}

theorem lookup_putNamed (name other : String) (value : α) (entries : List (String × α)) :
    (putNamed name value entries).lookup other =
      if other = name then some value else entries.lookup other := by
  induction entries with
  | nil => simp [putNamed, lookup_cons_ite]
  | cons first rest ih =>
      obtain ⟨n, old⟩ := first
      rw [putNamed]
      by_cases hn : n = name
      · subst hn
        rw [if_pos rfl, lookup_cons_ite, lookup_cons_ite]
        split <;> rfl
      · rw [if_neg hn, lookup_cons_ite, lookup_cons_ite, ih]
        by_cases hother : other = n
        · simp [hother, hn]
        · simp [hother]

/-- A value is put behind entries that do not have its name. -/
theorem putNamed_append {before : List (String × α)} (hfresh : before.lookup name = none)
    (value : α) (after : List (String × α)) :
    putNamed name value (before ++ after) = before ++ putNamed name value after := by
  induction before with
  | nil => rfl
  | cons first rest ih =>
      rw [lookup_cons_ite] at hfresh
      split at hfresh
      · cases hfresh
      · rename_i hname
        rw [List.cons_append, putNamed, if_neg (Ne.symm hname), ih hfresh, List.cons_append]

theorem mem_names_putNamed (n : String) :
    n ∈ (putNamed name value entries).map Prod.fst ↔
      n = name ∨ n ∈ entries.map Prod.fst := by
  rw [← exists_lookup_iff_mem, ← exists_lookup_iff_mem, lookup_putNamed]
  by_cases hn : n = name <;> simp [hn]

theorem nodup_putNamed (hnodup : (entries.map Prod.fst).Nodup) :
    ((putNamed name value entries).map Prod.fst).Nodup := by
  induction entries with
  | nil => simp [putNamed]
  | cons first rest ih =>
      obtain ⟨n, old⟩ := first
      obtain ⟨hfresh, hrest⟩ := List.nodup_cons.mp hnodup
      rw [putNamed]
      split
      · exact hnodup
      · rename_i hn
        refine List.nodup_cons.mpr ⟨?_, ih hrest⟩
        rw [mem_names_putNamed]
        exact fun hmember => hmember.elim hn hfresh

end Put

end WebAudit
