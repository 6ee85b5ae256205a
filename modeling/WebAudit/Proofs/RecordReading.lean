import Mathlib.Data.List.Pairwise
import Mathlib.Data.List.Sort
import WebAudit.Proofs.NamedEntries
import WebAudit.Settings.Reading

/-!
Reading records from maps. Every field of a record has a reader, a way to store
a value and a way to get it back, and fields do not disturb one another. So a map
is read as a record exactly when each field that is given reads as what the
record holds there, and each field that is not keeps what it held; the order in
which the fields are read shows only in which error is reported. An error leads
to a value that is there.
-/

namespace WebAudit.Reading

/-- Whether a record holds at a slot what a setting says, or what it held before
if none is given. -/
def Slot.Given {α : Type} (s : Slot α) (given : Option Setting) (base r : α) : Prop :=
  match given with
  | none => s.get r = s.get base
  | some v => s.read v = .ok (s.get r)

/-- Two slots that do not disturb each other. -/
def Slot.Apart {α : Type} (s t : Slot α) : Prop :=
  (∀ v r, s.get (t.store v r) = s.get r) ∧ ∀ v r, t.get (s.store v r) = t.get r

structure Independent {α : Type} (slots : List (Slot α)) : Prop where
  get_store : ∀ s ∈ slots, ∀ v r, s.get (s.store v r) = v
  apart : slots.Pairwise Slot.Apart

structure Lawful {α : Type} (slots : List (Slot α)) : Prop extends Independent slots where
  ext : ∀ r r', (∀ s ∈ slots, s.get r = s.get r') → r = r'

theorem Independent.tail {α : Type} {s : Slot α} {rest : List (Slot α)}
    (hslots : Independent (s :: rest)) : Independent rest where
  get_store t ht := hslots.get_store t (List.mem_cons_of_mem s ht)
  apart := (List.pairwise_cons.mp hslots.apart).2

theorem Lawful.perm {α : Type} {slots slots' : List (Slot α)} (hlawful : Lawful slots)
    (hperm : slots'.Perm slots) : Lawful slots' where
  get_store s hs := hlawful.get_store s (hperm.mem_iff.mp hs)
  apart := (hperm.pairwise_iff fun h => h.symm).mpr hlawful.apart
  ext r r' hsame := hlawful.ext r r' fun s hs => hsame s (hperm.mem_iff.mpr hs)

theorem below_eq_ok_iff {α : Type} {step : SettingStep} {r : Reading α} {v : α} :
    below step r = .ok v ↔ r = .ok v := by
  cases r <;> simp [below, Except.mapError]

theorem below_eq_error_iff {α : Type} {step : SettingStep} {r : Reading α} {fault : SettingFault} :
    below step r = .error fault ↔
      ∃ inner, r = .error inner ∧ fault = { inner with path := step :: inner.path } := by
  cases r <;> simp [below, Except.mapError, eq_comm]

section Entries

variable {α : Type} {entries : List (String × Setting)} {slots : List (Slot α)} {base r : α}

theorem Slot.value_eq_ok_iff (s : Slot α) (entries : List (String × Setting)) (base : α)
    (x : s.Value) :
    s.value entries base = .ok x ↔
      (∃ v, entries.lookup s.name = some v ∧ s.read v = .ok x) ∨
        (entries.lookup s.name = none ∧ s.get base = x) := by
  unfold Slot.value
  cases entries.lookup s.name with
  | none => simp
  | some v => simp [below_eq_ok_iff]

/-- The first field of those that are read. -/
theorem fromEntries_cons_eq_ok {s : Slot α} {rest : List (Slot α)}
    (hread : fromEntries entries (s :: rest) base = .ok r) :
    ∃ x, s.value entries base = .ok x ∧
      fromEntries entries rest (s.store x base) = .ok r := by
  rw [fromEntries] at hread
  cases hvalue : s.value entries base with
  | error fault =>
      rw [hvalue] at hread
      cases hread
  | ok x =>
      rw [hvalue] at hread
      exact ⟨x, rfl, hread⟩

theorem get_of_fromEntries {t : Slot α} (hslots : Independent slots)
    (hapart : ∀ s ∈ slots, t.Apart s)
    (hread : fromEntries entries slots base = .ok r) : t.get r = t.get base := by
  induction slots generalizing base with
  | nil =>
      cases hread
      rfl
  | cons s rest ih =>
      obtain ⟨hs, hrest⟩ := List.forall_mem_cons.mp hapart
      obtain ⟨x, -, hread⟩ := fromEntries_cons_eq_ok hread
      exact (ih hslots.tail hrest hread).trans (hs.1 x base)

theorem given_of_fromEntries (hslots : Independent slots)
    (hread : fromEntries entries slots base = .ok r) :
    ∀ s ∈ slots, s.Given (entries.lookup s.name) base r := by
  induction slots generalizing base with
  | nil => simp
  | cons s rest ih =>
      have hapart := (List.pairwise_cons.mp hslots.apart).1
      obtain ⟨x, hvalue, hread⟩ := fromEntries_cons_eq_ok hread
      have hgets : s.get r = x :=
        (get_of_fromEntries hslots.tail hapart hread).trans
          (hslots.get_store s List.mem_cons_self x base)
      refine List.forall_mem_cons.mpr ⟨?_, fun t ht => ?_⟩
      · rcases (s.value_eq_ok_iff entries base x).mp hvalue with ⟨v, hv, hx⟩ | ⟨hnone, hx⟩
        · rw [hv, Slot.Given, hgets]
          exact hx
        · rw [hnone, Slot.Given, hgets]
          exact hx.symm
      · have hgiven := ih hslots.tail hread t ht
        cases hlookup : entries.lookup t.name with
        | some v => rwa [hlookup] at hgiven
        | none =>
            rw [hlookup] at hgiven
            exact hgiven.trans ((hapart t ht).2 x base)

theorem exists_fromEntries
    (hreads : ∀ s ∈ slots, ∀ v, entries.lookup s.name = some v → ∃ x, s.read v = .ok x) :
    ∃ r, fromEntries entries slots base = .ok r := by
  induction slots generalizing base with
  | nil => exact ⟨base, rfl⟩
  | cons s rest ih =>
      obtain ⟨hs, hrest⟩ := List.forall_mem_cons.mp hreads
      obtain ⟨x, hx⟩ : ∃ x, s.value entries base = .ok x := by
        unfold Slot.value
        cases hlookup : entries.lookup s.name with
        | none => exact ⟨_, rfl⟩
        | some v =>
            obtain ⟨x, hx⟩ := hs v hlookup
            exact ⟨x, below_eq_ok_iff.mpr hx⟩
      rw [fromEntries, hx]
      exact ih hrest

/-- An error is one of a field that is given. -/
theorem fault_of_fromEntries {fault : SettingFault}
    (hread : fromEntries entries slots base = .error fault) :
    ∃ s ∈ slots, ∃ v inner, entries.lookup s.name = some v ∧ s.read v = .error inner ∧
      fault = { inner with path := .name s.name :: inner.path } := by
  induction slots generalizing base with
  | nil => cases hread
  | cons s rest ih =>
      rw [fromEntries] at hread
      cases hvalue : s.value entries base with
      | error cause =>
          rw [hvalue] at hread
          cases hread
          unfold Slot.value at hvalue
          cases hlookup : entries.lookup s.name with
          | none =>
              rw [hlookup] at hvalue
              cases hvalue
          | some v =>
              rw [hlookup] at hvalue
              obtain ⟨inner, hinner, hfault⟩ := below_eq_error_iff.mp hvalue
              exact ⟨s, List.mem_cons_self, v, inner, hlookup, hinner, hfault⟩
      | ok x =>
          rw [hvalue] at hread
          obtain ⟨t, ht, hfault⟩ := ih hread
          exact ⟨t, List.mem_cons_of_mem s ht, hfault⟩

/-- What is read depends on the values of the slots alone. -/
theorem fromEntries_congr {entries' : List (String × Setting)} (hslots : Independent slots)
    (hvalues : ∀ s ∈ slots, s.value entries base = s.value entries' base)
    {held : α} (hheld : ∀ s ∈ slots, s.get held = s.get base) :
    fromEntries entries slots held =
      fromEntries entries' slots held := by
  induction slots generalizing held with
  | nil => rfl
  | cons s rest ih =>
      have hapart := (List.pairwise_cons.mp hslots.apart).1
      obtain ⟨hvalue, hvalues⟩ := List.forall_mem_cons.mp hvalues
      obtain ⟨hs, hrest⟩ := List.forall_mem_cons.mp hheld
      have hsame : s.value entries held = s.value entries' held := by
        simpa only [Slot.value, hs] using hvalue
      rw [fromEntries, fromEntries, hsame]
      congr 1
      funext x
      exact ih hslots.tail hvalues fun t ht => ((hapart t ht).2 x held).trans (hrest t ht)

end Entries

section Records

variable {α : Type} {slots : List (Slot α)}

def sortedSlots (slots : List (Slot α)) : List (Slot α) :=
  slots.mergeSort slotLe

theorem sortedSlots_perm (slots : List (Slot α)) : (sortedSlots slots).Perm slots :=
  List.mergeSort_perm _ _

theorem record_map (typeName : String) (slots : List (Slot α)) (base : α)
    (entries : List (String × Setting)) :
    record typeName slots base (.map entries) = fromEntries entries (sortedSlots slots) base :=
  rfl

/-- A map reads as a record exactly when each field holds what is given for it,
and what it held before if nothing is. -/
theorem record_map_eq_ok_iff (hlawful : Lawful slots) (typeName : String) (base : α)
    (entries : List (String × Setting)) (r : α) :
    record typeName slots base (.map entries) = .ok r ↔
      ∀ s ∈ slots, s.Given (entries.lookup s.name) base r := by
  have hsorted := hlawful.perm (sortedSlots_perm slots)
  rw [record_map]
  constructor
  · intro hread s hs
    exact given_of_fromEntries hsorted.toIndependent hread s
      ((sortedSlots_perm slots).mem_iff.mpr hs)
  · intro hgiven
    -- Nothing that is given is refused, so some record is read; it holds in each
    -- slot what this one holds.
    obtain ⟨r', hr'⟩ : ∃ r', fromEntries entries (sortedSlots slots) base =
        .ok r' := by
      refine exists_fromEntries fun s hs v hv => ?_
      have hs' := hgiven s ((sortedSlots_perm slots).mem_iff.mp hs)
      rw [hv] at hs'
      exact ⟨_, hs'⟩
    have hgiven' := given_of_fromEntries hsorted.toIndependent hr'
    have hsame : r' = r := by
      apply hsorted.ext
      intro s hs
      have hs' := hgiven s ((sortedSlots_perm slots).mem_iff.mp hs)
      have hs'' := hgiven' s hs
      cases hlookup : entries.lookup s.name with
      | none =>
          rw [hlookup] at hs' hs''
          exact hs''.trans hs'.symm
      | some v =>
          rw [hlookup] at hs' hs''
          exact Except.ok.inj (hs''.symm.trans hs')
    rw [hr', hsame]

theorem record_map_congr (hlawful : Lawful slots) (typeName : String) (base : α)
    {entries entries' : List (String × Setting)}
    (hvalues : ∀ s ∈ slots, s.value entries base = s.value entries' base) :
    record typeName slots base (.map entries) =
      record typeName slots base (.map entries') := by
  have hsorted := hlawful.perm (sortedSlots_perm slots)
  rw [record_map, record_map]
  refine fromEntries_congr hsorted.toIndependent (fun s hs => ?_) fun _ _ => rfl
  exact hvalues s ((sortedSlots_perm slots).mem_iff.mp hs)

theorem fault_of_record_map {typeName : String} {base : α}
    {entries : List (String × Setting)} {fault : SettingFault}
    (hread : record typeName slots base (.map entries) = .error fault) :
    ∃ s ∈ slots, ∃ v inner, entries.lookup s.name = some v ∧ s.read v = .error inner ∧
      fault = { inner with path := .name s.name :: inner.path } := by
  rw [record_map] at hread
  obtain ⟨s, hs, hfault⟩ := fault_of_fromEntries hread
  exact ⟨s, (sortedSlots_perm slots).mem_iff.mp hs, hfault⟩

end Records

end WebAudit.Reading
