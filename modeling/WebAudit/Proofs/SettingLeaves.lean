import WebAudit.Proofs.RecordReading
import WebAudit.Proofs.SettingTrees

/-!
The leaves of the settings: the fields of the five parts. None of them reads a
map, and an error in one of them leads to something that is there. If the parts
are maps, settings are read from a tree exactly when each leaf reads as what the
settings hold, and a leaf that the tree does not give has its default.
-/

namespace WebAudit.Reading

section Slots

theorem scanSlots_lawful : Lawful scanSlots where
  get_store := by simp [scanSlots]
  apart := by simp [scanSlots, Slot.Apart]
  ext := by rintro ⟨⟩ ⟨⟩; simp [scanSlots]

theorem secretSlots_lawful : Lawful secretSlots where
  get_store := by simp [secretSlots]
  apart := by simp [secretSlots, Slot.Apart]
  ext := by rintro ⟨⟩ ⟨⟩; simp [secretSlots]

theorem lookupSlots_lawful : Lawful lookupSlots where
  get_store := by simp [lookupSlots]
  apart := by simp [lookupSlots, Slot.Apart]
  ext := by rintro ⟨⟩ ⟨⟩; simp [lookupSlots]

theorem policySlots_lawful : Lawful policySlots where
  get_store := by simp [policySlots]
  apart := by simp [policySlots, Slot.Apart]
  ext := by rintro ⟨⟩ ⟨⟩; simp [policySlots]

theorem detectorSlots_lawful : Lawful detectorSlots where
  get_store := by simp [detectorSlots]
  apart := by simp [detectorSlots, Slot.Apart]
  ext := by rintro ⟨⟩ ⟨⟩; simp [detectorSlots]

theorem partSlots_lawful : Lawful partSlots where
  get_store := by simp [partSlots]
  apart := by simp [partSlots, Slot.Apart]
  ext := by rintro ⟨⟩ ⟨⟩; simp [partSlots]

end Slots

section Faults

/-- A reader whose errors lead to something in the value that was read. -/
def Points {β : Type} (read : Setting → Reading β) : Prop :=
  ∀ v fault, read v = .error fault → ∃ w, v.get? fault.path = some w

/-- A reader that refuses maps, for what they are or for one of their names. -/
def RefusesMaps {β : Type} (read : Setting → Reading β) : Prop :=
  ∀ entries, ∃ fault, read (.map entries) = .error fault ∧
    (fault.path = [] ∨ ∃ n ∈ entries.map Prod.fst, fault.path = [.name n])

structure ReadsLeaf {β : Type} (read : Setting → Reading β) : Prop where
  points : Points read
  refusesMaps : RefusesMaps read

/-- What is read at a leaf is no map. -/
theorem ReadsLeaf.isMap_of_ok {β : Type} {read : Setting → Reading β} (hreads : ReadsLeaf read)
    {v : Setting} {x : β} (hread : read v = .ok x) : v.isMap = false := by
  cases hmap : v.isMap with
  | false => rfl
  | true =>
      obtain ⟨entries, rfl⟩ := (Setting.isMap_iff v).mp hmap
      obtain ⟨fault, hfault, -⟩ := hreads.refusesMaps entries
      rw [hread] at hfault
      cases hfault

theorem points_of_root {β : Type} {read : Setting → Reading β}
    (hroot : ∀ v fault, read v = .error fault → fault.path = []) : Points read := by
  intro v fault hread
  rw [hroot v fault hread]
  exact ⟨v, rfl⟩

theorem natural_fault (typeName : String) (v : Setting) (fault : SettingFault)
    (hread : natural typeName v = .error fault) : fault.path = [] := by
  unfold natural at hread
  repeat' split at hread
  all_goals cases hread
  all_goals rfl

theorem number_fault (v : Setting) (fault : SettingFault)
    (hread : number v = .error fault) : fault.path = [] := by
  unfold number at hread
  split at hread <;> cases hread
  rfl

theorem switch_fault (v : Setting) (fault : SettingFault)
    (hread : switch v = .error fault) : fault.path = [] := by
  unfold switch at hread
  split at hread <;> cases hread
  rfl

theorem text_fault (v : Setting) (fault : SettingFault)
    (hread : text v = .error fault) : fault.path = [] := by
  unfold text at hread
  split at hread <;> cases hread
  rfl

theorem mem_of_least {entries : List (String × Setting)} {p : String × Setting}
    (hleast : leastEntry? entries = some p) : p ∈ entries := by
  induction entries generalizing p with
  | nil => cases hleast
  | cons first rest ih =>
      unfold leastEntry? at hleast
      repeat' split at hleast
      all_goals cases hleast
      · rename_i hrest _
        exact List.mem_cons_of_mem first (ih hrest)
      · exact List.mem_cons_self
      · exact List.mem_cons_self

theorem named_refusesMaps {β : Type} (typeName : String) (all : List β) (nameOf : β → String) :
    RefusesMaps (named typeName all nameOf) := by
  intro entries
  simp only [named]
  cases hleast : leastEntry? entries with
  | none => exact ⟨⟨[], .type "map" "enum"⟩, rfl, Or.inl rfl⟩
  | some p =>
      have hname : p.1 ∈ entries.map Prod.fst := List.mem_map_of_mem (mem_of_least hleast)
      dsimp only
      split
      · exact ⟨⟨[.name p.1], .type p.2.describe "unit"⟩, rfl, Or.inr ⟨p.1, hname, rfl⟩⟩
      · exact ⟨⟨[.name p.1], .unknownName p.1 (all.map nameOf)⟩, rfl, Or.inr ⟨p.1, hname, rfl⟩⟩

theorem named_points {β : Type} (typeName : String) (all : List β) (nameOf : β → String) :
    Points (named typeName all nameOf) := by
  intro v fault hread
  cases v with
  | map entries =>
      obtain ⟨fault', hread', hpath⟩ := named_refusesMaps typeName all nameOf entries
      obtain rfl := Except.error.inj (hread.symm.trans hread')
      rcases hpath with hpath | ⟨n, hn, hpath⟩
      · exact ⟨_, by rw [hpath]; rfl⟩
      · obtain ⟨w, hw⟩ := exists_lookup_iff_mem.mpr hn
        exact ⟨w, by rw [hpath, Setting.get?, hw]; rfl⟩
  | text s =>
      unfold named at hread
      dsimp only at hread
      split at hread <;> cases hread
      exact ⟨_, rfl⟩
  | _ =>
      cases hread
      exact ⟨_, rfl⟩

theorem readsLeaf_of_root {β : Type} {read : Setting → Reading β}
    (hroot : ∀ v fault, read v = .error fault → fault.path = [])
    (hmaps : ∀ entries, ∃ fault, read (.map entries) = .error fault) : ReadsLeaf read where
  points := points_of_root hroot
  refusesMaps entries := by
    obtain ⟨fault, hread⟩ := hmaps entries
    exact ⟨fault, hread, Or.inl (hroot _ _ hread)⟩

theorem natural_readsLeaf (typeName : String) : ReadsLeaf (natural typeName) :=
  readsLeaf_of_root (natural_fault typeName) fun _ => ⟨_, rfl⟩

theorem number_readsLeaf : ReadsLeaf number := readsLeaf_of_root number_fault fun _ => ⟨_, rfl⟩

theorem switch_readsLeaf : ReadsLeaf switch := readsLeaf_of_root switch_fault fun _ => ⟨_, rfl⟩

theorem text_readsLeaf : ReadsLeaf text := readsLeaf_of_root text_fault fun _ => ⟨_, rfl⟩

theorem severity_readsLeaf : ReadsLeaf severity := ⟨named_points _ _ _, named_refusesMaps _ _ _⟩

theorem category_readsLeaf : ReadsLeaf category := ⟨named_points _ _ _, named_refusesMaps _ _ _⟩

theorem fault_of_itemsFrom {β : Type} {read : Setting → Reading β} {i : Nat}
    {items : List Setting} {fault : SettingFault}
    (hread : itemsFrom read i items = .error fault) :
    ∃ k v inner, items[k]? = some v ∧ read v = .error inner ∧
      fault = { inner with path := .index (i + k) :: inner.path } := by
  induction items generalizing i with
  | nil => cases hread
  | cons v rest ih =>
      unfold itemsFrom at hread
      cases hfirst : below (.index i) (read v) with
      | error cause =>
          rw [hfirst] at hread
          cases hread
          obtain ⟨inner, hinner, hfault⟩ := below_eq_error_iff.mp hfirst
          exact ⟨0, v, inner, rfl, hinner, hfault⟩
      | ok x =>
          rw [hfirst] at hread
          cases hrest : itemsFrom read (i + 1) rest with
          | ok more =>
              simp only [bind, Except.bind, hrest] at hread
              cases hread
          | error cause =>
              simp only [bind, Except.bind, hrest] at hread
              cases hread
              obtain ⟨k, w, inner, hw, hinner, hfault⟩ := ih hrest
              refine ⟨k + 1, w, inner, hw, hinner, ?_⟩
              rw [hfault, Nat.add_right_comm, Nat.add_assoc]

theorem list_readsLeaf {β : Type} {read : Setting → Reading β} (hpoints : Points read) :
    ReadsLeaf (list read) := by
  refine ⟨?_, fun entries => ⟨_, rfl, Or.inl rfl⟩⟩
  intro v fault hread
  cases v with
  | list items =>
      obtain ⟨k, v, inner, hv, hinner, rfl⟩ := fault_of_itemsFrom hread
      obtain ⟨w, hw⟩ := hpoints v inner hinner
      exact ⟨w, by simp [Setting.get?, hv, hw]⟩
  | _ =>
      cases hread
      exact ⟨_, rfl⟩

theorem draftSlots_lawful : Lawful draftSlots where
  get_store := by simp [draftSlots]
  apart := by simp [draftSlots, Slot.Apart]
  ext := by rintro ⟨⟩ ⟨⟩; simp [draftSlots]

theorem fault_of_fromItems {α : Type} {slots : List (Slot α)} {i : Nat} {items : List Setting}
    {base : α} {fault : SettingFault}
    (hread : fromItems i items slots base = .error fault) :
    ∃ k v inner, items[k]? = some v ∧ (∃ s ∈ slots, s.read v = .error inner) ∧
      fault = { inner with path := .index (i + k) :: inner.path } := by
  induction slots generalizing i items base with
  | nil => cases items <;> cases hread
  | cons s rest ih =>
      cases items with
      | nil => cases hread
      | cons v items =>
          simp only [fromItems] at hread
          cases hv : s.read v with
          | error inner =>
              rw [hv] at hread
              cases hread
              exact ⟨0, v, inner, rfl, ⟨s, List.mem_cons_self, hv⟩, rfl⟩
          | ok x =>
              rw [hv] at hread
              obtain ⟨k, w, inner, hw, ⟨t, ht, hinner⟩, hfault⟩ := ih hread
              refine ⟨k + 1, w, inner, hw, ⟨t, List.mem_cons_of_mem s ht, hinner⟩, ?_⟩
              rw [hfault, Nat.add_right_comm, Nat.add_assoc]

theorem record_points {α : Type} {slots : List (Slot α)}
    (hpoints : ∀ s ∈ slots, Points s.read) (typeName : String) (base : α) :
    Points (record typeName slots base) := by
  intro v fault hread
  cases v with
  | map entries =>
      obtain ⟨s, hs, v, inner, hv, hinner, rfl⟩ := fault_of_record_map hread
      obtain ⟨w, hw⟩ := hpoints s hs v inner hinner
      exact ⟨w, by simp [Setting.get?, hv, hw]⟩
  | list items =>
      obtain ⟨k, v, inner, hv, ⟨s, hs, hinner⟩, rfl⟩ := fault_of_fromItems hread
      obtain ⟨w, hw⟩ := hpoints s hs v inner hinner
      exact ⟨w, by simp [Setting.get?, hv, hw]⟩
  | _ =>
      cases hread
      exact ⟨_, rfl⟩

theorem points_map {β γ : Type} {read : Setting → Reading β} (hpoints : Points read) (f : β → γ) :
    Points fun v => (read v).map f := by
  intro v fault hread
  apply hpoints v fault
  cases hv : read v with
  | error inner =>
      dsimp only at hread
      rw [hv] at hread
      cases hread
      rfl
  | ok x =>
      dsimp only at hread
      rw [hv] at hread
      cases hread

theorem widenRule_points : Points widenRule := by
  have hdraft : Points draft := by
    refine record_points ?_ "WidenRule" ({} : WidenDraft)
    simp only [draftSlots, List.forall_mem_cons, List.not_mem_nil, false_imp_iff, implies_true,
      and_true]
    exact ⟨points_map (named_points _ _ _) some, points_map (points_of_root text_fault) some,
      points_map (named_points _ _ _) some⟩
  intro v fault hread
  rw [widenRule] at hread
  cases hd : draft v with
  | error inner =>
      rw [hd] at hread
      cases hread
      exact hdraft v _ hd
  | ok d =>
      -- A rule that is not complete is refused as a whole.
      have hroot : fault.path = [] := by
        rw [hd] at hread
        dsimp only [bind, Except.bind] at hread
        split at hread <;> cases hread <;> rfl
      exact ⟨v, by rw [hroot]; rfl⟩

end Faults

section Leaves

structure Leaf where
  part : String
  name : String
  Value : Type
  read : Setting → Reading Value
  get : Settings → Value

def Slot.leaf {α : Type} (part : String) (view : Settings → α) (s : Slot α) : Leaf :=
  ⟨part, s.name, s.Value, s.read, fun c => s.get (view c)⟩

namespace Leaf

def all : List Leaf :=
  scanSlots.map (Slot.leaf "scan" (·.scan)) ++
    secretSlots.map (Slot.leaf "secrets" (·.secrets)) ++
    lookupSlots.map (Slot.leaf "dependencies" (·.dependencies)) ++
    policySlots.map (Slot.leaf "policy" (·.policy)) ++
    detectorSlots.map (Slot.leaf "detectors" (·.detectors))

def path (leaf : Leaf) : SettingPath := [.name leaf.part, .name leaf.name]

/-- Whether settings hold at a leaf what a setting says, or the default if none
is given. -/
def Given (leaf : Leaf) (given : Option Setting) (s : Settings) : Prop :=
  match given with
  | none => leaf.get s = leaf.get {}
  | some v => leaf.read v = .ok (leaf.get s)

end Leaf

/-- Whether a part is a map where it is given. -/
def HasTable (part : String) (entries : List (String × Setting)) : Prop :=
  ∀ v, entries.lookup part = some v → v.isMap = true

def HasTables (entries : List (String × Setting)) : Prop :=
  ∀ s ∈ partSlots, HasTable s.name entries

/-- The entries of a part. -/
def tableAt (part : String) (entries : List (String × Setting)) : List (String × Setting) :=
  match entries.lookup part with
  | some (.map m) => m
  | _ => []

theorem Leaf.get?_path (leaf : Leaf) (entries : List (String × Setting)) :
    (Setting.map entries).get? leaf.path = (tableAt leaf.part entries).lookup leaf.name := by
  simp only [Leaf.path, Setting.get?, tableAt]
  cases entries.lookup leaf.part with
  | none => rfl
  | some v =>
      cases v with
      | map m => simp [Setting.get?]
      | _ => rfl

section Part

variable {α : Type} {slots : List (Slot α)} {entries : List (String × Setting)} {part : String}

/-- A part that is absent reads as one that is empty. -/
theorem value_part (hlawful : Lawful slots) (typeName : String) (view : Settings → α)
    (store : α → Settings → Settings) (htable : HasTable part entries) :
    Slot.value ⟨part, α, record typeName slots (view {}), store, view⟩ entries {} =
      below (.name part)
        (record typeName slots (view {}) (.map (tableAt part entries))) := by
  unfold Slot.value tableAt
  cases hlookup : entries.lookup part with
  | none =>
      have hempty : record typeName slots (view {}) (.map []) = .ok (view {}) :=
        (record_map_eq_ok_iff hlawful typeName (view {}) [] (view {})).mpr fun _ _ => rfl
      exact (congrArg (below (.name part)) hempty).symm
  | some v =>
      obtain ⟨m, rfl⟩ := (Setting.isMap_iff v).mp (htable v hlookup)
      rfl

/-- Reading a part is reading its leaves. -/
theorem given_part_iff (hlawful : Lawful slots) (typeName : String) (view : Settings → α)
    (store : α → Settings → Settings) (htable : HasTable part entries) (s : Settings) :
    Slot.Given ⟨part, α, record typeName slots (view {}), store, view⟩
        (entries.lookup part) {} s ↔
      ∀ leaf ∈ slots.map (Slot.leaf part view),
        leaf.Given ((Setting.map entries).get? leaf.path) s := by
  have hvalue := value_part hlawful typeName view store htable
  have hgiven : Slot.Given
      ⟨part, α, record typeName slots (view {}), store, view⟩
      (entries.lookup part) {} s ↔
        record typeName slots (view {}) (.map (tableAt part entries)) =
          .ok (view s) := by
    rw [← below_eq_ok_iff, ← hvalue, Slot.value]
    cases entries.lookup part with
    | none => simp [Slot.Given, eq_comm]
    | some v => exact below_eq_ok_iff.symm
  rw [hgiven, record_map_eq_ok_iff hlawful, List.forall_mem_map]
  refine forall₂_congr fun slot _ => ?_
  rw [Leaf.get?_path]
  change _ ↔ Leaf.Given _ ((tableAt part entries).lookup slot.name) s
  cases (tableAt part entries).lookup slot.name <;> exact Iff.rfl

/-- What is read of a part depends on its leaves alone. -/
theorem value_part_congr {entries' : List (String × Setting)} (hlawful : Lawful slots)
    (typeName : String) (view : Settings → α) (store : α → Settings → Settings)
    (htable : HasTable part entries) (htable' : HasTable part entries')
    (hsame : ∀ leaf ∈ slots.map (Slot.leaf part view),
      (Setting.map entries).get? leaf.path = (Setting.map entries').get? leaf.path) :
    Slot.value ⟨part, α, record typeName slots (view {}), store, view⟩ entries {} =
      Slot.value ⟨part, α, record typeName slots (view {}), store, view⟩
        entries' {} := by
  rw [value_part hlawful typeName view store htable, value_part hlawful typeName view store htable']
  congr 1
  refine record_map_congr hlawful typeName (view {}) fun slot hslot => ?_
  have hlookup := hsame _ (List.mem_map_of_mem hslot)
  rw [Leaf.get?_path, Leaf.get?_path] at hlookup
  simp only [Slot.leaf] at hlookup
  simp only [Slot.value, hlookup]

/-- An error in a part is one of a leaf. -/
theorem fault_of_part {typeName : String} {base : α}
    (view : Settings → α) (htable : HasTable part entries) {v : Setting} {inner : SettingFault}
    (hv : entries.lookup part = some v)
    (hread : record typeName slots base v = .error inner) :
    ∃ leaf ∈ slots.map (Slot.leaf part view), ∃ w cause,
      (Setting.map entries).get? leaf.path = some w ∧ leaf.read w = .error cause ∧
      SettingFault.mk (.name part :: inner.path) inner.cause =
        ⟨leaf.path ++ cause.path, cause.cause⟩ := by
  obtain ⟨m, rfl⟩ := (Setting.isMap_iff v).mp (htable v hv)
  obtain ⟨slot, hslot, w, cause, hw, hcause, rfl⟩ := fault_of_record_map hread
  refine ⟨slot.leaf part view, List.mem_map_of_mem hslot, w, cause, ?_, hcause, rfl⟩
  rw [Leaf.get?_path]
  simp only [Slot.leaf, tableAt, hv, hw]

end Part

/-- Settings are read from a tree whose parts are maps exactly when each leaf
holds what is given for it, or its default. -/
theorem settings_map_eq_ok_iff {entries : List (String × Setting)} (htables : HasTables entries)
    (s : Settings) :
    settings (.map entries) = .ok s ↔
      ∀ leaf ∈ Leaf.all, leaf.Given ((Setting.map entries).get? leaf.path) s := by
  rw [settings, record_map_eq_ok_iff partSlots_lawful]
  simp only [HasTables, partSlots, List.forall_mem_cons, List.not_mem_nil, false_imp_iff,
    implies_true, and_true] at htables ⊢
  obtain ⟨hscan, hsecrets, hlookups, hpolicy, hdetectors⟩ := htables
  simp only [Leaf.all, List.forall_mem_append, and_assoc]
  exact and_congr (given_part_iff scanSlots_lawful _ (·.scan) _ hscan s)
    (and_congr (given_part_iff secretSlots_lawful _ (·.secrets) _ hsecrets s)
      (and_congr (given_part_iff lookupSlots_lawful _ (·.dependencies) _ hlookups s)
        (and_congr (given_part_iff policySlots_lawful _ (·.policy) _ hpolicy s)
          (given_part_iff detectorSlots_lawful _ (·.detectors) _ hdetectors s))))

/-- What is read, or which error comes of it, depends on the leaves alone. -/
theorem settings_map_congr {entries entries' : List (String × Setting)}
    (htables : HasTables entries) (htables' : HasTables entries')
    (hsame : ∀ leaf ∈ Leaf.all,
      (Setting.map entries).get? leaf.path = (Setting.map entries').get? leaf.path) :
    settings (.map entries) = settings (.map entries') := by
  rw [settings]
  apply record_map_congr partSlots_lawful
  simp only [HasTables, partSlots, List.forall_mem_cons, List.not_mem_nil, false_imp_iff,
    implies_true, and_true] at htables htables' ⊢
  simp only [Leaf.all, List.forall_mem_append, and_assoc] at hsame
  obtain ⟨hscan, hsecrets, hlookups, hpolicy, hdetectors⟩ := htables
  obtain ⟨hscan', hsecrets', hlookups', hpolicy', hdetectors'⟩ := htables'
  obtain ⟨hscans, hsecretss, hlookupss, hpolicys, hdetectorss⟩ := hsame
  exact ⟨value_part_congr scanSlots_lawful _ (·.scan) _ hscan hscan' hscans,
    value_part_congr secretSlots_lawful _ (·.secrets) _ hsecrets hsecrets' hsecretss,
    value_part_congr lookupSlots_lawful _ (·.dependencies) _ hlookups hlookups' hlookupss,
    value_part_congr policySlots_lawful _ (·.policy) _ hpolicy hpolicy' hpolicys,
    value_part_congr detectorSlots_lawful _ (·.detectors) _ hdetectors hdetectors' hdetectorss⟩

/-- Each leaf belongs to a part. -/
theorem Leaf.exists_part {leaf : Leaf} (hleaf : leaf ∈ Leaf.all) :
    ∃ s ∈ partSlots, s.name = leaf.part := by
  have hall : ∀ leaf ∈ Leaf.all, ∃ s ∈ partSlots, s.name = leaf.part := by
    simp only [Leaf.all, List.forall_mem_append, List.forall_mem_map]
    simp [partSlots, Slot.leaf]
  exact hall leaf hleaf

theorem scanSlots_readsLeaf : ∀ s ∈ scanSlots, ReadsLeaf s.read := by
  simp [scanSlots, natural_readsLeaf, text_readsLeaf, switch_readsLeaf,
    list_readsLeaf text_readsLeaf.points]

theorem secretSlots_readsLeaf : ∀ s ∈ secretSlots, ReadsLeaf s.read := by
  simp [secretSlots, natural_readsLeaf, number_readsLeaf, switch_readsLeaf]

theorem lookupSlots_readsLeaf : ∀ s ∈ lookupSlots, ReadsLeaf s.read := by
  simp [lookupSlots, natural_readsLeaf, text_readsLeaf, switch_readsLeaf]

theorem policySlots_readsLeaf : ∀ s ∈ policySlots, ReadsLeaf s.read := by
  simp [policySlots, severity_readsLeaf, list_readsLeaf widenRule_points,
    list_readsLeaf category_readsLeaf.points]

theorem detectorSlots_readsLeaf : ∀ s ∈ detectorSlots, ReadsLeaf s.read := by
  simp [detectorSlots, switch_readsLeaf]

/-- Leaves are read by readers of leaves. -/
theorem Leaf.readsLeaf {leaf : Leaf} (hleaf : leaf ∈ Leaf.all) : ReadsLeaf leaf.read := by
  have hall : ∀ leaf ∈ Leaf.all, ReadsLeaf leaf.read := by
    simp only [Leaf.all, List.forall_mem_append, List.forall_mem_map]
    exact ⟨⟨⟨⟨scanSlots_readsLeaf, secretSlots_readsLeaf⟩, lookupSlots_readsLeaf⟩,
      policySlots_readsLeaf⟩, detectorSlots_readsLeaf⟩
  exact hall leaf hleaf

/-- An error in reading settings is one of a leaf, if the parts are maps. -/
theorem fault_of_settings_map {entries : List (String × Setting)} (htables : HasTables entries)
    {fault : SettingFault} (hread : settings (.map entries) = .error fault) :
    ∃ leaf ∈ Leaf.all, ∃ v inner, (Setting.map entries).get? leaf.path = some v ∧
      leaf.read v = .error inner ∧ fault = ⟨leaf.path ++ inner.path, inner.cause⟩ := by
  rw [settings] at hread
  obtain ⟨s, hs, v, inner, hv, hinner, rfl⟩ := fault_of_record_map hread
  have htable := htables s hs
  simp only [Leaf.all, List.mem_append, or_and_right, exists_or]
  simp only [partSlots, List.mem_cons, List.not_mem_nil, or_false] at hs
  rcases hs with rfl | rfl | rfl | rfl | rfl
  · exact Or.inl (Or.inl (Or.inl (Or.inl
      (fault_of_part (·.scan) htable hv hinner))))
  · exact Or.inl (Or.inl (Or.inl (Or.inr
      (fault_of_part (·.secrets) htable hv hinner))))
  · exact Or.inl (Or.inl (Or.inr
      (fault_of_part (·.dependencies) htable hv hinner)))
  · exact Or.inl (Or.inr (fault_of_part (·.policy) htable hv hinner))
  · exact Or.inr (fault_of_part (·.detectors) htable hv hinner)

end Leaves

end WebAudit.Reading
