import Mathlib.Data.List.Nodup
import WebAudit.Detector.Context

/-!
What is left when only the first item of each key stays. The scan keeps a
sublist with pairwise different keys, and whatever it drops has an earlier item
with the same key before it. In a list whose items are in order, that item is
therefore the least of its key. A filter that never keeps an item while it
drops an earlier one of the same key may be applied before or after the scan.
The keys that are left are those of all items without repeats, and each item
that stays is the first with its key. Numbers along the items say where: the
first result of each kind stands at the least number that it is read at.
-/

namespace WebAudit

variable {α β : Type} [BEq β]

theorem firstOfEachFrom_sublist (key : α → β) (seen : List β) (items : List α) :
    (firstOfEachFrom key seen items).Sublist items := by
  induction items generalizing seen with
  | nil => exact List.Sublist.slnil
  | cons a rest ih =>
      simp only [firstOfEachFrom]
      split
      · exact (ih seen).cons a
      · exact (ih (key a :: seen)).cons_cons a

theorem firstOfEachFrom_map {γ : Type} (key : α → β) (f : γ → α) (seen : List β)
    (items : List γ) :
    firstOfEachFrom key seen (items.map f) =
      (firstOfEachFrom (fun c => key (f c)) seen items).map f := by
  induction items generalizing seen with
  | nil => rfl
  | cons c rest ih =>
      simp only [List.map_cons, firstOfEachFrom, ih]
      split <;> rfl

variable [LawfulBEq β]

theorem key_unseen_of_mem_firstOfEachFrom (key : α → β) (seen : List β)
    (items : List α) {a : α} (hmember : a ∈ firstOfEachFrom key seen items) :
    key a ∉ seen := by
  induction items generalizing seen with
  | nil => simp [firstOfEachFrom] at hmember
  | cons b rest ih =>
      simp only [firstOfEachFrom, List.contains_iff_mem] at hmember
      split at hmember
      · exact ih seen hmember
      · rename_i hunseen
        rcases List.mem_cons.mp hmember with rfl | hlater
        · exact hunseen
        · intro hseen
          exact ih (key b :: seen) hlater (List.mem_cons_of_mem _ hseen)

/-- No two items that stay share a key. -/
theorem firstOfEachFrom_keys_nodup (key : α → β) (seen : List β)
    (items : List α) : ((firstOfEachFrom key seen items).map key).Nodup := by
  induction items generalizing seen with
  | nil => exact List.nodup_nil
  | cons a rest ih =>
      simp only [firstOfEachFrom]
      split
      · exact ih seen
      · rw [List.map_cons, List.nodup_cons]
        refine ⟨?_, ih (key a :: seen)⟩
        intro hmember
        obtain ⟨b, hb, hkey⟩ := List.mem_map.mp hmember
        have hunseen := key_unseen_of_mem_firstOfEachFrom key (key a :: seen) rest hb
        exact hunseen (hkey ▸ List.mem_cons_self)

/-- Each item is represented by one that stays: itself, or one of the same
key that comes before it. -/
theorem exists_first_before (key : α → β) (before : α → α → Prop)
    (seen : List β) (items : List α) (hordered : items.Pairwise before)
    {a : α} (hmember : a ∈ items) (hunseen : key a ∉ seen) :
    ∃ b ∈ firstOfEachFrom key seen items,
      key b = key a ∧ (b = a ∨ before b a) := by
  induction items generalizing seen with
  | nil => simp at hmember
  | cons c rest ih =>
      obtain ⟨hc, hrest⟩ := List.pairwise_cons.mp hordered
      simp only [firstOfEachFrom, List.contains_iff_mem]
      rcases List.mem_cons.mp hmember with rfl | hlater
      · rw [if_neg hunseen]
        exact ⟨a, List.mem_cons_self, rfl, Or.inl rfl⟩
      · split
        · exact ih seen hrest hlater hunseen
        · by_cases hkey : key c = key a
          · exact ⟨c, List.mem_cons_self, hkey, Or.inr (hc a hlater)⟩
          · have hunseen' : key a ∉ key c :: seen := by
              simp only [List.mem_cons, not_or]
              exact ⟨fun h => hkey h.symm, hunseen⟩
            obtain ⟨b, hb, hsame, hbefore⟩ := ih (key c :: seen) hrest hlater hunseen'
            exact ⟨b, List.mem_cons_of_mem c hb, hsame, hbefore⟩

/-- The keys that are left: all that were not seen, each once. -/
theorem map_key_firstOfEachFrom (key : α → β) (seen : List β) (items : List α) :
    (firstOfEachFrom key seen items).map key =
      ((items.map key).filter fun k => !seen.contains k).eraseDups := by
  induction items generalizing seen with
  | nil => rfl
  | cons a rest ih =>
      by_cases hseen : key a ∈ seen
      · simp [firstOfEachFrom, hseen, ih]
      · rw [firstOfEachFrom, if_neg (by simp [hseen]), List.map_cons, List.map_cons, ih,
          List.filter_cons_of_pos (by simp [hseen]), List.eraseDups_cons, List.filter_filter]
        congr 2
        apply List.filter_congr
        intro k _
        by_cases hk : k = key a <;> simp [hk]

/-- An item that stays is the first one with its key. -/
theorem find?_eq_of_mem_firstOfEachFrom (key : α → β) (seen : List β) (items : List α)
    {a : α} (hmember : a ∈ firstOfEachFrom key seen items) :
    items.find? (fun b => key b == key a) = some a := by
  induction items generalizing seen with
  | nil => simp [firstOfEachFrom] at hmember
  | cons b rest ih =>
      simp only [firstOfEachFrom] at hmember
      split at hmember
      · rename_i hseen
        have hunseen := key_unseen_of_mem_firstOfEachFrom key seen rest hmember
        have hne : key b ≠ key a := fun hkey =>
          hunseen (hkey ▸ List.contains_iff_mem.mp hseen)
        rw [List.find?_cons_of_neg (by simpa using hne)]
        exact ih seen hmember
      · rcases List.mem_cons.mp hmember with rfl | hlater
        · exact List.find?_cons_of_pos (by simp)
        · have hunseen := key_unseen_of_mem_firstOfEachFrom key (key b :: seen) rest hlater
          have hne : key b ≠ key a := fun hkey => hunseen (hkey ▸ List.mem_cons_self)
          rw [List.find?_cons_of_neg (by simpa using hne)]
          exact ih (key b :: seen) hlater

/-- In a list whose items are in order, the items that stay are those without an
earlier one of their key. -/
theorem mem_firstOfEach_iff (key : α → β) (before : α → α → Prop)
    (hasymm : ∀ a b, before a b → ¬before b a) {items : List α}
    (hordered : items.Pairwise before) (a : α) :
    a ∈ firstOfEach key items ↔
      a ∈ items ∧ ∀ b ∈ items, key b = key a → ¬before b a := by
  constructor
  · intro hfirst
    refine ⟨(firstOfEachFrom_sublist key [] items).subset hfirst, ?_⟩
    intro b hb hkey hbefore
    have hfind := find?_eq_of_mem_firstOfEachFrom key [] items hfirst
    obtain ⟨-, front, rest, rfl, hfront⟩ := List.find?_eq_some_iff_append.mp hfind
    obtain ⟨-, hrest, -⟩ := List.pairwise_append.mp hordered
    rcases List.mem_append.mp hb with hb | hb
    · simpa [hkey] using hfront b hb
    · rcases List.mem_cons.mp hb with rfl | hlater
      · exact hasymm b b hbefore hbefore
      · exact hasymm b a hbefore ((List.pairwise_cons.mp hrest).1 b hlater)
  · rintro ⟨hmember, hearliest⟩
    obtain ⟨b, hb, hkey, hsame⟩ :=
      exists_first_before key before [] items hordered hmember List.not_mem_nil
    rcases hsame with rfl | hbefore
    · exact hb
    · have hitem := (firstOfEachFrom_sublist key [] items).subset hb
      exact absurd hbefore (hearliest b hitem hkey)

/-- The results of reading items, each with the number of its item. -/
def numbered {γ : Type} (read : γ → Option β) (items : List γ) : List (Nat × β) :=
  items.zipIdx.filterMap fun item => (read item.1).map fun b => (item.2, b)

section

variable {γ : Type} (read : γ → Option β) (items : List γ)

omit [BEq β] [LawfulBEq β]

theorem mem_numbered_iff (place : Nat) (b : β) :
    (place, b) ∈ numbered read items ↔
      ∃ item, items[place]? = some item ∧ read item = some b := by
  simp only [numbered, List.mem_filterMap, Option.map_eq_some_iff, Prod.exists, Prod.mk.injEq,
    List.mem_zipIdx_iff_getElem?]
  constructor
  · rintro ⟨item, _, hitem, _, hread, rfl, rfl⟩
    exact ⟨item, hitem, hread⟩
  · rintro ⟨item, hitem, hread⟩
    exact ⟨item, place, hitem, b, hread, rfl, rfl⟩

theorem numbered_pairwise : (numbered read items).Pairwise fun a b => a.1 < b.1 := by
  have hplaces : items.zipIdx.Pairwise fun a b => a.2 < b.2 := by
    rw [← List.pairwise_map, List.zipIdx_map_snd]
    exact List.pairwise_lt_range'
  apply List.Pairwise.filterMap _ _ hplaces
  intro a a' hless b hb b' hb'
  obtain ⟨_, -, rfl⟩ := Option.map_eq_some_iff.mp hb
  obtain ⟨_, -, rfl⟩ := Option.map_eq_some_iff.mp hb'
  exact hless

theorem map_snd_numbered : (numbered read items).map Prod.snd = items.filterMap read := by
  rw [numbered, List.map_filterMap]
  conv_rhs => rw [← List.zipIdx_map_fst 0 items, List.filterMap_map]
  apply List.filterMap_congr
  intro item _
  rw [Option.map_map]
  exact congrFun Option.map_id (read item.1)

end

omit [LawfulBEq β] in
/-- The first result of each kind, in order, stands at the number where it is
read first. -/
theorem firstOfEach_filterMap {γ : Type} (read : γ → Option β) (items : List γ) :
    firstOfEach id (items.filterMap read) =
      (firstOfEach Prod.snd (numbered read items)).map Prod.snd := by
  rw [← map_snd_numbered read items]
  exact firstOfEachFrom_map id Prod.snd [] (numbered read items)

theorem mem_firstOfEach_numbered_iff {γ : Type} (read : γ → Option β) (items : List γ)
    (place : Nat) (b : β) :
    (place, b) ∈ firstOfEach Prod.snd (numbered read items) ↔
      (∃ item, items[place]? = some item ∧ read item = some b) ∧
        ∀ earlier < place, ∀ item, items[earlier]? = some item → read item ≠ some b := by
  rw [mem_firstOfEach_iff Prod.snd (fun a b => a.1 < b.1) (fun _ _ => Nat.lt_asymm)
    (numbered_pairwise read items), mem_numbered_iff]
  constructor
  · rintro ⟨hread, hearliest⟩
    refine ⟨hread, ?_⟩
    intro earlier hless item hitem hsame
    have hmember := (mem_numbered_iff read items earlier b).mpr ⟨item, hitem, hsame⟩
    exact hearliest _ hmember rfl hless
  · rintro ⟨hread, hearliest⟩
    refine ⟨hread, ?_⟩
    rintro ⟨earlier, b'⟩ hmember rfl hless
    obtain ⟨item, hitem, hsame⟩ := (mem_numbered_iff read items earlier b').mp hmember
    exact hearliest earlier hless item hitem hsame

/-- Of the keys before, only those matter that occur among the items. -/
theorem firstOfEachFrom_congr_seen (key : α → β) (seen seen' : List β)
    (items : List α) (hagree : ∀ a ∈ items, key a ∈ seen ↔ key a ∈ seen') :
    firstOfEachFrom key seen items = firstOfEachFrom key seen' items := by
  induction items generalizing seen seen' with
  | nil => rfl
  | cons a rest ih =>
      have hhead := hagree a List.mem_cons_self
      have hrest : ∀ b ∈ rest, key b ∈ seen ↔ key b ∈ seen' := fun b hb =>
        hagree b (List.mem_cons_of_mem a hb)
      simp only [firstOfEachFrom, List.contains_iff_mem, hhead]
      split
      · exact ih seen seen' hrest
      · congr 1
        apply ih
        intro b hb
        simp only [List.mem_cons, hrest b hb]

/-- Filtering commutes with the scan when no item is kept that has a dropped
one of its key before it. -/
theorem filter_firstOfEachFrom (key : α → β) (keep : α → Bool)
    (seen : List β) (items : List α)
    (hclosed : items.Pairwise fun a b => key a = key b → keep b → keep a) :
    (firstOfEachFrom key seen items).filter keep =
      firstOfEachFrom key seen (items.filter keep) := by
  induction items generalizing seen with
  | nil => rfl
  | cons a rest ih =>
      obtain ⟨ha, hrest⟩ := List.pairwise_cons.mp hclosed
      by_cases hseen : key a ∈ seen
      · cases hkeep : keep a <;>
          simp [firstOfEachFrom, hseen, hkeep, ih seen hrest]
      · cases hkeep : keep a with
        | true => simp [firstOfEachFrom, hseen, hkeep, ih (key a :: seen) hrest]
        | false =>
            -- the key of a dropped item does not occur among what is kept later
            have habsent : ∀ b ∈ rest.filter keep,
                key b ∈ key a :: seen ↔ key b ∈ seen := by
              intro b hb
              obtain ⟨hb, hkept⟩ := List.mem_filter.mp hb
              have hkey : key b ≠ key a := fun h => by
                simp [ha b hb h.symm hkept] at hkeep
              simp [hkey]
            simp only [firstOfEachFrom, List.contains_iff_mem, hseen, if_false,
              List.filter_cons, hkeep, Bool.false_eq_true]
            rw [ih (key a :: seen) hrest]
            exact firstOfEachFrom_congr_seen key _ _ _ habsent

omit [BEq β] [LawfulBEq β] in
/-- If keys differ, filtering by the key of a member leaves that member. -/
theorem filter_key_eq_singleton [DecidableEq β] {key : α → β} {items : List α} {a : α}
    (hdistinct : (items.map key).Nodup) (hmember : a ∈ items) :
    items.filter (fun b => key b = key a) = [a] := by
  induction items with
  | nil => simp at hmember
  | cons b rest ih =>
      obtain ⟨hfresh, hrest⟩ := List.nodup_cons.mp hdistinct
      rcases List.mem_cons.mp hmember with rfl | hlater
      · have hnone : rest.filter (fun b => key b = key a) = [] := by
          rw [List.filter_eq_nil_iff]
          intro b hb
          have hne : key b ≠ key a := fun hkey =>
            hfresh (hkey ▸ List.mem_map_of_mem hb)
          simpa using hne
        rw [List.filter_cons_of_pos (by simp), hnone]
      · have hne : key b ≠ key a := fun hkey =>
          hfresh (hkey ▸ List.mem_map_of_mem hlater)
        rw [List.filter_cons_of_neg (by simpa using hne), ih hrest hlater]

end WebAudit
