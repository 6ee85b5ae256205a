import WebAudit.Detector.Configuration
import Mathlib.Data.List.Nodup

/-!
The members of documents with their places. A place is a way from a document to
an object, by names and positions, and the number of a member there. All members
of some documents are listed with their places, each one once. Looking for hits
goes through this list and leaves out the members of objects that are too deep.
-/

namespace WebAudit.Configuration

inductive Step where
  | member (index : Nat) (key : String)
  | item (index : Nat)
  deriving DecidableEq, Repr

def Step.name : Step → String
  | .member _ key => key
  | .item index => toString index

def Step.key? : Step → Option String
  | .member _ key => some key
  | .item _ => none

inductive Leads : Json → List Step → Json → Prop where
  | here (v : Json) : Leads v [] v
  | member {members : List (String × Json)} {index : Nat} {key : String} {v w : Json}
      {way : List Step} (hmember : members[index]? = some (key, v)) (hway : Leads v way w) :
      Leads (.object members) (.member index key :: way) w
  | item {items : List Json} {index : Nat} {v w : Json} {way : List Step}
      (hitem : items[index]? = some v) (hway : Leads v way w) :
      Leads (.array items) (.item index :: way) w

def isCorsWay (way : List Step) : Bool := way.any fun s => s.key?.any mentionsCors

/-- A member at its place: the number of its document, the way to its object and
its number there. -/
structure Occurrence where
  document : Nat
  way : List Step
  index : Nat
  key : String
  value : Json

namespace Occurrence

/-- Whether a member lies below a value that a way leads to. -/
def LiesBelow (document : Nat) (way : List Step) (v : Json) (o : Occurrence) : Prop :=
  o.document = document ∧ ∃ below members, o.way = way ++ below ∧
    Leads v below (.object members) ∧ members[o.index]? = some (o.key, o.value)

def LiesIn (documents : List Json) (o : Occurrence) : Prop :=
  ∃ doc, documents[o.document]? = some doc ∧ o.LiesBelow o.document [] doc

def ancestors (o : Occurrence) : List String := o.way.map Step.name

def hits (o : Occurrence) : List Hit := memberHits o.ancestors (isCorsWay o.way) o.key o.value

/-- Whether the object of a member is not too deep. -/
def isShallow (o : Occurrence) : Bool := decide (o.way.length ≤ maxDepth)

end Occurrence

mutual

/-- The members in a value that a way leads to, before what is in them. -/
def occurrencesIn (document : Nat) (way : List Step) : Json → List Occurrence
  | .object members => occurrencesInMembers document way 0 members
  | .array items => occurrencesInItems document way 0 items
  | _ => []

def occurrencesInMembers (document : Nat) (way : List Step) (index : Nat) :
    List (String × Json) → List Occurrence
  | [] => []
  | (key, value) :: rest =>
    ⟨document, way, index, key, value⟩ ::
      (occurrencesIn document (way ++ [.member index key]) value ++
        occurrencesInMembers document way (index + 1) rest)

def occurrencesInItems (document : Nat) (way : List Step) (index : Nat) :
    List Json → List Occurrence
  | [] => []
  | item :: rest =>
    occurrencesIn document (way ++ [.item index]) item ++
      occurrencesInItems document way (index + 1) rest

end

def occurrencesFrom (first : Nat) : List Json → List Occurrence
  | [] => []
  | doc :: rest => occurrencesIn first [] doc ++ occurrencesFrom (first + 1) rest

section Members

theorem exists_getElem?_cons {α : Type} {a : α} {as : List α} {P : Nat → α → Prop} :
    (∃ i x, (a :: as)[i]? = some x ∧ P i x) ↔
      P 0 a ∨ ∃ i x, as[i]? = some x ∧ P (i + 1) x := by
  rw [← Nat.or_exists_add_one]
  simp

variable {document : Nat} {way : List Step} {o : Occurrence}

theorem liesBelow_object {members : List (String × Json)} :
    o.LiesBelow document way (.object members) ↔
      ∃ i m, members[i]? = some m ∧
        (o = ⟨document, way, i, m.1, m.2⟩ ∨ o.LiesBelow document (way ++ [.member i m.1]) m.2) := by
  constructor
  · rintro ⟨hdocument, below, inner, hway, hleads, hmember⟩
    cases hleads with
    | here =>
        rw [List.append_nil] at hway
        exact ⟨_, _, hmember, .inl (by rw [← hdocument, ← hway])⟩
    | member hstep hrest =>
        exact ⟨_, _, hstep, .inr ⟨hdocument, _, inner, by rw [hway]; simp, hrest, hmember⟩⟩
  · rintro ⟨i, ⟨key, v⟩, hstep, rfl | ⟨hdocument, below, inner, hway, hleads, hmember⟩⟩
    · exact ⟨rfl, [], members, (List.append_nil _).symm, .here _, hstep⟩
    · exact ⟨hdocument, _, inner, by rw [hway]; simp, .member hstep hleads, hmember⟩

theorem liesBelow_array {items : List Json} :
    o.LiesBelow document way (.array items) ↔
      ∃ i v, items[i]? = some v ∧ o.LiesBelow document (way ++ [.item i]) v := by
  constructor
  · rintro ⟨hdocument, below, inner, hway, hleads, hmember⟩
    cases hleads with
    | item hstep hrest =>
        exact ⟨_, _, hstep, hdocument, _, inner, by rw [hway]; simp, hrest, hmember⟩
  · rintro ⟨i, v, hstep, hdocument, below, inner, hway, hleads, hmember⟩
    exact ⟨hdocument, _, inner, by rw [hway]; simp, .item hstep hleads, hmember⟩

/-- Nothing lies below a value that is neither an object nor an array. -/
theorem not_liesBelow {v : Json} (hobject : ∀ members, v ≠ .object members)
    (harray : ∀ items, v ≠ .array items) : ¬o.LiesBelow document way v := by
  rintro ⟨-, below, members, -, hleads, -⟩
  cases hleads with
  | here => exact hobject members rfl
  | member => exact hobject _ rfl
  | item => exact harray _ rfl

theorem length_le_of_liesBelow {v : Json} (h : o.LiesBelow document way v) :
    way.length ≤ o.way.length := by
  obtain ⟨-, below, -, hway, -⟩ := h
  rw [hway, List.length_append]
  exact Nat.le_add_right _ _

theorem not_liesBelow_self {s : Step} {v : Json} : ¬o.LiesBelow document (o.way ++ [s]) v := by
  intro h
  have hlength := length_le_of_liesBelow h
  rw [List.length_append, List.length_singleton] at hlength
  omega

/-- A member below the value of a step is not below the value of another. -/
theorem step_eq_of_liesBelow {s t : Step} {v w : Json}
    (hs : o.LiesBelow document (way ++ [s]) v) (ht : o.LiesBelow document (way ++ [t]) w) :
    s = t := by
  obtain ⟨-, below, -, hs, -⟩ := hs
  obtain ⟨-, below', -, ht, -⟩ := ht
  rw [hs, List.append_assoc, List.append_assoc, List.append_cancel_left_eq] at ht
  exact (List.cons.inj ht).1

mutual

/-- The members that are listed for a value are those below it. -/
theorem mem_occurrencesIn_iff (document : Nat) (way : List Step) (v : Json) (o : Occurrence) :
    o ∈ occurrencesIn document way v ↔ o.LiesBelow document way v := by
  cases v with
  | object members =>
      rw [occurrencesIn, mem_occurrencesInMembers_iff, liesBelow_object]
      simp only [Nat.zero_add]
  | array items =>
      rw [occurrencesIn, mem_occurrencesInItems_iff, liesBelow_array]
      simp only [Nat.zero_add]
  | null => exact iff_of_false List.not_mem_nil (not_liesBelow nofun nofun)
  | bool b => exact iff_of_false List.not_mem_nil (not_liesBelow nofun nofun)
  | number n => exact iff_of_false List.not_mem_nil (not_liesBelow nofun nofun)
  | string s => exact iff_of_false List.not_mem_nil (not_liesBelow nofun nofun)

theorem mem_occurrencesInMembers_iff (document : Nat) (way : List Step) (index : Nat)
    (members : List (String × Json)) (o : Occurrence) :
    o ∈ occurrencesInMembers document way index members ↔
      ∃ i m, members[i]? = some m ∧
        (o = ⟨document, way, index + i, m.1, m.2⟩ ∨
          o.LiesBelow document (way ++ [.member (index + i) m.1]) m.2) := by
  cases members with
  | nil => simp [occurrencesInMembers]
  | cons first rest =>
      obtain ⟨key, value⟩ := first
      rw [occurrencesInMembers, List.mem_cons, List.mem_append, mem_occurrencesIn_iff,
        mem_occurrencesInMembers_iff, exists_getElem?_cons, ← or_assoc]
      simp only [Nat.add_zero, Nat.add_assoc, Nat.add_comm 1]

theorem mem_occurrencesInItems_iff (document : Nat) (way : List Step) (index : Nat)
    (items : List Json) (o : Occurrence) :
    o ∈ occurrencesInItems document way index items ↔
      ∃ i v, items[i]? = some v ∧ o.LiesBelow document (way ++ [.item (index + i)]) v := by
  cases items with
  | nil => simp [occurrencesInItems]
  | cons first rest =>
      rw [occurrencesInItems, List.mem_append, mem_occurrencesIn_iff, mem_occurrencesInItems_iff,
        exists_getElem?_cons]
      simp only [Nat.add_zero, Nat.add_assoc, Nat.add_comm 1]

end

mutual

/-- No member is listed twice for a value. -/
theorem nodup_occurrencesIn (document : Nat) (way : List Step) (v : Json) :
    (occurrencesIn document way v).Nodup := by
  cases v with
  | object members => exact nodup_occurrencesInMembers document way 0 members
  | array items => exact nodup_occurrencesInItems document way 0 items
  | null => exact List.nodup_nil
  | bool b => exact List.nodup_nil
  | number n => exact List.nodup_nil
  | string s => exact List.nodup_nil

theorem nodup_occurrencesInMembers (document : Nat) (way : List Step) (index : Nat)
    (members : List (String × Json)) :
    (occurrencesInMembers document way index members).Nodup := by
  cases members with
  | nil => exact List.nodup_nil
  | cons first rest =>
      obtain ⟨key, value⟩ := first
      rw [occurrencesInMembers, List.nodup_cons, List.mem_append, mem_occurrencesIn_iff,
        mem_occurrencesInMembers_iff]
      refine ⟨?_, (nodup_occurrencesIn _ _ _).append (nodup_occurrencesInMembers _ _ _ _) ?_⟩
      · -- A member is not below its own value, nor is it one that comes later.
        rintro (hbelow | ⟨i, _, -, heq | hbelow⟩)
        · exact not_liesBelow_self hbelow
        · have := congrArg Occurrence.index heq
          simp only at this
          omega
        · exact not_liesBelow_self hbelow
      · -- What is in the first member is on a way that no later member is on.
        intro o hfirst hrest
        rw [mem_occurrencesIn_iff] at hfirst
        obtain ⟨i, _, -, rfl | hbelow⟩ := (mem_occurrencesInMembers_iff ..).mp hrest
        · exact not_liesBelow_self hfirst
        · have := (Step.member.inj (step_eq_of_liesBelow hfirst hbelow)).1
          omega

theorem nodup_occurrencesInItems (document : Nat) (way : List Step) (index : Nat)
    (items : List Json) : (occurrencesInItems document way index items).Nodup := by
  cases items with
  | nil => exact List.nodup_nil
  | cons first rest =>
      rw [occurrencesInItems]
      refine (nodup_occurrencesIn _ _ _).append (nodup_occurrencesInItems _ _ _ _) ?_
      intro o hfirst hrest
      rw [mem_occurrencesIn_iff] at hfirst
      obtain ⟨i, _, -, hbelow⟩ := (mem_occurrencesInItems_iff ..).mp hrest
      have := Step.item.inj (step_eq_of_liesBelow hfirst hbelow)
      omega

end

end Members

section Documents

theorem mem_occurrencesFrom_iff {first : Nat} {documents : List Json} {o : Occurrence} :
    o ∈ occurrencesFrom first documents ↔
      ∃ i doc, documents[i]? = some doc ∧ o.LiesBelow (first + i) [] doc := by
  induction documents generalizing first with
  | nil => simp [occurrencesFrom]
  | cons doc rest ih =>
      rw [occurrencesFrom, List.mem_append, mem_occurrencesIn_iff, ih, exists_getElem?_cons]
      simp only [Nat.add_zero, Nat.add_assoc, Nat.add_comm 1]

/-- The members that are listed for some documents are theirs. -/
theorem mem_occurrences_iff {documents : List Json} {o : Occurrence} :
    o ∈ occurrencesFrom 0 documents ↔ o.LiesIn documents := by
  rw [mem_occurrencesFrom_iff]
  constructor
  · rintro ⟨i, doc, hdoc, hbelow⟩
    rw [Nat.zero_add] at hbelow
    have hdocument := hbelow.1
    subst hdocument
    exact ⟨doc, hdoc, hbelow⟩
  · rintro ⟨doc, hdoc, hbelow⟩
    exact ⟨_, doc, hdoc, by rwa [Nat.zero_add]⟩

theorem nodup_occurrencesFrom (first : Nat) (documents : List Json) :
    (occurrencesFrom first documents).Nodup := by
  induction documents generalizing first with
  | nil => exact List.nodup_nil
  | cons doc rest ih =>
      refine (nodup_occurrencesIn _ _ _).append (ih _) ?_
      intro o hfirst hrest
      rw [mem_occurrencesIn_iff] at hfirst
      obtain ⟨i, _, -, hbelow⟩ := mem_occurrencesFrom_iff.mp hrest
      have := hfirst.1.symm.trans hbelow.1
      omega

end Documents

section Hits

/-- The hits of those of some members that are not too deep. -/
def shallowHits (os : List Occurrence) : List Hit :=
  (os.filter Occurrence.isShallow).flatMap Occurrence.hits

@[simp]
theorem shallowHits_append (os ps : List Occurrence) :
    shallowHits (os ++ ps) = shallowHits os ++ shallowHits ps := by
  simp [shallowHits]

theorem shallowHits_cons {o : Occurrence} (h : o.way.length ≤ maxDepth) (os : List Occurrence) :
    shallowHits (o :: os) = o.hits ++ shallowHits os := by
  have hshallow : o.isShallow = true := decide_eq_true h
  rw [shallowHits, List.filter_cons_of_pos hshallow, List.flatMap_cons, shallowHits]

theorem shallowHits_eq_nil {os : List Occurrence} (h : ∀ o ∈ os, maxDepth < o.way.length) :
    shallowHits os = [] := by
  have hnone : os.filter Occurrence.isShallow = [] := by
    rw [List.filter_eq_nil_iff]
    intro o ho
    simpa [Occurrence.isShallow] using h o ho
  rw [shallowHits, hnone, List.flatMap_nil]

theorem map_name_append (way : List Step) (s : Step) :
    (way ++ [s]).map Step.name = way.map Step.name ++ [s.name] := by
  simp

theorem isCorsWay_append (way : List Step) (s : Step) :
    isCorsWay (way ++ [s]) = (isCorsWay way || s.key?.any mentionsCors) := by
  simp [isCorsWay]

mutual

/-- Looking for hits in a value at the end of a way goes through its members. -/
theorem hitsIn_eq (document : Nat) (way : List Step) (v : Json) :
    hitsIn (way.map Step.name) (isCorsWay way) way.length v =
      shallowHits (occurrencesIn document way v) := by
  by_cases hdepth : way.length > maxDepth
  · -- Looking stops here, and all members below are at least as deep.
    rw [shallowHits_eq_nil fun o ho =>
      Nat.lt_of_lt_of_le hdepth (length_le_of_liesBelow ((mem_occurrencesIn_iff ..).mp ho))]
    cases v <;> simp [hitsIn, hdepth]
  · cases v with
    | object members =>
        rw [hitsIn, if_neg hdepth,
          hitsInMembers_eq document way 0 members (Nat.le_of_not_lt hdepth), occurrencesIn]
    | array items =>
        rw [hitsIn, if_neg hdepth, hitsInItems_eq document way 0 items, occurrencesIn]
    | null => rfl
    | bool b => rfl
    | number n => rfl
    | string s => rfl

theorem hitsInMembers_eq (document : Nat) (way : List Step) (index : Nat)
    (members : List (String × Json)) (hdepth : way.length ≤ maxDepth) :
    hitsInMembers (way.map Step.name) (isCorsWay way) way.length members =
      shallowHits (occurrencesInMembers document way index members) := by
  cases members with
  | nil => rfl
  | cons first rest =>
      obtain ⟨key, value⟩ := first
      have hbelow := hitsIn_eq document (way ++ [.member index key]) value
      rw [map_name_append, isCorsWay_append, List.length_append, List.length_singleton] at hbelow
      rw [hitsInMembers, hitsInMembers_eq document way (index + 1) rest hdepth,
        occurrencesInMembers, shallowHits_cons hdepth, shallowHits_append, ← hbelow,
        List.append_assoc]
      rfl

theorem hitsInItems_eq (document : Nat) (way : List Step) (index : Nat) (items : List Json) :
    hitsInItems (way.map Step.name) (isCorsWay way) way.length index items =
      shallowHits (occurrencesInItems document way index items) := by
  cases items with
  | nil => rfl
  | cons first rest =>
      have hbelow := hitsIn_eq document (way ++ [.item index]) first
      rw [map_name_append, isCorsWay_append, List.length_append, List.length_singleton] at hbelow
      rw [hitsInItems, hitsInItems_eq document way (index + 1) rest, occurrencesInItems,
        shallowHits_append, ← hbelow]
      simp [Step.key?, Step.name]

end

/-- Looking for hits in documents goes through their members. -/
theorem flatMap_hitsIn_eq (first : Nat) (documents : List Json) :
    documents.flatMap (hitsIn [] false 0) = shallowHits (occurrencesFrom first documents) := by
  induction documents generalizing first with
  | nil => rfl
  | cons doc rest ih =>
      rw [List.flatMap_cons, occurrencesFrom, shallowHits_append, ← ih]
      exact congrArg (· ++ _) (hitsIn_eq first [] doc)

end Hits

end WebAudit.Configuration
