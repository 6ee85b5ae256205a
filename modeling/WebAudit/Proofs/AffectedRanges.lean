import Mathlib.Data.List.Basic
import WebAudit.Advisory.Decoding

/-!
Affected ranges of advisories. The events of a range begin and end intervals of
versions by turns. A range is put in words once, with the last version that an
event introduces and the last version that an event ends with, as one that is no
longer affected. So the words of a range tell its intervals exactly when there is
one interval and its last version, if any, is not affected itself.
-/

namespace WebAudit.Advisory

inductive RangeEnd where
  | before (version : String)
  | through (version : String)
  deriving DecidableEq

def RangeEnd.version : RangeEnd → String
  | .before version => version
  | .through version => version

structure Interval where
  start : String
  stop : Option RangeEnd
  deriving DecidableEq

def Interval.text (kind : String) : Interval → String
  | ⟨start, none⟩ => s!"{kind}: >= {start}"
  | ⟨start, some (.before version)⟩ => s!"{kind}: >= {start}, < {version}"
  | ⟨start, some (.through version)⟩ => s!"{kind}: >= {start}, <= {version}"

structure IsStart (event : Json) (version : String) : Prop where
  introduced : textMember? "introduced" event = some version
  fixed : event.member? "fixed" = none
  lastAffected : event.member? "last_affected" = none

inductive IsStop (event : Json) : RangeEnd → Prop
  | fixed {version : String} (hversion : textMember? "fixed" event = some version)
      (hstart : event.member? "introduced" = none)
      (hother : event.member? "last_affected" = none) : IsStop event (.before version)
  | lastAffected {version : String} (hversion : textMember? "last_affected" event = some version)
      (hstart : event.member? "introduced" = none)
      (hother : event.member? "fixed" = none) : IsStop event (.through version)

/-- Events that begin and end intervals by turns. The last interval may be left
open. -/
inductive Alternates : List Json → List Interval → Prop
  | opened {event : Json} {start : String} (hstart : IsStart event start) :
      Alternates [event] [⟨start, none⟩]
  | closed {event event' : Json} {start : String} {stop : RangeEnd} (hstart : IsStart event start)
      (hstop : IsStop event' stop) : Alternates [event, event'] [⟨start, some stop⟩]
  | more {event event' : Json} {start : String} {stop : RangeEnd} {events : List Json}
      {intervals : List Interval} (hstart : IsStart event start) (hstop : IsStop event' stop)
      (hrest : Alternates events intervals) :
      Alternates (event :: event' :: events) (⟨start, some stop⟩ :: intervals)

def lastPresent {α β : Type} (f : α → Option β) (xs : List α) : Option β :=
  (xs.filterMap f).getLast?

/-- The version that the last interval with an end ends at. -/
def lastStop? (intervals : List Interval) : Option String :=
  lastPresent (fun i => i.stop.map RangeEnd.version) intervals

def kindOf (range : Json) : String := (textMember? "type" range).getD "UNSPECIFIED"

def rangesOf (v : Json) : List Json := (itemsOf "affected" v).flatMap (itemsOf "ranges")

section Events

variable {event : Json} {start : String} {stop : RangeEnd}

theorem IsStart.endVersion?_eq (hstart : IsStart event start) : endVersion? event = none := by
  rw [endVersion?, hstart.fixed, hstart.lastAffected]
  rfl

theorem IsStop.introduced_eq (hstop : IsStop event stop) :
    textMember? "introduced" event = none := by
  cases hstop with
  | fixed _ hstart _ => rw [textMember?, hstart, Option.bind_none]
  | lastAffected _ hstart _ => rw [textMember?, hstart, Option.bind_none]

theorem IsStop.endVersion?_eq (hstop : IsStop event stop) :
    endVersion? event = some stop.version := by
  cases hstop with
  | fixed hversion _ _ =>
      obtain ⟨value, hvalue, htext⟩ := Option.bind_eq_some_iff.mp hversion
      rw [endVersion?, hvalue]
      exact htext
  | lastAffected hversion _ hother =>
      rw [endVersion?, hother]
      exact hversion

end Events

section Ranges

variable {events : List Json} {intervals : List Interval} {range : Json}

/-- A value that each event may replace is at the end the last one that is
present, or the one it was at the start. -/
theorem foldl_or_eq {α β : Type} (f : α → Option β) (xs : List α) (start : Option β) :
    xs.foldl (fun value x => (f x).or value) start = (lastPresent f xs).or start := by
  induction xs generalizing start with
  | nil => rfl
  | cons x rest ih =>
      rw [List.foldl_cons, ih, lastPresent, lastPresent]
      cases hx : f x with
      | none => rw [List.filterMap_cons_none hx, Option.none_or]
      | some value =>
          rw [List.filterMap_cons_some hx, List.getLast?_cons]
          cases (rest.filterMap f).getLast? <;> rfl

theorem foldl_read (events : List Json) (bounds : Bounds) :
    events.foldl Bounds.read bounds =
      ⟨events.foldl (fun value event => (textMember? "introduced" event).or value)
          bounds.introduced,
        events.foldl (fun value event => (endVersion? event).or value) bounds.fixed⟩ := by
  induction events generalizing bounds with
  | nil => rfl
  | cons event rest ih => exact ih (bounds.read event)

/-- The bounds that are left are the last start and the last end. -/
theorem boundsOf_eq (events : List Json) :
    boundsOf events = ⟨lastPresent (textMember? "introduced") events,
      lastPresent endVersion? events⟩ := by
  rw [boundsOf, foldl_read, foldl_or_eq, foldl_or_eq, Option.or_none, Option.or_none]

theorem Alternates.introduced_eq (halternates : Alternates events intervals) :
    events.filterMap (textMember? "introduced") = intervals.map Interval.start := by
  induction halternates with
  | opened hstart => rw [List.filterMap_cons_some hstart.introduced]; rfl
  | closed hstart hstop =>
      rw [List.filterMap_cons_some hstart.introduced, List.filterMap_cons_none hstop.introduced_eq]
      rfl
  | more hstart hstop _ ih =>
      rw [List.filterMap_cons_some hstart.introduced, List.filterMap_cons_none hstop.introduced_eq,
        ih, List.map_cons]

theorem Alternates.endVersion?_eq (halternates : Alternates events intervals) :
    events.filterMap endVersion? = intervals.filterMap fun i => i.stop.map RangeEnd.version := by
  induction halternates with
  | opened hstart => rw [List.filterMap_cons_none hstart.endVersion?_eq]; rfl
  | closed hstart hstop =>
      rw [List.filterMap_cons_none hstart.endVersion?_eq,
        List.filterMap_cons_some hstop.endVersion?_eq]
      rfl
  | more hstart hstop _ ih =>
      rw [List.filterMap_cons_none hstart.endVersion?_eq,
        List.filterMap_cons_some hstop.endVersion?_eq, ih]
      rfl

theorem Alternates.ne_nil (halternates : Alternates events intervals) : intervals ≠ [] := by
  cases halternates <;> exact List.cons_ne_nil _ _

/-- A range is put in words as one interval, from the last start to the last
end. -/
theorem Alternates.describeRange?_eq
    (halternates : Alternates (itemsOf "events" range) intervals) :
    ∃ last, intervals.getLast? = some last ∧
      describeRange? range = some
        (Interval.text (kindOf range) ⟨last.start, (lastStop? intervals).map .before⟩) := by
  cases hlast : intervals.getLast? with
  | none => exact absurd (List.getLast?_eq_none_iff.mp hlast) halternates.ne_nil
  | some last =>
      have hstart : lastPresent (textMember? "introduced") (itemsOf "events" range) =
          some last.start := by
        rw [lastPresent, halternates.introduced_eq, List.getLast?_map, hlast, Option.map_some]
      have hstop : lastPresent endVersion? (itemsOf "events" range) = lastStop? intervals := by
        rw [lastPresent, halternates.endVersion?_eq]
        rfl
      refine ⟨last, rfl, ?_⟩
      unfold describeRange?
      dsimp only
      rw [boundsOf_eq, hstart, hstop]
      cases lastStop? intervals <;> rfl

theorem Interval.text_before_ne_through (kind start version : String) :
    Interval.text kind ⟨start, some (.before version)⟩ ≠
      Interval.text kind ⟨start, some (.through version)⟩ := by
  intro hsame
  have hlist : (toString ", < ").toList = (toString ", <= ").toList := by
    simpa [Interval.text] using congrArg String.toList hsame
  exact absurd hlist (by decide)

/-- The words of a range tell its intervals exactly when there is one, and it
does not end with an affected version. -/
theorem Alternates.tells_iff (halternates : Alternates (itemsOf "events" range) intervals) :
    (describeRange? range).toList = intervals.map (Interval.text (kindOf range)) ↔
      ∃ i, intervals = [i] ∧ ∀ version, i.stop ≠ some (.through version) := by
  obtain ⟨last, hlast, hdescribed⟩ := halternates.describeRange?_eq
  rw [hdescribed, Option.toList_some]
  constructor
  · intro hwords
    have hlength := congrArg List.length hwords
    rw [List.length_map] at hlength
    obtain ⟨i, rfl⟩ := List.length_eq_one_iff.mp hlength.symm
    obtain rfl : i = last := Option.some.inj hlast
    refine ⟨i, rfl, fun version hthrough => ?_⟩
    obtain ⟨start, stop⟩ := i
    subst hthrough
    exact Interval.text_before_ne_through _ start version (List.singleton_inj.mp hwords)
  · rintro ⟨i, rfl, hthrough⟩
    obtain rfl : i = last := Option.some.inj hlast
    obtain ⟨start, stop⟩ := i
    cases stop with
    | none => rfl
    | some stop =>
        cases stop with
        | before version => rfl
        | through version => exact absurd rfl (hthrough version)

end Ranges

section Records

variable {α β : Type} {xs : List α} {f g : α → List β}

theorem length_flatMap_le (hlength : ∀ x ∈ xs, (f x).length ≤ (g x).length) :
    (xs.flatMap f).length ≤ (xs.flatMap g).length := by
  induction xs with
  | nil => exact Nat.le_refl _
  | cons x rest ih =>
      rw [List.forall_mem_cons] at hlength
      rw [List.flatMap_cons, List.flatMap_cons, List.length_append, List.length_append]
      exact Nat.add_le_add hlength.1 (ih hlength.2)

/-- Pieces that are nowhere longer than others join to the same list only if they
are the same pieces. -/
theorem flatMap_eq_iff (hlength : ∀ x ∈ xs, (f x).length ≤ (g x).length) :
    xs.flatMap f = xs.flatMap g ↔ ∀ x ∈ xs, f x = g x := by
  induction xs with
  | nil => simp
  | cons x rest ih =>
      rw [List.forall_mem_cons] at hlength
      rw [List.flatMap_cons, List.flatMap_cons, List.forall_mem_cons, ← ih hlength.2]
      constructor
      · intro hsame
        have htotal := congrArg List.length hsame
        have hrest := length_flatMap_le hlength.2
        rw [List.length_append, List.length_append] at htotal
        exact List.append_inj hsame (Nat.le_antisymm hlength.1 (by omega))
      · rintro ⟨hfirst, hrest⟩
        rw [hfirst, hrest]

theorem ranges_eq {v : Json} {a : Advisory} (ha : ofJson? v = some a) :
    a.ranges = (rangesOf v).flatMap fun range => (describeRange? range).toList := by
  obtain ⟨id, -, rfl⟩ := Option.map_eq_some_iff.mp ha
  change affectedRanges v = _
  rw [rangesOf, List.flatMap_assoc, affectedRanges]
  refine List.flatMap_congr fun entry _ => ?_
  rw [List.filterMap_eq_flatMap_toList]

/-- What an advisory tells about affected versions. Each range adds at most one
text. If its events alternate, the text runs from the last start to the last end,
and it tells the intervals exactly when there is one that does not end with an
affected version. If the events of all ranges alternate, all intervals of the
advisory are told exactly when that holds of every range. -/
theorem ranges_told_by_last_events (v : Json) (a : Advisory) (ha : ofJson? v = some a) :
    (a.ranges = (rangesOf v).flatMap fun range => (describeRange? range).toList) ∧
    (∀ range ∈ rangesOf v, ∀ intervals, Alternates (itemsOf "events" range) intervals →
      (∃ last, intervals.getLast? = some last ∧
        describeRange? range = some
          (Interval.text (kindOf range) ⟨last.start, (lastStop? intervals).map .before⟩)) ∧
      ((describeRange? range).toList = intervals.map (Interval.text (kindOf range)) ↔
        ∃ i, intervals = [i] ∧ ∀ version, i.stop ≠ some (.through version))) ∧
    ∀ intervals : Json → List Interval,
      (∀ range ∈ rangesOf v, Alternates (itemsOf "events" range) (intervals range)) →
      (a.ranges = ((rangesOf v).flatMap fun range =>
          (intervals range).map (Interval.text (kindOf range))) ↔
        ∀ range ∈ rangesOf v,
          ∃ i, intervals range = [i] ∧ ∀ version, i.stop ≠ some (.through version)) := by
  refine ⟨ranges_eq ha, ?_, ?_⟩
  · intro range _ intervals halternates
    exact ⟨halternates.describeRange?_eq, halternates.tells_iff⟩
  · intro intervals halternates
    have hlength : ∀ range ∈ rangesOf v, (describeRange? range).toList.length ≤
        ((intervals range).map (Interval.text (kindOf range))).length := by
      intro range hrange
      have hpositive := List.length_pos_iff.mpr (halternates range hrange).ne_nil
      rw [List.length_map]
      exact Nat.le_trans Option.length_toList_le hpositive
    rw [ranges_eq ha, flatMap_eq_iff hlength]
    exact forall₂_congr fun range hrange => (halternates range hrange).tells_iff

/-- Every range with alternating events has its intervals told in order. -/
def TellsAll (v : Json) (a : Advisory) : Prop :=
  ∀ range ∈ rangesOf v, ∀ intervals, Alternates (itemsOf "events" range) intervals →
    (intervals.map (Interval.text (kindOf range))).Sublist a.ranges

def withEvents (events : List (String × String)) : Json :=
  .object [("id", .string "GHSA-35jh-r3h4-6jhm"),
    ("affected", .array [.object [("ranges", .array [.object
      [("type", .string "SEMVER"),
        ("events", .array (events.map fun (name, version) =>
          .object [(name, .string version)]))]])]])]

/-- A range with two intervals, of which only the second one is told. -/
theorem earlier_interval_not_told :
    ∃ a, ofJson? (withEvents [("introduced", "0"), ("fixed", "1.2.3"), ("introduced", "2.0.0"),
      ("fixed", "2.0.5")]) = some a ∧ ¬TellsAll (withEvents [("introduced", "0"),
        ("fixed", "1.2.3"), ("introduced", "2.0.0"), ("fixed", "2.0.5")]) a := by
  refine ⟨{ bare "GHSA-35jh-r3h4-6jhm" with ranges := ["SEMVER: >= 2.0.0, < 2.0.5"] },
    by decide +kernel, ?_⟩
  intro htells
  have hwords := htells _ List.mem_cons_self
    [⟨"0", some (.before "1.2.3")⟩, ⟨"2.0.0", some (.before "2.0.5")⟩]
    (.more ⟨rfl, rfl, rfl⟩ (.fixed rfl rfl rfl) (.closed ⟨rfl, rfl, rfl⟩ (.fixed rfl rfl rfl)))
  exact absurd hwords.length_le (by decide)

theorem single_interval_told :
    ∃ a, ofJson? (withEvents [("introduced", "0"), ("fixed", "4.17.12")]) = some a ∧
      a.ranges = ["SEMVER: >= 0, < 4.17.12"] := by
  have ha : ofJson? (withEvents [("introduced", "0"), ("fixed", "4.17.12")]) =
      some { bare "GHSA-35jh-r3h4-6jhm" with ranges := ["SEMVER: >= 0, < 4.17.12"] } := by
    decide +kernel
  refine ⟨_, ha, ?_⟩
  have htold := ((ranges_told_by_last_events _ _ ha).2.2
    (fun _ => [⟨"0", some (.before "4.17.12")⟩]) ?_).mpr ?_
  · exact htold
  · intro range hrange
    obtain rfl := List.mem_singleton.mp hrange
    exact .closed ⟨rfl, rfl, rfl⟩ (.fixed rfl rfl rfl)
  · intro range _
    exact ⟨_, rfl, by simp⟩

end Records

end WebAudit.Advisory
