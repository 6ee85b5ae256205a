import WebAudit.Detector.Configuration
import WebAudit.Proofs.TextCuts

/-!
Lines of hits. A hit is placed at a line with its key whenever there is one. A line
that another hit of its kind has taken is left for a later one, so the search goes
on only to later lines and comes to an end. It ends at a taken line only if no
later line has the key.
-/

namespace WebAudit.Configuration

open Text

variable {lines : List (List Char)} {hit : Hit} {start n : Nat}

section Search

variable {test : List Char → Bool} {key value : List Char}

def HasKey (lines : List (List Char)) (key : List Char) (n : Nat) : Prop :=
  ∃ line, lines[n - 1]? = some line ∧ key <:+: line

/-- Whether no line after the first `start` has a text in it. -/
def NoneAfter (lines : List (List Char)) (key : List Char) (start : Nat) : Prop :=
  ∀ line ∈ lines.drop start, ¬key <:+: line

theorem of_lineFrom? (h : lineFrom? test lines start = some n) :
    start < n ∧ n ≤ lines.length ∧ ∃ line, lines[n - 1]? = some line ∧ test line = true := by
  obtain ⟨i, hfound, rfl⟩ := Option.map_eq_some_iff.mp h
  obtain ⟨hi, htest, -⟩ := List.findIdx?_eq_some_iff_getElem.mp hfound
  rw [List.length_drop] at hi
  refine ⟨by omega, by omega, lines[start + i], ?_, by simpa using htest⟩
  rw [Nat.add_sub_cancel]
  exact List.getElem?_eq_getElem (by omega)

theorem lineFrom?_eq_none_iff :
    lineFrom? test lines start = none ↔ ∀ line ∈ lines.drop start, test line = false := by
  rw [lineFrom?, Option.map_eq_none_iff, List.findIdx?_eq_none_iff]

theorem isInfix_of_holdsBoth {line : List Char} (h : holdsBoth key value line = true) :
    key <:+: line := by
  unfold holdsBoth at h
  split at h
  · rename_i before rest hsplit
    exact ⟨before, rest, (eq_of_splitAt? hsplit).symm⟩
  · cases h

/-- A line that is found for a name has it. -/
theorem of_keyLine? (h : keyLine? lines start key value = some n) :
    start < n ∧ n ≤ lines.length ∧ HasKey lines key n := by
  rcases Option.or_eq_some_iff.mp h with hboth | ⟨-, hkey⟩
  · obtain ⟨hstart, hend, line, hline, htest⟩ := of_lineFrom? hboth
    exact ⟨hstart, hend, line, hline, isInfix_of_holdsBoth htest⟩
  · obtain ⟨hstart, hend, line, hline, htest⟩ := of_lineFrom? hkey
    exact ⟨hstart, hend, line, hline, occursIn_iff.mp htest⟩

/-- No line is found for a name only if none has it. -/
theorem noneAfter_of_keyLine? (h : keyLine? lines start key value = none) :
    NoneAfter lines key start := by
  intro line hline hkey
  have hnone := lineFrom?_eq_none_iff.mp (Option.or_eq_none_iff.mp h).2 line hline
  rw [occursIn_iff.mpr hkey] at hnone
  cases hnone

/-- Looking for enclosing members never goes back. -/
theorem le_startBelow (lines : List (List Char)) (start : Nat) (parents : List String) :
    start ≤ startBelow lines start parents := by
  induction parents generalizing start with
  | nil => exact Nat.le_refl start
  | cons parent rest ih =>
      rw [startBelow]
      split
      · rename_i line hline
        have hstart := (of_lineFrom? hline).1
        exact Nat.le_trans (by omega) (ih (line - 1))
      · exact ih start

/-- A hit is found at a later line with its key. -/
theorem of_locate? (h : locate? lines hit start = some n) :
    start < n ∧ n ≤ lines.length ∧ HasKey lines hit.key.toList n := by
  rcases Option.or_eq_some_iff.mp h with hbelow | ⟨-, hanywhere⟩
  · obtain ⟨hstart, hrest⟩ := of_keyLine? hbelow
    exact ⟨Nat.lt_of_le_of_lt (le_startBelow lines start _) hstart, hrest⟩
  · exact of_keyLine? hanywhere

/-- A hit is not found exactly when no later line has its key. -/
theorem locate?_eq_none_iff :
    locate? lines hit start = none ↔ NoneAfter lines hit.key.toList start := by
  constructor
  · exact fun h => noneAfter_of_keyLine? (Option.or_eq_none_iff.mp h).2
  · intro hnone
    rw [Option.eq_none_iff_forall_ne_some]
    intro n h
    obtain ⟨hstart, -, line, hline, hkey⟩ := of_locate? h
    refine hnone line (List.mem_of_getElem? (i := n - 1 - start) ?_) hkey
    rw [List.getElem?_drop, Nat.add_sub_cancel' (by omega), hline]

end Search

section Loop

variable {taken : List (Nat × String)}

/-- The lines that the search for a hit ends at when it is at some line. It goes on
from a line that is taken to a later one. -/
inductive Settles (lines : List (List Char)) (taken : List (Nat × String)) (hit : Hit) :
    Nat → Nat → Prop where
  | free {line : Nat} (hfree : (line, hit.kind) ∉ taken) : Settles lines taken hit line line
  | last {line : Nat} (htaken : (line, hit.kind) ∈ taken)
      (hlast : ∀ next, locate? lines hit line = some next → next ≤ line) :
      Settles lines taken hit line line
  | later {line next last : Nat} (htaken : (line, hit.kind) ∈ taken)
      (hnext : locate? lines hit line = some next) (hlater : line < next)
      (hrest : Settles lines taken hit next last) : Settles lines taken hit line last

/-- The search ends, and its bound is never met: each round goes to a later line. -/
theorem settles_freeLine (fuel line : Nat) (hfuel : lines.length < line + fuel) :
    Settles lines taken hit line (freeLine lines taken hit fuel line) := by
  induction fuel generalizing line with
  | zero =>
      -- The line is behind the last one already, so there is none to go on to.
      by_cases htaken : (line, hit.kind) ∈ taken
      · refine .last htaken fun next hnext => ?_
        have hend := (of_locate? hnext).2.1
        omega
      · exact .free htaken
  | succ fuel ih =>
      simp only [freeLine, List.contains_iff_mem]
      split
      · rename_i htaken
        split
        · rename_i next hnext
          have hlater := (of_locate? hnext).1
          rw [if_pos hlater]
          exact .later htaken hnext hlater (ih next (by omega))
        · rename_i hnone
          exact .last htaken (by simp [hnone])
      · rename_i hfree
        exact .free hfree

/-- Every line that the search comes to has the key. -/
theorem Settles.hasKey {line last : Nat} (h : Settles lines taken hit line last)
    (hline : 0 < line ∧ line ≤ lines.length ∧ HasKey lines hit.key.toList line) :
    0 < last ∧ last ≤ lines.length ∧ HasKey lines hit.key.toList last := by
  induction h with
  | free => exact hline
  | last => exact hline
  | later _ hnext _ _ ih =>
      obtain ⟨hlater, hrest⟩ := of_locate? hnext
      exact ih ⟨by omega, hrest⟩

/-- The search ends at a line that is taken only if no later line has the key. -/
theorem Settles.noneAfter {line last : Nat} (h : Settles lines taken hit line last)
    (htaken : (last, hit.kind) ∈ taken) : NoneAfter lines hit.key.toList last := by
  induction h with
  | free hfree => exact absurd htaken hfree
  | later _ _ _ _ ih => exact ih htaken
  | last _ hlast =>
      rw [← locate?_eq_none_iff, Option.eq_none_iff_forall_ne_some]
      intro next hnext
      have hlater := (of_locate? hnext).1
      have hend := hlast next hnext
      omega

/-- A hit has no line if it is found nowhere, and otherwise the line that the search
ends at. -/
theorem lineOf?_cases (lines : List (List Char)) (taken : List (Nat × String)) (hit : Hit) :
    locate? lines hit 0 = none ∧ lineOf? lines taken hit = none ∨
      ∃ first last, locate? lines hit 0 = some first ∧ Settles lines taken hit first last ∧
        lineOf? lines taken hit = some last := by
  cases hfirst : locate? lines hit 0 with
  | none => exact .inl ⟨rfl, by rw [lineOf?, hfirst, Option.map_none]⟩
  | some first =>
      refine .inr ⟨first, _, rfl, settles_freeLine (lines.length + 1) first (by omega), ?_⟩
      rw [lineOf?, hfirst, Option.map_some]

theorem lineOf?_eq_none_iff :
    lineOf? lines taken hit = none ↔ NoneAfter lines hit.key.toList 0 := by
  rw [lineOf?, Option.map_eq_none_iff, locate?_eq_none_iff]

theorem of_lineOf? (h : lineOf? lines taken hit = some n) :
    (0 < n ∧ n ≤ lines.length ∧ HasKey lines hit.key.toList n) ∧
      ((n, hit.kind) ∈ taken → NoneAfter lines hit.key.toList n) := by
  rcases lineOf?_cases lines taken hit with ⟨-, hnone⟩ | ⟨first, last, hfirst, hsettles, hlast⟩
  · rw [hnone] at h
    cases h
  · obtain rfl := Option.some.inj (hlast.symm.trans h)
    exact ⟨hsettles.hasKey (of_locate? hfirst), hsettles.noneAfter⟩

end Loop

section Placed

variable {taken : List (Nat × String)} {seen : List (Option Nat × String × String)}
  {hits : List Hit}

/-- Hits are placed while the lines so far stay taken. -/
theorem exists_taken_of_mem_placed {line : Option Nat}
    (h : (hit, line) ∈ placed lines taken seen hits) :
    ∃ more, taken ⊆ more ∧ line = lineOf? lines more hit := by
  induction hits generalizing taken seen with
  | nil => cases h
  | cons first rest ih =>
      rw [placed] at h
      split at h
      · exact ih h
      · rcases List.mem_cons.mp h with heq | hrest
        · obtain ⟨rfl, rfl⟩ := Prod.mk.inj heq
          exact ⟨taken, List.Subset.refl taken, rfl⟩
        · obtain ⟨more, hmore, hline⟩ := ih hrest
          exact ⟨more, fun _ ht => hmore (List.mem_append_right _ ht), hline⟩

/-- A line is shared with an earlier hit of the kind only if no later line has the
key. -/
theorem pairwise_placed (lines : List (List Char)) (taken : List (Nat × String))
    (seen : List (Option Nat × String × String)) (hits : List Hit) :
    (placed lines taken seen hits).Pairwise fun earlier later =>
      earlier.1.kind = later.1.kind → ∀ n, earlier.2 = some n → later.2 = some n →
        NoneAfter lines later.1.key.toList n := by
  induction hits generalizing taken seen with
  | nil => exact .nil
  | cons first rest ih =>
      rw [placed]
      split
      · exact ih taken seen
      · refine List.pairwise_cons.mpr ⟨?_, ih _ _⟩
        rintro ⟨hit, line⟩ hmem hkind n hearlier hlater
        -- The line of the first hit is still taken when the later one is placed.
        obtain ⟨more, hmore, rfl⟩ := exists_taken_of_mem_placed hmem
        have htaken : (n, hit.kind) ∈ (lineOf? lines taken first).toList.map
            fun m => (m, first.kind) := by
          simp_all
        exact (of_lineOf? hlater).2 (hmore (List.mem_append_left _ htaken))

/-- The search for the line of a hit ends, whichever lines are taken. A finding has
no line exactly when no line has the key of its hit; otherwise it has the number of
a line with the key. Two findings of a kind share a line only if no later line has
the key of the second. -/
theorem key_lines_found (path : Path) (content : String) (hits : List Hit) :
    let lines := Text.lines content.toList
    let places := placed lines [] [] hits
    (∀ taken hit,
      locate? lines hit 0 = none ∧ lineOf? lines taken hit = none ∨
        ∃ first last, locate? lines hit 0 = some first ∧ Settles lines taken hit first last ∧
          lineOf? lines taken hit = some last) ∧
    (∀ hit line, (hit, line) ∈ places →
      (report path hit line).location = .file path line ∧
      (line = none ↔ ∀ text ∈ lines, ¬hit.key.toList <:+: text) ∧
      ∀ n, line = some n → 1 ≤ n ∧ n ≤ lines.length ∧
        ∃ text, lines[n - 1]? = some text ∧ hit.key.toList <:+: text) ∧
    places.Pairwise fun earlier later =>
      earlier.1.kind = later.1.kind → ∀ n, earlier.2 = some n → later.2 = some n →
        ∀ text ∈ lines.drop n, ¬later.1.key.toList <:+: text := by
  intro lines places
  refine ⟨lineOf?_cases lines, fun hit line hmem => ?_, pairwise_placed lines [] [] hits⟩
  obtain ⟨taken, -, rfl⟩ := exists_taken_of_mem_placed hmem
  exact ⟨rfl, lineOf?_eq_none_iff, fun n hline => (of_lineOf? hline).1⟩

end Placed

end WebAudit.Configuration
