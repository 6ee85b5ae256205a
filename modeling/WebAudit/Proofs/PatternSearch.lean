import Mathlib.Data.List.Basic
import WebAudit.Proofs.SensitiveRoutes

/-!
Where a pattern occurs in a text. An occurrence starts at a place behind some
lead, and the pattern reaches its end from there. The search goes from left to
right and leaves out what overlaps, so a place from which the pattern gets to an
end is the start of an occurrence or lies within an earlier one. What a pattern
reaches is said constructor by constructor, with the text cut into what has been
read and what is left. A pattern may shun a character: it gets nowhere from a
place before one, so none of its occurrences starts with it.
-/

namespace WebAudit.Text

def Spot.behind (lead rest : List Char) : Spot := ⟨lead.getLast?, rest, lead.length, []⟩

/-- The place after some characters have been read from a place on. -/
def Spot.past (s : Spot) (read rest : List Char) : Spot :=
  ⟨read.getLast?.or s.previous, rest, s.index + read.length, s.groups⟩

theorem Spot.past_nil {s : Spot} {rest : List Char} (hrest : s.rest = rest) : s.past [] rest = s := by
  subst hrest
  rfl

theorem Spot.past_past (s : Spot) (a b rest rest' : List Char) :
    (s.past a rest).past b rest' = s.past (a ++ b) rest' := by
  simp only [past, List.getLast?_append, List.length_append, Nat.add_assoc, Option.or_assoc]

namespace Pattern

variable {p q : Pattern} {s e : Spot} {m : Match} {test : Char → Bool}

section Ends

theorem mem_ends_seq : e ∈ (p ++ q).ends s ↔ ∃ middle ∈ p.ends s, e ∈ q.ends middle :=
  List.mem_flatMap

theorem ends_assoc (p q r : Pattern) : (p ++ q ++ r).ends s = (p ++ (q ++ r)).ends s :=
  List.flatMap_assoc

theorem mem_ends_alt : e ∈ (Pattern.alt p q).ends s ↔ e ∈ p.ends s ∨ e ∈ q.ends s :=
  List.mem_append

theorem mem_ends_boundary :
    e ∈ Pattern.boundary.ends s ↔ e = s ∧ isWordAt s.previous ≠ isWordAt s.rest.head? := by
  unfold ends
  split
  · rename_i hedge
    rw [List.mem_singleton]
    exact ⟨fun h => ⟨h, bne_iff_ne.mp hedge⟩, And.left⟩
  · rename_i hedge
    simp only [List.not_mem_nil, false_iff, not_and]
    exact fun _ hne => hedge (bne_iff_ne.mpr hne)

theorem mem_ends_one :
    e ∈ (Pattern.one test).ends s ↔ ∃ c rest, s.rest = c :: rest ∧ test c ∧ e = s.past [c] rest := by
  unfold ends
  split
  · rename_i c cs hrest
    split
    · rename_i hc
      rw [List.mem_singleton, hrest]
      constructor
      · rintro rfl
        exact ⟨c, cs, rfl, hc, rfl⟩
      · rintro ⟨d, rest, hcs, -, rfl⟩
        obtain ⟨rfl, rfl⟩ := List.cons.inj hcs
        rfl
    · rename_i hc
      simp only [List.not_mem_nil, false_iff]
      rintro ⟨d, rest, hcs, hd, -⟩
      rw [hrest] at hcs
      obtain ⟨rfl, -⟩ := List.cons.inj hcs
      exact hc hd
  · rename_i hrest
    simp [hrest]

theorem mem_ends_textFrom {word : List Char} :
    e ∈ (textFrom (fun a b => a == b) word).ends s ↔
      ∃ rest, s.rest = word ++ rest ∧ e = s.past word rest := by
  induction word generalizing s with
  | nil =>
      rw [textFrom, ends, List.mem_singleton]
      constructor
      · rintro rfl
        exact ⟨e.rest, rfl, rfl⟩
      · rintro ⟨rest, hrest, rfl⟩
        exact Spot.past_nil hrest
  | cons c word ih =>
      cases word with
      | nil =>
          rw [textFrom, mem_ends_one]
          constructor
          · rintro ⟨d, rest, hrest, hd, rfl⟩
            obtain rfl := beq_iff_eq.mp hd
            exact ⟨rest, hrest, rfl⟩
          · rintro ⟨rest, hrest, rfl⟩
            exact ⟨c, rest, hrest, beq_self_eq_true c, rfl⟩
      | cons d word =>
          have hseq : e ∈ (textFrom (fun a b => a == b) (c :: d :: word)).ends s ↔
              ∃ middle ∈ (Pattern.one (fun b => c == b)).ends s,
                e ∈ (textFrom (fun a b => a == b) (d :: word)).ends middle := List.mem_flatMap
          rw [hseq]
          constructor
          · rintro ⟨middle, hmiddle, he⟩
            obtain ⟨b, rest, hrest, hb, rfl⟩ := mem_ends_one.mp hmiddle
            obtain rfl := beq_iff_eq.mp hb
            obtain ⟨rest', hrest', rfl⟩ := ih.mp he
            obtain rfl : rest = d :: word ++ rest' := hrest'
            exact ⟨rest', hrest, Spot.past_past s _ _ _ _⟩
          · rintro ⟨rest, hrest, rfl⟩
            refine ⟨s.past [c] (d :: word ++ rest), ?_, ?_⟩
            · exact mem_ends_one.mpr ⟨c, _, hrest, beq_self_eq_true c, rfl⟩
            · exact ih.mpr ⟨rest, rfl, (Spot.past_past s [c] (d :: word) _ rest).symm⟩

theorem mem_ends_text {word : String} :
    e ∈ (text word).ends s ↔
      ∃ rest, s.rest = word.toList ++ rest ∧ e = s.past word.toList rest :=
  mem_ends_textFrom

theorem mem_drop_runFrom {n : Nat} :
    e ∈ (runFrom test s.groups (some n) s.previous s.index s.rest).drop n ↔
      ∃ read rest, s.rest = read ++ rest ∧ read.length = n ∧ (∀ c ∈ read, test c) ∧
        e = s.past read rest := by
  induction n generalizing s with
  | zero =>
      have hstop : runFrom test s.groups (some 0) s.previous s.index s.rest = [s] := by
        obtain ⟨previous, cs, i, groups⟩ := s
        cases cs <;> rfl
      rw [hstop, List.drop_zero, List.mem_singleton]
      constructor
      · rintro rfl
        exact ⟨[], e.rest, rfl, rfl, by simp, rfl⟩
      · rintro ⟨read, rest, hrest, hlength, -, rfl⟩
        obtain rfl := List.length_eq_zero_iff.mp hlength
        exact Spot.past_nil hrest
  | succ n ih =>
      obtain ⟨previous, cs, i, groups⟩ := s
      cases cs with
      | nil =>
          simp only [runFrom, List.drop_succ_cons, List.drop_nil, List.not_mem_nil, false_iff]
          rintro ⟨read, rest, hread, hlength, -⟩
          obtain ⟨rfl, -⟩ := List.append_eq_nil_iff.mp hread.symm
          cases hlength
      | cons c cs =>
          have hnext : e ∈ (runFrom test groups (some n) (some c) (i + 1) cs).drop n ↔ _ :=
            ih (s := Spot.past ⟨previous, c :: cs, i, groups⟩ [c] cs)
          rw [runFrom, List.drop_succ_cons]
          split
          · rename_i hc
            refine hnext.trans ?_
            constructor
            · rintro ⟨read, rest, hcs, hlength, hread, rfl⟩
              obtain rfl : cs = read ++ rest := hcs
              refine ⟨c :: read, rest, rfl, by simp [hlength], ?_, Spot.past_past _ [c] read _ rest⟩
              exact List.forall_mem_cons.mpr ⟨(Bool.and_eq_true_iff.mp hc).2, hread⟩
            · rintro ⟨_ | ⟨d, read⟩, rest, hcs, hlength, hread, rfl⟩
              · cases hlength
              · obtain ⟨rfl, rfl⟩ := List.cons.inj hcs
                refine ⟨read, rest, rfl, by simpa using hlength, ?_, ?_⟩
                · exact (List.forall_mem_cons.mp hread).2
                · exact (Spot.past_past _ [c] read _ rest).symm
          · rename_i hc
            rw [List.drop_nil]
            simp only [List.not_mem_nil, false_iff]
            rintro ⟨_ | ⟨d, read⟩, rest, hcs, hlength, hread, -⟩
            · cases hlength
            · obtain ⟨rfl, -⟩ := List.cons.inj hcs
              exact hc (by simp [hread c List.mem_cons_self])

/-- A run of a fixed number of characters ends right behind them. -/
theorem mem_ends_exactly {n : Nat} :
    e ∈ (Pattern.run n (some n) true test).ends s ↔
      ∃ read rest, s.rest = read ++ rest ∧ read.length = n ∧ (∀ c ∈ read, test c) ∧
        e = s.past read rest :=
  List.mem_reverse.trans mem_drop_runFrom

end Ends

section Search

theorem mem_ends_of_matchAt? (hm : p.matchAt? s = some m) :
    ∃ e ∈ p.ends s, m = ⟨s.index, e.index, s.rest.take (e.index - s.index), e.groups⟩ := by
  obtain ⟨e, he, rfl⟩ := Option.map_eq_some_iff.mp hm
  exact ⟨e, List.mem_of_mem_head? he, rfl⟩

/-- An occurrence is what the pattern prefers behind some lead. -/
theorem exists_lead_of_mem_matchesFrom {resume i : Nat} {previous : Option Char} {cs : List Char}
    (hm : m ∈ p.matchesFrom resume previous i cs) :
    ∃ lead rest, cs = lead ++ rest ∧
      p.matchAt? ⟨lead.getLast?.or previous, rest, i + lead.length, []⟩ = some m := by
  induction cs generalizing resume previous i with
  | nil =>
      unfold matchesFrom at hm
      split at hm
      · cases hm
      · exact ⟨[], [], rfl, Option.mem_toList.mp hm⟩
  | cons c cs ih =>
      have hlater : ∀ resume, m ∈ p.matchesFrom resume (some c) (i + 1) cs →
          ∃ lead rest, c :: cs = lead ++ rest ∧
            p.matchAt? ⟨lead.getLast?.or previous, rest, i + lead.length, []⟩ = some m := by
        intro resume hm
        obtain ⟨lead, rest, rfl, hmatch⟩ := ih hm
        refine ⟨c :: lead, rest, rfl, ?_⟩
        rw [← List.singleton_append, List.getLast?_append, Option.or_assoc, List.length_append,
          ← Nat.add_assoc]
        exact hmatch
      unfold matchesFrom at hm
      split at hm
      · exact hlater resume hm
      · split at hm
        · rename_i first hfirst
          rcases List.mem_cons.mp hm with rfl | hm
          · exact ⟨[], c :: cs, rfl, hfirst⟩
          · exact hlater _ hm
        · exact hlater resume hm

theorem exists_lead_of_mem_matchesIn {cs : List Char} (hm : m ∈ p.matchesIn cs) :
    ∃ lead rest, cs = lead ++ rest ∧ p.matchAt? (.behind lead rest) = some m := by
  obtain ⟨lead, rest, hcs, hmatch⟩ := exists_lead_of_mem_matchesFrom hm
  rw [Option.or_none, Nat.zero_add] at hmatch
  exact ⟨lead, rest, hcs, hmatch⟩

theorem text_of_mem_matchesIn {cs : List Char} (hm : m ∈ p.matchesIn cs) :
    m.text = (cs.drop m.start).take (m.stop - m.start) := by
  obtain ⟨lead, rest, rfl, hmatch⟩ := exists_lead_of_mem_matchesIn hm
  obtain ⟨e, -, rfl⟩ := mem_ends_of_matchAt? hmatch
  simp [Spot.behind]

/-- A place from which the pattern gets to an end is passed over only within an
occurrence that starts before it. The search so far may reach beyond it. -/
theorem exists_mem_matchesFrom {resume i : Nat} {previous : Option Char} {lead rest : List Char}
    (hm : p.matchAt? ⟨lead.getLast?.or previous, rest, i + lead.length, []⟩ = some m) :
    i + lead.length < resume ∨ m ∈ p.matchesFrom resume previous i (lead ++ rest) ∨
      ∃ first ∈ p.matchesFrom resume previous i (lead ++ rest),
        first.start < i + lead.length ∧ i + lead.length < first.stop := by
  induction lead generalizing resume previous i with
  | nil =>
      by_cases hresume : i < resume
      · exact .inl hresume
      · have hm : p.matchAt? ⟨previous, rest, i, []⟩ = some m := hm
        cases rest with
        | nil => simp [matchesFrom, hresume, hm]
        | cons c cs => simp [matchesFrom, hresume, hm]
  | cons c lead ih =>
      rw [← List.singleton_append, List.getLast?_append, Option.or_assoc, List.length_append,
        List.length_singleton, ← Nat.add_assoc] at hm
      have hlength : i + (c :: lead).length = i + 1 + lead.length := by
        rw [List.length_cons]
        omega
      rw [hlength, List.cons_append, matchesFrom]
      split
      · exact ih hm
      · split
        · rename_i first hfirst
          have hstart : first.start = i := start_of_matchAt? hfirst
          have hlater : i + 1 + lead.length < max first.stop (i + 1) ∨ _ := ih hm
          rcases hlater with hwithin | hfound | ⟨n, hn, hover⟩
          · exact .inr (.inr ⟨first, List.mem_cons_self, by omega, by omega⟩)
          · exact .inr (.inl (List.mem_cons_of_mem _ hfound))
          · exact .inr (.inr ⟨n, List.mem_cons_of_mem _ hn, hover⟩)
        · exact ih hm

theorem exists_mem_matchesIn {lead rest : List Char}
    (hm : p.matchAt? (.behind lead rest) = some m) :
    m ∈ p.matchesIn (lead ++ rest) ∨
      ∃ first ∈ p.matchesIn (lead ++ rest),
        first.start < lead.length ∧ lead.length < first.stop := by
  have hm' : p.matchAt? ⟨lead.getLast?.or none, rest, 0 + lead.length, []⟩ = some m := by
    rw [Option.or_none, Nat.zero_add]
    exact hm
  have hfound : 0 + lead.length < 0 ∨ _ := exists_mem_matchesFrom hm'
  rw [Nat.zero_add] at hfound
  exact hfound.resolve_left (Nat.not_lt_zero _)

end Search

section Starts

/-- Whether a pattern reads nothing. -/
def isStill : Pattern → Bool
  | .one _ | .run .. => false
  | .seq p q | .alt p q => p.isStill && q.isStill
  | .group _ p => p.isStill
  | .empty | .boundary | .atStart | .atEnd => true

/-- Whether a pattern reaches nothing from a place before a character. -/
def shuns (c : Char) : Pattern → Bool
  | .one test => !test c
  | .run least _ _ test => 0 < least && !test c
  | .seq p q => p.shuns c || p.isStill && q.shuns c
  | .alt p q => p.shuns c && q.shuns c
  | .group _ p => p.shuns c
  | .empty | .boundary | .atStart | .atEnd => false

theorem rest_of_isStill (hstill : p.isStill) (he : e ∈ p.ends s) : e.rest = s.rest := by
  induction p generalizing s e with
  | one | run => cases hstill
  | empty => rw [List.mem_singleton.mp he]
  | seq p q ihp ihq =>
      obtain ⟨hp, hq⟩ := Bool.and_eq_true_iff.mp hstill
      obtain ⟨middle, hmiddle, he⟩ := List.mem_flatMap.mp he
      rw [ihq hq he, ihp hp hmiddle]
  | alt p q ihp ihq =>
      obtain ⟨hp, hq⟩ := Bool.and_eq_true_iff.mp hstill
      rcases List.mem_append.mp he with he | he
      · exact ihp hp he
      · exact ihq hq he
  | group index p ih =>
      obtain ⟨inner, hinner, rfl⟩ := List.mem_map.mp he
      exact ih (e := inner) hstill hinner
  | boundary | atStart | atEnd =>
      unfold ends at he
      split at he
      · rw [List.mem_singleton.mp he]
      · cases he

theorem ends_eq_nil_of_shuns {c : Char} {cs : List Char} (hshuns : p.shuns c)
    (hrest : s.rest = c :: cs) : p.ends s = [] := by
  induction p generalizing s with
  | empty | boundary | atStart | atEnd => cases hshuns
  | one test =>
      have hc : test c = false := by simpa [shuns] using hshuns
      simp [ends, hrest, hc]
  | run least most greedy test =>
      obtain ⟨hleast, hc⟩ : 0 < least ∧ test c = false := by simpa [shuns] using hshuns
      have hdrop : (runFrom test s.groups most s.previous s.index s.rest).drop least = [] := by
        rw [hrest, runFrom, hc, Bool.and_false, List.drop_eq_nil_iff]
        exact hleast
      simp only [ends, hdrop, List.reverse_nil, ite_self]
  | seq p q ihp ihq =>
      rcases Bool.or_eq_true_iff.mp hshuns with hp | hpq
      · rw [ends, ihp hp hrest, List.flatMap_nil]
      · obtain ⟨hstill, hq⟩ := Bool.and_eq_true_iff.mp hpq
        rw [ends, List.flatMap_eq_nil_iff]
        intro middle hmiddle
        exact ihq hq ((rest_of_isStill hstill hmiddle).trans hrest)
  | alt p q ihp ihq =>
      obtain ⟨hp, hq⟩ := Bool.and_eq_true_iff.mp hshuns
      rw [ends, ihp hp hrest, ihq hq hrest, List.append_nil]
  | group index p ih => rw [ends, ih hshuns hrest, List.map_nil]

/-- An occurrence of a pattern that reads starts with a character that the
pattern does not shun. -/
theorem exists_first_of_mem_matchesIn {cs : List Char} (hreads : p.reads)
    (hm : m ∈ p.matchesIn cs) : ∃ c, cs[m.start]? = some c ∧ p.shuns c = false := by
  obtain ⟨lead, rest, rfl, hmatch⟩ := exists_lead_of_mem_matchesIn hm
  obtain ⟨e, he, rfl⟩ := mem_ends_of_matchAt? hmatch
  cases rest with
  | nil =>
      rw [ends_nil_of_reads hreads rfl] at he
      cases he
  | cons c rest =>
      refine ⟨c, by simp [Spot.behind], ?_⟩
      by_contra hshuns
      rw [ends_eq_nil_of_shuns (Bool.not_eq_false _ ▸ hshuns) rfl] at he
      cases he

end Starts

end Pattern

end WebAudit.Text
