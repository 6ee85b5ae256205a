import Mathlib.Data.List.MinMax
import Mathlib.Data.List.Nodup
import WebAudit.Detector.Endpoint
import WebAudit.Proofs.PackageSeverity
import WebAudit.Proofs.PathComponents
import WebAudit.Proofs.TextCuts

/-!
The segment that decides about a route. A segment bears a word of the table when
it spells it in any case, up to its end or up to a dash or an underscore. As no
word of the table holds such a mark, the part of a segment before its first mark
tells the word, so a segment bears at most one, wherever the word stands in the
table. A route is sensitive exactly when one of its segments bears a word; the
most severe one counts and, among equally severe ones, the first.
-/

namespace WebAudit

section FirstGreatest

variable {α β : Type*} [LinearOrder β] {f : α → β} {xs : List α} {x : α}

/-- The first of the greatest elements of a list: those before it are smaller,
and those after it are not greater. -/
theorem argmax_eq_some_iff_append : xs.argmax f = some x ↔
    ∃ before after, xs = before ++ x :: after ∧ (∀ y ∈ before, f y < f x) ∧
      ∀ y ∈ after, f y ≤ f x := by
  classical
  rw [List.argmax_eq_some_iff]
  constructor
  · rintro ⟨hmember, hgreatest, hfirst⟩
    obtain ⟨before, after, rfl, hfresh⟩ := List.eq_append_cons_of_mem hmember
    refine ⟨before, after, rfl, fun y hy => ?_, fun y hy => hgreatest y (by simp [hy])⟩
    by_contra hle
    have hindex := hfirst y (by simp [hy]) (not_lt.mp hle)
    rw [List.idxOf_append_of_notMem hfresh, List.idxOf_append_of_mem hy] at hindex
    have hless := List.idxOf_lt_length_of_mem hy
    omega
  · rintro ⟨before, after, rfl, hbefore, hafter⟩
    have hfresh : x ∉ before := fun hx => lt_irrefl _ (hbefore x hx)
    refine ⟨by simp, fun y hy => ?_, fun y hy hle => ?_⟩
    · rcases List.mem_append.mp hy with hy | hy
      · exact (hbefore y hy).le
      · rcases List.mem_cons.mp hy with rfl | hy
        · exact le_rfl
        · exact hafter y hy
    · have hlater : y ∉ before := fun hy => absurd hle (not_le.mpr (hbefore y hy))
      rw [List.idxOf_append_of_notMem hfresh, List.idxOf_append_of_notMem hlater,
        List.idxOf_cons_self]
      omega

end FirstGreatest

namespace Endpoint

open Text

def marks : List Char := ['-', '_']

/-- A segment spells a word: it starts with the word in any case, and then it
ends or goes on with a mark. -/
def Spells (segment : List Char) (word : String) : Prop :=
  ∃ front rest, segment = front ++ rest ∧ eqIgnoreCase front word.toList ∧
    ∀ c ∈ rest.head?, c ∈ marks

/-- A word of the table, with its severity, that a segment spells. -/
def Bears (segment : List Char) (word : String × Severity) : Prop :=
  word ∈ keywords ∧ Spells segment word.1

/-- The segments of a route: parts without a slash that give the route when
slashes are put between them. -/
structure IsCut (route : String) (segments : List (List Char)) : Prop where
  nonempty : segments ≠ []
  whole : ∀ segment ∈ segments, '/' ∉ segment
  joined : ['/'].intercalate segments = route.toList

/-- The word of a segment decides about a route: no segment bears a more severe
one, and none before it one that is equally severe. -/
structure Decides (before : List (List Char)) (segment : List Char) (after : List (List Char))
    (word : String × Severity) : Prop where
  borne : Bears segment word
  greatest : ∀ s ∈ before ++ segment :: after, ∀ w, Bears s w → w.2 ≤ word.2
  first : ∀ s ∈ before, ∀ w, Bears s w → w.2 ≠ word.2

theorem isCut_iff {route : String} {segments : List (List Char)} :
    IsCut route segments ↔ splitOn '/' route.toList = segments := by
  rw [Text.splitOn_eq_iff]
  constructor
  · rintro ⟨hnonempty, hwhole, hjoined⟩
    exact ⟨hnonempty, hwhole, hjoined⟩
  · rintro ⟨hnonempty, hwhole, hjoined⟩
    exact ⟨hnonempty, hwhole, hjoined⟩

section Words

variable {segment : List Char} {word : String × Severity}

theorem lowerAscii_word (hword : word ∈ keywords) :
    lowerAscii word.1.toList = word.1.toList := by
  have hall : ∀ word ∈ keywords, lowerAscii word.1.toList = word.1.toList := by decide
  exact hall word hword

theorem eqIgnoreCase_word_iff {front : List Char} (hword : word ∈ keywords) :
    eqIgnoreCase front word.1.toList = true ↔ lowerAscii front = word.1.toList := by
  rw [eqIgnoreCase, lowerAscii_word hword, beq_iff_eq]

theorem not_mem_marks_of_mem_word (hword : word ∈ keywords) :
    ∀ c ∈ word.1.toList, c ∉ marks := by
  have hall : (keywords.all fun word => word.1.toList.all fun c => !marks.contains c) = true := by
    decide
  simpa using List.all_eq_true.mp hall word hword

theorem toLower_of_mem_marks {c : Char} (hc : c ∈ marks) : c.toLower = c := by
  have hall : (marks.all fun c => c.toLower == c) = true := by decide
  exact beq_iff_eq.mp (List.all_eq_true.mp hall c hc)

theorem eq_of_toLower_mem_marks {c : Char} (hc : c.toLower ∈ marks) : c.toLower = c := by
  have hall : (marks.all fun c => c.toNat < 97) = true := by decide
  rcases toLower_cases c with hsame | ⟨hlow, -⟩
  · exact hsame
  · have hless := of_decide_eq_true (List.all_eq_true.mp hall _ hc)
    omega

/-- A word of the table is found in a segment exactly when the segment spells it. -/
theorem matchesKeyword_iff (hword : word ∈ keywords) :
    matchesKeyword segment word.1 = true ↔ Spells segment word.1 := by
  have hmatches : matchesKeyword segment word.1 = true ↔
      ∃ rest, lowerAscii segment = word.1.toList ++ rest ∧ ∀ c ∈ rest.head?, c ∈ marks := by
    simp only [← after?_eq_some_iff]
    unfold matchesKeyword
    split <;> simp_all [marks]
  rw [hmatches]
  -- The check lowers the whole segment, which neither makes a mark nor changes one.
  constructor
  · rintro ⟨lowered, hlower, hmark⟩
    obtain ⟨front, rest, rfl, hfront, rfl⟩ := List.map_eq_append_iff.mp hlower
    refine ⟨front, rest, rfl, (eqIgnoreCase_word_iff hword).mpr hfront, ?_⟩
    intro c hc
    have hlowered : c.toLower ∈ marks := by
      apply hmark
      rw [List.head?_map]
      exact Option.mem_map_of_mem _ hc
    rwa [← eq_of_toLower_mem_marks hlowered]
  · rintro ⟨front, rest, rfl, hfront, hmark⟩
    rw [eqIgnoreCase_word_iff hword] at hfront
    refine ⟨lowerAscii rest, ?_, ?_⟩
    · rw [← hfront]
      exact List.map_append
    · intro c hc
      rw [lowerAscii, List.head?_map] at hc
      obtain ⟨d, hd, rfl⟩ := Option.mem_map.mp hc
      rw [toLower_of_mem_marks (hmark d hd)]
      exact hmark d hd

/-- The word of a segment is read off what stands before its first mark. -/
theorem Bears.stem (hbears : Bears segment word) :
    lowerAscii (segment.takeWhile fun c => !marks.contains c) = word.1.toList := by
  obtain ⟨hword, front, rest, rfl, hfront, hmark⟩ := hbears
  rw [eqIgnoreCase_word_iff hword] at hfront
  -- A capital letter is no mark, so the written front has none where the word has none.
  have hclear : ∀ c ∈ front, (!marks.contains c) = true := by
    intro c hc
    rw [Bool.not_eq_true', ← Bool.not_eq_true, List.contains_iff_mem]
    intro hmember
    refine not_mem_marks_of_mem_word hword c ?_ hmember
    rw [← hfront, ← toLower_of_mem_marks hmember]
    exact List.mem_map_of_mem hc
  have hrest : rest.takeWhile (fun c => !marks.contains c) = [] := by
    cases rest with
    | nil => rfl
    | cons c tail => exact List.takeWhile_cons_of_neg (by simpa using hmark c rfl)
  rw [List.takeWhile_append_of_pos hclear, hrest, List.append_nil, hfront]

theorem Bears.unique {word' : String × Severity} (hword : Bears segment word)
    (hword' : Bears segment word') : word = word' := by
  have hnodup : (keywords.map Prod.fst).Nodup := by decide
  refine List.inj_on_of_nodup_map hnodup hword.1 hword'.1 ?_
  exact String.toList_inj.mp (hword.stem.symm.trans hword'.stem)

/-- The place of a word in the table does not matter to its segments. -/
theorem keywordOf?_eq_some_iff : keywordOf? segment = some word ↔ Bears segment word := by
  have hsound : ∀ {word}, keywordOf? segment = some word → Bears segment word := by
    intro word hfound
    rw [keywordOf?] at hfound
    have hmember := List.mem_of_find?_eq_some hfound
    have hmatches := List.find?_some hfound
    exact ⟨hmember, (matchesKeyword_iff hmember).mp hmatches⟩
  refine ⟨hsound, fun hbears => ?_⟩
  have hsome : (keywordOf? segment).isSome := by
    rw [keywordOf?, List.find?_isSome]
    exact ⟨word, hbears.1, (matchesKeyword_iff hbears.1).mpr hbears.2⟩
  obtain ⟨word', hfound⟩ := Option.isSome_iff_exists.mp hsome
  rw [hfound, hbears.unique (hsound hfound)]

end Words

section Segments

theorem foldl_moreSevere (words : List (String × Severity)) :
    words.foldl moreSevere none = words.argmax Prod.snd := by
  have hstep : moreSevere = List.argAux fun next best => best.2 < next.2 := by
    funext best next
    cases best with
    | none => rfl
    | some b => simp [moreSevere, List.argAux, compare_lt_iff_lt]
  rw [hstep]
  rfl

variable {segments before after : List (List Char)} {segment : List Char}
  {word w : String × Severity}

theorem mem_filterMap_keywordOf?_iff :
    w ∈ segments.filterMap keywordOf? ↔ ∃ s ∈ segments, Bears s w := by
  simp only [List.mem_filterMap, keywordOf?_eq_some_iff]

/-- A word decides when those before it are less severe and those after it are
not more severe: its own segment bears no other. -/
theorem decides_iff : Decides before segment after word ↔ Bears segment word ∧
    (∀ w ∈ before.filterMap keywordOf?, w.2 < word.2) ∧
      ∀ w ∈ after.filterMap keywordOf?, w.2 ≤ word.2 := by
  simp only [mem_filterMap_keywordOf?_iff]
  constructor
  · rintro ⟨hborne, hgreatest, hfirst⟩
    refine ⟨hborne, ?_, ?_⟩
    · rintro w ⟨s, hs, hw⟩
      exact lt_of_le_of_ne (hgreatest s (by simp [hs]) w hw) (hfirst s hs w hw)
    · rintro w ⟨s, hs, hw⟩
      exact hgreatest s (by simp [hs]) w hw
  · rintro ⟨hborne, hbefore, hafter⟩
    refine ⟨hborne, fun s hs w hw => ?_, fun s hs w hw => (hbefore w ⟨s, hs, hw⟩).ne⟩
    rcases List.mem_append.mp hs with hs | hs
    · exact (hbefore w ⟨s, hs, hw⟩).le
    · rcases List.mem_cons.mp hs with rfl | hs
      · rw [hw.unique hborne]
      · exact hafter w ⟨s, hs, hw⟩

/-- The word that a scan of segments ends with is the one that decides. -/
theorem foldl_filterMap_eq_some_iff :
    (segments.filterMap keywordOf?).foldl moreSevere none = some word ↔
      ∃ before segment after, segments = before ++ segment :: after ∧
        Decides before segment after word := by
  rw [foldl_moreSevere, argmax_eq_some_iff_append]
  simp only [decides_iff]
  constructor
  · rintro ⟨words, words', hwords, hbefore, hafter⟩
    obtain ⟨before, rest, rfl, rfl, hrest⟩ := List.filterMap_eq_append_iff.mp hwords
    -- Segments that bear no word may stand between the words before and the deciding one.
    obtain ⟨skipped, segment, after, rfl, hskipped, hsegment, rfl⟩ :=
      List.filterMap_eq_cons_iff.mp hrest
    refine ⟨before ++ skipped, segment, after, by simp, keywordOf?_eq_some_iff.mp hsegment, ?_,
      hafter⟩
    rwa [List.filterMap_append, List.filterMap_eq_nil_iff.mpr hskipped, List.append_nil]
  · rintro ⟨before, segment, after, rfl, hborne, hbefore, hafter⟩
    refine ⟨_, _, ?_, hbefore, hafter⟩
    rw [List.filterMap_append, List.filterMap_cons_some (keywordOf?_eq_some_iff.mpr hborne)]

theorem sensitiveRoute?_eq_some_iff {route : String} {hit : SensitiveRoute} :
    sensitiveRoute? route = some hit ↔ hit.route = route ∧
      ∃ before segment after, IsCut route (before ++ segment :: after) ∧
        Decides before segment after (hit.keyword, hit.severity) := by
  obtain ⟨keyword, severity, text⟩ := hit
  simp only [isCut_iff, ← foldl_filterMap_eq_some_iff]
  rw [sensitiveRoute?, Option.map_eq_some_iff]
  constructor
  · rintro ⟨word, hword, hhit⟩
    cases hhit
    exact ⟨rfl, hword⟩
  · rintro ⟨rfl, hword⟩
    exact ⟨(keyword, severity), hword, rfl⟩

theorem sensitiveRoute?_eq_none_iff {route : String} :
    sensitiveRoute? route = none ↔
      ∀ segments, IsCut route segments → ∀ segment ∈ segments, ∀ word, ¬Bears segment word := by
  simp only [isCut_iff, forall_eq']
  rw [sensitiveRoute?, Option.map_eq_none_iff, foldl_moreSevere, List.argmax_eq_none,
    List.filterMap_eq_nil_iff]
  simp only [← keywordOf?_eq_some_iff, Option.eq_none_iff_forall_not_mem, Option.mem_def]

end Segments

/-- A route is cut at its slashes in one way, and it is sensitive exactly when one
of its segments bears a word. What is said of it then names the route itself and
the word that decides: a most severe one, and the first of these. A segment bears
at most one word. -/
theorem first_most_severe_segment_decides (route : String) :
    (∃! segments, IsCut route segments) ∧
    ((∃ hit, sensitiveRoute? route = some hit) ↔
      ∃ segments, IsCut route segments ∧ ∃ segment ∈ segments, ∃ word, Bears segment word) ∧
    (∀ hit, sensitiveRoute? route = some hit ↔ hit.route = route ∧
      ∃ before segment after, IsCut route (before ++ segment :: after) ∧
        Decides before segment after (hit.keyword, hit.severity)) ∧
    ∀ segment word word', Bears segment word → Bears segment word' → word = word' := by
  refine ⟨?_, ?_, fun hit => sensitiveRoute?_eq_some_iff, fun _ _ _ => Bears.unique⟩
  · exact ⟨_, isCut_iff.mpr rfl, fun segments hcut => (isCut_iff.mp hcut).symm⟩
  · rw [← Option.ne_none_iff_exists', Ne, sensitiveRoute?_eq_none_iff]
    simp only [not_forall, not_not, exists_prop]

example : sensitiveRoute? "/Health_check/administrator/DEBUG/admin-panel" =
    some ⟨"debug", .medium, "/Health_check/administrator/DEBUG/admin-panel"⟩ := by
  decide +kernel

end Endpoint

end WebAudit
