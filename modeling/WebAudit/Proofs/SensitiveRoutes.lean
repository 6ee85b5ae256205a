import Mathlib.Data.List.Basic
import WebAudit.Detector.Endpoint
import WebAudit.Proofs.FirstOfEach
import WebAudit.Proofs.TextCuts

/-!
Sensitive routes of a script, line by line. A script shows routes in calls that
register them and in texts that look like paths. The check makes one finding for
a line: for the route that is registered first on it or, where none is
registered, for the first text. So the most severe route of each line is found
exactly when no line shows a route of medium severity behind a first one of low
severity.
-/

namespace WebAudit

namespace Text

namespace Pattern

/-- Whether every occurrence of a pattern reads a character. -/
def reads : Pattern → Bool
  | .one _ => true
  | .run least _ _ _ => 0 < least
  | .seq p q => p.reads || q.reads
  | .alt p q => p.reads && q.reads
  | .group _ p => p.reads
  | .empty | .boundary | .atStart | .atEnd => false

variable {p : Pattern} {s e : Spot} {m : Match}

theorem rest_suffix_of_mem_runFrom {test : Char → Bool} {groups : List (Nat × List Char)}
    {most : Option Nat} {previous : Option Char} {i : Nat} {cs : List Char}
    (he : e ∈ runFrom test groups most previous i cs) : e.rest <:+ cs := by
  induction cs generalizing most previous i with
  | nil =>
      rw [runFrom, List.mem_singleton] at he
      subst he
      exact List.suffix_refl _
  | cons c cs ih =>
      rw [runFrom] at he
      rcases List.mem_cons.mp he with rfl | hlater
      · exact List.suffix_refl _
      · split at hlater
        · exact (ih hlater).trans (List.suffix_cons c cs)
        · cases hlater

theorem rest_suffix_of_mem_ends (he : e ∈ p.ends s) : e.rest <:+ s.rest := by
  induction p generalizing s e with
  | empty =>
      rw [ends, List.mem_singleton] at he
      subst he
      exact List.suffix_refl _
  | one test =>
      unfold ends at he
      split at he
      · rename_i c cs hrest
        split at he
        · rw [List.mem_singleton.mp he, hrest]
          exact List.suffix_cons c cs
        · cases he
      · cases he
  | run least most greedy test =>
      have hrun : e ∈ runFrom test s.groups most s.previous s.index s.rest := by
        apply List.mem_of_mem_drop (i := least)
        simp only [ends] at he
        split at he
        · exact List.mem_reverse.mp he
        · exact he
      exact rest_suffix_of_mem_runFrom hrun
  | seq p q ihp ihq =>
      obtain ⟨middle, hmiddle, he⟩ := List.mem_flatMap.mp he
      exact (ihq he).trans (ihp hmiddle)
  | alt p q ihp ihq =>
      rcases List.mem_append.mp he with he | he
      · exact ihp he
      · exact ihq he
  | group index p ih =>
      obtain ⟨inner, hinner, rfl⟩ := List.mem_map.mp he
      exact ih (e := inner) hinner
  | boundary | atStart | atEnd =>
      unfold ends at he
      split at he
      · obtain rfl := List.mem_singleton.mp he
        exact List.suffix_refl _
      · cases he

theorem ends_nil_of_reads (hreads : p.reads) (hrest : s.rest = []) : p.ends s = [] := by
  induction p generalizing s with
  | one test => simp only [ends, hrest]
  | run least most greedy test =>
      have hdrop : (runFrom test s.groups most s.previous s.index s.rest).drop least = [] := by
        rw [hrest, runFrom, List.drop_eq_nil_iff]
        have hleast : 0 < least := of_decide_eq_true hreads
        exact hleast
      simp only [ends, hdrop, List.reverse_nil, ite_self]
  | seq p q ihp ihq =>
      rcases Bool.or_eq_true_iff.mp hreads with hp | hq
      · rw [ends, ihp hp hrest, List.flatMap_nil]
      · rw [ends, List.flatMap_eq_nil_iff]
        intro middle hmiddle
        have hsuffix := rest_suffix_of_mem_ends hmiddle
        rw [hrest, List.suffix_nil] at hsuffix
        exact ihq hq hsuffix
  | alt p q ihp ihq =>
      obtain ⟨hp, hq⟩ := Bool.and_eq_true_iff.mp hreads
      rw [ends, ihp hp hrest, ihq hq hrest, List.append_nil]
  | group index p ih => rw [ends, ih hreads hrest, List.map_nil]
  | empty | boundary | atStart | atEnd => cases hreads

theorem start_of_matchAt? (hm : p.matchAt? s = some m) : m.start = s.index := by
  obtain ⟨e, -, rfl⟩ := Option.map_eq_some_iff.mp hm
  rfl

theorem le_start_of_mem_matchesFrom {resume : Nat} {previous : Option Char} {i : Nat}
    {cs : List Char} (hm : m ∈ p.matchesFrom resume previous i cs) : i ≤ m.start := by
  induction cs generalizing resume previous i with
  | nil =>
      unfold matchesFrom at hm
      split at hm
      · cases hm
      · exact Nat.le_of_eq (start_of_matchAt? (Option.mem_toList.mp hm)).symm
  | cons c cs ih =>
      unfold matchesFrom at hm
      split at hm
      · exact Nat.le_of_succ_le (ih hm)
      · split at hm
        · rename_i first hfirst
          rcases List.mem_cons.mp hm with rfl | hlater
          · exact Nat.le_of_eq (start_of_matchAt? hfirst).symm
          · exact Nat.le_of_succ_le (ih hlater)
        · exact Nat.le_of_succ_le (ih hm)

theorem matchesFrom_pairwise (resume : Nat) (previous : Option Char) (i : Nat) (cs : List Char) :
    (p.matchesFrom resume previous i cs).Pairwise fun m n => m.start < n.start := by
  induction cs generalizing resume previous i with
  | nil =>
      unfold matchesFrom
      split
      · exact List.Pairwise.nil
      · cases p.matchAt? ⟨previous, [], i, []⟩ with
        | none => exact List.Pairwise.nil
        | some m => exact List.pairwise_singleton _ m
  | cons c cs ih =>
      unfold matchesFrom
      split
      · exact ih _ _ _
      · split
        · rename_i first hfirst
          refine List.pairwise_cons.mpr ⟨?_, ih _ _ _⟩
          intro n hn
          have hstart := start_of_matchAt? hfirst
          have hle := le_start_of_mem_matchesFrom hn
          simp only at hstart
          omega
        · exact ih _ _ _

/-- A pattern that reads a character starts before the end of the text. -/
theorem start_lt_of_mem_matchesFrom (hreads : p.reads) {resume : Nat} {previous : Option Char}
    {i : Nat} {cs : List Char} (hm : m ∈ p.matchesFrom resume previous i cs) :
    m.start < i + cs.length := by
  induction cs generalizing resume previous i with
  | nil =>
      unfold matchesFrom at hm
      split at hm
      · cases hm
      · simp [matchAt?, ends_nil_of_reads hreads] at hm
  | cons c cs ih =>
      rw [List.length_cons]
      unfold matchesFrom at hm
      split at hm
      · have hless := ih hm
        omega
      · split at hm
        · rename_i first hfirst
          rcases List.mem_cons.mp hm with rfl | hlater
          · have hstart := start_of_matchAt? hfirst
            simp only at hstart
            omega
          · have hless := ih hlater
            omega
        · have hless := ih hm
          omega

end Pattern

end Text

namespace Endpoint

open Text

/-- A sensitive route of a script: whether a call registers it or a text only
spells it, the place where the occurrence starts, and the line of this place. -/
structure Sighting where
  registered : Bool
  start : Nat
  line : Nat
  hit : SensitiveRoute
  deriving DecidableEq

/-- Registered routes come before texts, and the earlier of two of a kind before
the later. -/
def Sighting.Before (a b : Sighting) : Prop :=
  a.registered = true ∧ b.registered = false ∨ a.registered = b.registered ∧ a.start < b.start

theorem Sighting.Before.asymm {a b : Sighting} (hab : a.Before b) : ¬b.Before a := by
  unfold Before at *
  cases ha : a.registered <;> cases hb : b.registered <;> simp_all <;> omega

def patternOf (registered : Bool) : Pattern := if registered then routePattern else pathPattern

section Script

variable (ctx : FileContext)

/-- An occurrence of a pattern in a script shows a route: it starts on a line
that is not passed over, and the path that it captures is sensitive. -/
structure Shows (s : Sighting) : Prop where
  captures : ∃ m ∈ (patternOf s.registered).matchesIn ctx.content.toList, m.start = s.start ∧
    ∃ path, m.group? 1 = some path ∧ sensitiveRoute? (String.ofList path) = some s.hit
  starts : lineAfter (ctx.content.toList.take s.start) = s.line
  counts : ∃ text, ctx.lines[s.line - 1]? = some text ∧ isSkipped text = false

/-- A route that comes before all others of its line. -/
def IsFirst (s : Sighting) : Prop :=
  Shows ctx s ∧ ∀ t, Shows ctx t → t.line = s.line → t = s ∨ s.Before t

def sightingOf? (registered : Bool) (m : Match) : Option Sighting :=
  let line := lineAfter (ctx.content.toList.take m.start)
  if isSkipped (ctx.lines[line - 1]?.getD []) then none
  else
    ((m.group? 1).bind fun path => sensitiveRoute? (String.ofList path)).map
      fun hit => ⟨registered, m.start, line, hit⟩

def sightings : List Sighting :=
  [true, false].flatMap fun registered =>
    ((patternOf registered).matchesIn ctx.content.toList).filterMap (sightingOf? ctx registered)

theorem patternOf_reads (registered : Bool) : (patternOf registered).reads = true := by
  cases registered <;> rfl

variable {ctx} {registered : Bool} {m : Match} {s t : Sighting}

theorem exists_line (hm : m ∈ (patternOf registered).matchesIn ctx.content.toList) :
    ∃ text, ctx.lines[lineAfter (ctx.content.toList.take m.start) - 1]? = some text := by
  have hstart := Pattern.start_lt_of_mem_matchesFrom (patternOf_reads registered) hm
  exact exists_line_from [] (by simpa using hstart)

theorem sightingOf?_eq_some_iff
    (hm : m ∈ (patternOf registered).matchesIn ctx.content.toList) :
    sightingOf? ctx registered m = some s ↔
      s.registered = registered ∧ m.start = s.start ∧
        (∃ path, m.group? 1 = some path ∧ sensitiveRoute? (String.ofList path) = some s.hit) ∧
        lineAfter (ctx.content.toList.take s.start) = s.line ∧
        ∃ text, ctx.lines[s.line - 1]? = some text ∧ isSkipped text = false := by
  obtain ⟨text, htext⟩ := exists_line hm
  obtain ⟨registered', start, line, hit⟩ := s
  constructor
  · intro hsighting
    unfold sightingOf? at hsighting
    simp only [htext, Option.getD_some] at hsighting
    split at hsighting
    · cases hsighting
    · rename_i hcounts
      obtain ⟨hit, hbind, hsame⟩ := Option.map_eq_some_iff.mp hsighting
      obtain ⟨path, hpath, hsensitive⟩ := Option.bind_eq_some_iff.mp hbind
      cases hsame
      exact ⟨rfl, rfl, ⟨path, hpath, hsensitive⟩, rfl, text, htext, by simpa using hcounts⟩
  · dsimp only
    rintro ⟨rfl, rfl, ⟨path, hpath, hsensitive⟩, rfl, text', htext', hcounts⟩
    simp [sightingOf?, htext', hcounts, hpath, hsensitive]

theorem mem_sightings_iff : s ∈ sightings ctx ↔ Shows ctx s := by
  have hmember : s ∈ sightings ctx ↔ ∃ registered,
      ∃ m ∈ (patternOf registered).matchesIn ctx.content.toList,
        sightingOf? ctx registered m = some s := by
    simp [sightings, or_comm]
  rw [hmember]
  constructor
  · rintro ⟨registered, m, hm, hsighting⟩
    obtain ⟨rfl, hstart, hcaptures, hstarts, hcounts⟩ := (sightingOf?_eq_some_iff hm).mp hsighting
    exact ⟨⟨m, hm, hstart, hcaptures⟩, hstarts, hcounts⟩
  · rintro ⟨⟨m, hm, hstart, hcaptures⟩, hstarts, hcounts⟩
    exact ⟨s.registered, m, hm,
      (sightingOf?_eq_some_iff hm).mpr ⟨rfl, hstart, hcaptures, hstarts, hcounts⟩⟩

theorem of_sightingOf? (hsighting : sightingOf? ctx registered m = some s) :
    s.registered = registered ∧ s.start = m.start := by
  unfold sightingOf? at hsighting
  dsimp only at hsighting
  split at hsighting
  · cases hsighting
  · obtain ⟨hit, -, rfl⟩ := Option.map_eq_some_iff.mp hsighting
    exact ⟨rfl, rfl⟩

theorem sightings_pairwise : (sightings ctx).Pairwise Sighting.Before := by
  have hkind : ∀ registered, (((patternOf registered).matchesIn ctx.content.toList).filterMap
      (sightingOf? ctx registered)).Pairwise Sighting.Before := by
    intro registered
    rw [List.pairwise_filterMap]
    refine (Pattern.matchesFrom_pairwise 0 none 0 _).imp ?_
    intro m n hless a ha b hb
    obtain ⟨hregistered, hstart⟩ := of_sightingOf? ha
    obtain ⟨hregistered', hstart'⟩ := of_sightingOf? hb
    exact .inr ⟨by rw [hregistered, hregistered'], by omega⟩
  simp only [sightings, List.flatMap_cons, List.flatMap_nil, List.append_nil]
  apply List.pairwise_append.mpr
  refine ⟨hkind true, hkind false, ?_⟩
  intro a ha b hb
  obtain ⟨m, -, ha⟩ := List.mem_filterMap.mp ha
  obtain ⟨n, -, hb⟩ := List.mem_filterMap.mp hb
  exact .inl ⟨(of_sightingOf? ha).1, (of_sightingOf? hb).1⟩

/-- What stays when each line keeps one route is what comes first on its line. -/
theorem mem_firsts_iff : s ∈ firstOfEach Sighting.line (sightings ctx) ↔ IsFirst ctx s := by
  have hsublist := firstOfEachFrom_sublist Sighting.line [] (sightings ctx)
  have hrepresented : ∀ t, Shows ctx t → ∃ b ∈ firstOfEach Sighting.line (sightings ctx),
      b.line = t.line ∧ (b = t ∨ b.Before t) := fun t ht =>
    exists_first_before Sighting.line Sighting.Before [] _ sightings_pairwise
      (mem_sightings_iff.mpr ht) List.not_mem_nil
  constructor
  · intro hs
    refine ⟨mem_sightings_iff.mp (hsublist.subset hs), ?_⟩
    intro t ht hline
    obtain ⟨b, hb, hsame, hbefore⟩ := hrepresented t ht
    have hnodup := firstOfEachFrom_keys_nodup Sighting.line [] (sightings ctx)
    obtain rfl : b = s := List.inj_on_of_nodup_map hnodup hb hs (hsame.trans hline)
    exact hbefore.imp_left Eq.symm
  · rintro ⟨hs, hfirst⟩
    obtain ⟨b, hb, hsame, rfl | hbefore⟩ := hrepresented s hs
    · exact hb
    · rcases hfirst b (mem_sightings_iff.mp (hsublist.subset hb)) hsame with rfl | hafter
      · exact hb
      · exact absurd hafter hbefore.asymm

theorem Shows.exists_first (ht : Shows ctx t) : ∃ s, IsFirst ctx s ∧ s.line = t.line := by
  obtain ⟨s, hs, hline, -⟩ := exists_first_before Sighting.line Sighting.Before [] _
    sightings_pairwise (mem_sightings_iff.mpr ht) List.not_mem_nil
  exact ⟨s, mem_firsts_iff.mp hs, hline⟩

end Script

section Findings

variable {ctx : FileContext} {s : Sighting}

/-- The routes that are found, as those that stay. -/
theorem hits_eq : hits ctx.content.toList ctx.lines =
    (firstOfEach Sighting.line (sightings ctx)).map fun s => (s.line, s.hit) := by
  have hkind : ∀ registered, hitsOf ctx.content.toList ctx.lines (patternOf registered) =
      (((patternOf registered).matchesIn ctx.content.toList).filterMap
        (sightingOf? ctx registered)).map fun s => (s.line, s.hit) := by
    intro registered
    rw [List.map_filterMap]
    unfold hitsOf
    congr 1
    funext m
    unfold sightingOf?
    dsimp only
    split
    · rfl
    · rw [Option.map_map]
      rfl
  have happend : hits ctx.content.toList ctx.lines =
      firstOfEach Prod.fst ((sightings ctx).map fun s => (s.line, s.hit)) := by
    simp only [sightings, List.flatMap_cons, List.flatMap_nil, List.append_nil, List.map_append,
      ← hkind]
    rfl
  rw [happend]
  exact firstOfEachFrom_map Prod.fst _ [] _

section Fields

variable (location : Location) (hit : SensitiveRoute)

@[simp]
theorem report_location : (report location hit).location = location := rfl

@[simp]
theorem report_severity : (report location hit).severity = hit.severity := rfl

end Fields

section Server

variable (hserver : ctx.technologies.isFrontendOnly = false) (hscript : ctx.isScript = true)
include hserver hscript

theorem exists_detect_eq : ∃ byPath : Option SensitiveRoute,
    detect ctx = (firstOfEach Sighting.line (sightings ctx)).map
      (fun s => report (.atLine ctx.path s.line) s.hit) ++
        byPath.toList.map (report (.ofFile ctx.path)) := by
  unfold detect
  rw [if_neg (by simp [hserver, hscript]), hits_eq]
  dsimp only
  rw [List.map_map]
  exact ⟨_, rfl⟩

/-- A finding about a line is the one for the first route of the line. -/
theorem mem_detect_atLine_iff {f : Finding} {line : Nat} :
    f ∈ detect ctx ∧ f.location = .atLine ctx.path line ↔
      ∃ s, IsFirst ctx s ∧ s.line = line ∧ report (.atLine ctx.path line) s.hit = f := by
  obtain ⟨byPath, hdetect⟩ := exists_detect_eq hserver hscript
  rw [hdetect, List.mem_append, List.mem_map, List.mem_map]
  constructor
  · rintro ⟨⟨s, hs, rfl⟩ | ⟨hit, -, rfl⟩, hline⟩
    · obtain rfl : s.line = line := by simpa [Location.atLine] using hline
      exact ⟨s, mem_firsts_iff.mp hs, rfl, rfl⟩
    · simp [Location.ofFile, Location.atLine] at hline
  · rintro ⟨s, hs, rfl, rfl⟩
    exact ⟨.inl ⟨s, mem_firsts_iff.mpr hs, rfl⟩, rfl⟩

theorem detect_locations_nodup : ((detect ctx).map Finding.location).Nodup := by
  obtain ⟨byPath, hdetect⟩ := exists_detect_eq hserver hscript
  have hlines := firstOfEachFrom_keys_nodup Sighting.line [] (sightings ctx)
  have hatLine : (Location.atLine ctx.path).Injective := by
    intro a b hab
    simpa [Location.atLine] using hab
  have hplaces : (detect ctx).map Finding.location =
      ((firstOfEach Sighting.line (sightings ctx)).map Sighting.line).map
        (Location.atLine ctx.path) ++ byPath.toList.map fun _ => .ofFile ctx.path := by
    rw [hdetect, List.map_append, List.map_map, List.map_map, List.map_map]
    rfl
  rw [hplaces, List.nodup_append']
  refine ⟨hlines.map hatLine, ?_, ?_⟩
  · cases byPath <;> simp
  · rw [List.disjoint_left]
    intro place hfirst hfile
    obtain ⟨line, -, rfl⟩ := List.mem_map.mp hfirst
    obtain ⟨hit, -, hplace⟩ := List.mem_map.mp hfile
    simp [Location.ofFile, Location.atLine] at hplace

theorem IsFirst.filter_detect {s : Sighting} (hs : IsFirst ctx s) :
    (detect ctx).filter (fun f => f.location = .atLine ctx.path s.line) =
      [report (.atLine ctx.path s.line) s.hit] := by
  have hmember := (mem_detect_atLine_iff hserver hscript).mpr ⟨s, hs, rfl, rfl⟩
  exact filter_key_eq_singleton (detect_locations_nodup hserver hscript) hmember.1

end Server

theorem foldl_moreSevere_mem {best : Option (String × Severity)}
    {words : List (String × Severity)} {word : String × Severity}
    (hfound : words.foldl moreSevere best = some word) : best = some word ∨ word ∈ words := by
  induction words generalizing best with
  | nil => exact .inl hfound
  | cons next rest ih =>
      rcases ih hfound with hbest | hrest
      · unfold moreSevere at hbest
        split at hbest
        · split at hbest
          · exact .inr (by simp [Option.some.inj hbest])
          · exact .inl hbest
        · exact .inr (by simp [Option.some.inj hbest])
      · exact .inr (List.mem_cons_of_mem next hrest)

theorem severity_of_keywordOf? {segment : List Char} {word : String × Severity}
    (hword : keywordOf? segment = some word) : word.2 = .low ∨ word.2 = .medium := by
  have hall : ∀ word ∈ keywords, word.2 = Severity.low ∨ word.2 = Severity.medium := by decide
  exact hall word (List.mem_of_find?_eq_some hword)

/-- A sensitive route is of low or of medium severity. -/
theorem severity_of_sensitiveRoute? {path : String} {hit : SensitiveRoute}
    (hsensitive : sensitiveRoute? path = some hit) :
    hit.severity = .low ∨ hit.severity = .medium := by
  obtain ⟨word, hword, rfl⟩ := Option.map_eq_some_iff.mp hsensitive
  have hmember := (foldl_moreSevere_mem hword).resolve_left (by simp)
  obtain ⟨segment, -, hsegment⟩ := List.mem_filterMap.mp hmember
  exact severity_of_keywordOf? hsegment

theorem Shows.severity (hs : Shows ctx s) : s.hit.severity = .low ∨ s.hit.severity = .medium := by
  obtain ⟨m, -, -, path, -, hsensitive⟩ := hs.captures
  exact severity_of_sensitiveRoute? hsensitive

/-- Every route of a script has a finding on its line that is at least as
severe. -/
def FindsMostSevere (ctx : FileContext) : Prop :=
  ∀ s, Shows ctx s → ∃ f ∈ detect ctx,
    f.location = .atLine ctx.path s.line ∧ s.hit.severity ≤ f.severity

theorem severity_le_of_not_masked {a b : Severity} (ha : a = .low ∨ a = .medium)
    (hb : b = .low ∨ b = .medium) (hmasked : ¬(b = .low ∧ a = .medium)) : a ≤ b := by
  rcases ha with rfl | rfl <;> rcases hb with rfl | rfl
  · decide
  · decide
  · exact absurd ⟨rfl, rfl⟩ hmasked
  · decide

theorem findsMostSevere_iff (hserver : ctx.technologies.isFrontendOnly = false)
    (hscript : ctx.isScript = true) :
    FindsMostSevere ctx ↔ ¬∃ first other, IsFirst ctx first ∧ Shows ctx other ∧
      other.line = first.line ∧ first.hit.severity = .low ∧ other.hit.severity = .medium := by
  constructor
  · rintro hfinds ⟨first, other, hfirst, hother, hline, hlow, hmedium⟩
    obtain ⟨f, hf, hplace, hle⟩ := hfinds other hother
    have hfilter := hfirst.filter_detect hserver hscript
    have hmember : f ∈ (detect ctx).filter fun f => f.location = .atLine ctx.path first.line := by
      rw [List.mem_filter, ← hline]
      exact ⟨hf, by simpa using hplace⟩
    rw [hfilter, List.mem_singleton] at hmember
    rw [hmember, report_severity, hlow, hmedium] at hle
    exact absurd hle (by decide)
  · intro hnone s hs
    obtain ⟨first, hfirst, hline⟩ := hs.exists_first
    have hmember := (mem_detect_atLine_iff hserver hscript).mpr ⟨first, hfirst, hline, rfl⟩
    refine ⟨_, hmember.1, hmember.2, ?_⟩
    rw [report_severity]
    refine severity_le_of_not_masked hs.severity hfirst.1.severity ?_
    rintro ⟨hlow, hmedium⟩
    exact hnone ⟨first, s, hfirst, hs, hline.symm, hlow, hmedium⟩

/-- The findings about a line are one, for the first route of the line, wherever
the line shows a route. So each route has a finding on its line that is at least
as severe exactly when no line shows a medium route behind a low first one. -/
theorem first_route_is_found (ctx : FileContext)
    (hserver : ctx.technologies.isFrontendOnly = false) (hscript : ctx.isScript = true) :
    (∀ f line, f ∈ detect ctx ∧ f.location = .atLine ctx.path line ↔
      ∃ s, IsFirst ctx s ∧ s.line = line ∧ report (.atLine ctx.path line) s.hit = f) ∧
    (∀ s, Shows ctx s → ∃ first, IsFirst ctx first ∧ first.line = s.line ∧
      (detect ctx).filter (fun f => f.location = .atLine ctx.path s.line) =
        [report (.atLine ctx.path s.line) first.hit]) ∧
    (FindsMostSevere ctx ↔ ¬∃ first other, IsFirst ctx first ∧ Shows ctx other ∧
      other.line = first.line ∧ first.hit.severity = .low ∧ other.hit.severity = .medium) := by
  refine ⟨fun f line => mem_detect_atLine_iff hserver hscript, ?_,
    findsMostSevere_iff hserver hscript⟩
  intro s hs
  obtain ⟨first, hfirst, hline⟩ := hs.exists_first
  rw [← hline]
  exact ⟨first, hfirst, rfl, hfirst.filter_detect hserver hscript⟩

end Findings

/-- A line that registers a low route and leads on to a medium one. -/
def masking : FileContext where
  path := ⟨"src/server.js"⟩
  content := "app.get('/health', (req, res) => res.redirect('/admin'));\n"
  technologies := { hasBackend := true }

def healthRoute : Sighting := ⟨true, 0, 1, ⟨"health", .low, "/health"⟩⟩

def adminRoute : Sighting := ⟨false, 46, 1, ⟨"admin", .medium, "/admin"⟩⟩

theorem masking_sightings :
    sightings masking =
      [healthRoute, ⟨false, 8, 1, ⟨"health", .low, "/health"⟩⟩, adminRoute] := by
  decide +kernel

theorem masking_adminRoute : Shows masking adminRoute := by
  rw [← mem_sightings_iff, masking_sightings]
  decide

theorem masking_healthRoute : IsFirst masking healthRoute := by
  rw [← mem_firsts_iff, masking_sightings]
  decide

theorem masking_isScript : masking.isScript = true := by
  decide +kernel

theorem masked_route_not_found :
    masking.technologies.isFrontendOnly = false ∧ masking.isScript = true ∧
      ¬FindsMostSevere masking := by
  refine ⟨rfl, masking_isScript, ?_⟩
  rw [findsMostSevere_iff rfl masking_isScript, not_not]
  exact ⟨healthRoute, adminRoute, masking_healthRoute, masking_adminRoute, rfl, rfl, rfl⟩

theorem masking_finds_first :
    masking.technologies.isFrontendOnly = false ∧ masking.isScript = true ∧
      Shows masking adminRoute ∧
      ∃ first, IsFirst masking first ∧ first.line = 1 ∧
        (detect masking).filter (fun f => f.location = .atLine masking.path 1) =
          [report (.atLine masking.path 1) first.hit] := by
  refine ⟨rfl, masking_isScript, masking_adminRoute, ?_⟩
  exact (first_route_is_found masking rfl masking_isScript).2.1 adminRoute masking_adminRoute

end Endpoint

end WebAudit
