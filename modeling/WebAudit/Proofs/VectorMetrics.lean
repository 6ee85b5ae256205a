import Mathlib.Data.List.Basic
import WebAudit.Advisory.Score
import WebAudit.Proofs.PathComponents
import WebAudit.Proofs.TextCuts

/-!
What the base score of a vector depends on. A vector is a version and components
between slashes, and of the components only the last one of each base metric
counts, and of that one only the first letter of its value. So the order of
components that name different metrics does not matter, nor do components that
name no base metric, nor earlier ones of a metric that is named again, nor which
of the two versions is named. There is no score exactly when the last component
of some base metric is missing, is empty or starts with a letter that the metric
does not have.
-/

namespace WebAudit

namespace BaseMetrics

def metrics : List (String × List Char) :=
  [("S", ['U', 'C']), ("AV", ['N', 'A', 'L', 'P']), ("AC", ['L', 'H']), ("PR", ['N', 'L', 'H']),
    ("UI", ['N', 'R']), ("C", ['H', 'L', 'N']), ("I", ['H', 'L', 'N']), ("A", ['H', 'L', 'N'])]

/-- A component that names a metric in front of its first colon. -/
def Names (metric : String) (part : List Char) : Prop :=
  ∃ value, part = metric.toList ++ ':' :: value

/-- The last component that names a metric gives it a value. -/
def GivesLast (components : List (List Char)) (metric : String) (value : List Char) : Prop :=
  ∃ before after, components = before ++ (metric.toList ++ ':' :: value) :: after ∧
    ∀ part ∈ after, ¬Names metric part

/-- A component that has no colon, or names something else than a base metric. -/
def IsForeign (part : List Char) : Prop :=
  ':' ∉ part ∨ ∃ name value, ':' ∉ name ∧ part = name ++ ':' :: value ∧
    ∀ metric ∈ metrics, name ≠ metric.1.toList

def Unrepeated (components : List (List Char)) : Prop :=
  ∀ metric ∈ metrics, components.Pairwise fun a b => ¬(Names metric.1 a ∧ Names metric.1 b)

/-- The last component of a metric is missing, is empty, or starts with a letter
that is none of its own. -/
inductive Fails (components : List (List Char)) (metric : String × List Char) : Prop
  | missing (hnone : ∀ part ∈ components, ¬Names metric.1 part)
  | empty (hlast : GivesLast components metric.1 [])
  | strange {c : Char} {rest : List Char} (hlast : GivesLast components metric.1 (c :: rest))
      (hc : c ∉ metric.2)

section Components

variable {metric : String} {part value : List Char} {components permuted : List (List Char)}

def value? (metric : String) (part : List Char) : Option (List Char) :=
  Text.after? (metric.toList ++ [':']) part

theorem value?_eq_some_iff :
    value? metric part = some value ↔ part = metric.toList ++ ':' :: value := by
  rw [value?, Text.after?_eq_some_iff, List.append_assoc, List.singleton_append]

theorem value?_eq_none_iff : value? metric part = none ↔ ¬Names metric part := by
  simp only [Option.eq_none_iff_forall_ne_some, Ne, value?_eq_some_iff, Names, not_exists]

theorem colon_not_mem {metric : String × List Char} (hmetric : metric ∈ metrics) :
    ':' ∉ metric.1.toList := by
  have hall : (metrics.all fun metric => !metric.1.toList.contains ':') = true := by decide
  simpa using List.all_eq_true.mp hall metric hmetric

/-- The first letter of the last value that components give to a metric. -/
def letter? (components : List (List Char)) (metric : String) : Option Char :=
  (components.filterMap (value? metric)).getLast?.bind List.head?

theorem getLast?_values_eq_some_iff :
    (components.filterMap (value? metric)).getLast? = some value ↔
      GivesLast components metric value := by
  rw [List.getLast?_eq_head?_reverse, ← List.filterMap_reverse, List.head?_filterMap,
    List.findSome?_eq_some_iff]
  simp only [value?_eq_some_iff, value?_eq_none_iff, GivesLast]
  constructor
  · rintro ⟨after, part, before, hcomponents, rfl, hafter⟩
    refine ⟨before.reverse, after.reverse, ?_, fun part hpart => ?_⟩
    · simpa using congrArg List.reverse hcomponents
    · exact hafter part (List.mem_reverse.mp hpart)
  · rintro ⟨before, after, rfl, hafter⟩
    refine ⟨after.reverse, _, before.reverse, by simp, rfl, fun part hpart => ?_⟩
    exact hafter part (List.mem_reverse.mp hpart)

theorem letter?_eq_some_iff {c : Char} :
    letter? components metric = some c ↔ ∃ rest, GivesLast components metric (c :: rest) := by
  rw [letter?, Option.bind_eq_some_iff]
  simp only [getLast?_values_eq_some_iff, List.head?_eq_some_iff]
  constructor
  · rintro ⟨value, hlast, rest, rfl⟩
    exact ⟨rest, hlast⟩
  · rintro ⟨rest, hlast⟩
    exact ⟨c :: rest, hlast, rest, rfl⟩

/-- Either no component names a metric, or one of them is the last. -/
theorem missing_or_givesLast (components : List (List Char)) (metric : String) :
    (∀ part ∈ components, ¬Names metric part) ∨ ∃ value, GivesLast components metric value := by
  cases hlast : (components.filterMap (value? metric)).getLast? with
  | none =>
      left
      rw [List.getLast?_eq_none_iff, List.filterMap_eq_nil_iff] at hlast
      exact fun part hpart => value?_eq_none_iff.mp (hlast part hpart)
  | some value => exact .inr ⟨value, getLast?_values_eq_some_iff.mp hlast⟩

theorem letter?_perm (hperm : components.Perm permuted)
    (honce : components.Pairwise fun a b => ¬(Names metric a ∧ Names metric b)) :
    letter? permuted metric = letter? components metric := by
  have hvalues := hperm.filterMap (value? metric)
  have hpairwise : (components.filterMap (value? metric)).Pairwise fun _ _ => False := by
    rw [List.pairwise_filterMap]
    refine honce.imp fun hnot a ha b hb => hnot ?_
    exact ⟨⟨a, value?_eq_some_iff.mp ha⟩, ⟨b, value?_eq_some_iff.mp hb⟩⟩
  rw [letter?, letter?]
  -- At most one component names the metric, so the values are the same list.
  cases hlist : components.filterMap (value? metric) with
  | nil =>
      rw [hlist] at hvalues
      rw [hvalues.nil_eq]
  | cons first rest =>
      rw [hlist] at hvalues hpairwise
      cases rest with
      | nil => rw [List.singleton_perm.mp hvalues]
      | cons second rest => exact (List.rel_of_pairwise_cons hpairwise List.mem_cons_self).elim

variable {before after : List (List Char)}

theorem letter?_insert_other (hpart : ¬Names metric part) :
    letter? (before ++ part :: after) metric = letter? (before ++ after) metric := by
  rw [letter?, letter?, List.filterMap_append, List.filterMap_append,
    List.filterMap_cons_none (value?_eq_none_iff.mpr hpart)]

theorem letter?_insert_earlier (hlater : ∃ later ∈ after, Names metric later) :
    letter? (before ++ part :: after) metric = letter? (before ++ after) metric := by
  obtain ⟨later, hlater, value, hvalue⟩ := hlater
  have hsome : after.filterMap (value? metric) ≠ [] :=
    List.ne_nil_of_mem (List.mem_filterMap.mpr ⟨later, hlater, value?_eq_some_iff.mpr hvalue⟩)
  rw [letter?, letter?, ← List.singleton_append, List.filterMap_append,
    List.filterMap_append, List.filterMap_append, List.getLast?_append_of_ne_nil _ hsome,
    ← List.append_assoc, List.getLast?_append_of_ne_nil _ hsome]

theorem Names.unique {metric' : String} (hmetric : ':' ∉ metric.toList)
    (hmetric' : ':' ∉ metric'.toList) (hpart : Names metric part) (hpart' : Names metric' part) :
    metric = metric' := by
  obtain ⟨value, rfl⟩ := hpart
  obtain ⟨value', hvalue'⟩ := hpart'
  have hcut := congrArg (List.takeWhile (· != ':')) hvalue'
  rw [Text.cut_mark hmetric, Text.cut_mark hmetric'] at hcut
  exact String.toList_inj.mp hcut

theorem IsForeign.not_names (hpart : IsForeign part) {metric : String × List Char}
    (hmetric : metric ∈ metrics) : ¬Names metric.1 part := by
  rintro ⟨value, rfl⟩
  rcases hpart with hnone | ⟨name, value', hname, hsame, hother⟩
  · simp at hnone
  · have hcut := congrArg (List.takeWhile (· != ':')) hsame
    rw [Text.cut_mark (colon_not_mem hmetric), Text.cut_mark hname] at hcut
    exact hother metric hmetric hcut.symm

end Components

section Reading

variable {components others : List (List Char)}

theorem Metric.named?_eq_some_iff {name : List Char} {m : Metric} :
    Metric.named? name = some m ↔ m.name.toList = name := by
  constructor
  · intro hnamed
    rw [named?] at hnamed
    have hname := List.find?_some hnamed
    exact beq_iff_eq.mp hname
  · rintro rfl
    cases m <;> decide

theorem Metric.mem_metrics (m : Metric) : ∃ letters, (m.name, letters) ∈ metrics := by
  have hall : m.name ∈ metrics.map Prod.fst := by cases m <;> decide
  obtain ⟨metric, hmetric, hname⟩ := List.mem_map.mp hall
  exact ⟨metric.2, hname ▸ hmetric⟩

theorem Metric.colon_not_mem (m : Metric) : ':' ∉ m.name.toList := by
  obtain ⟨letters, hmetric⟩ := m.mem_metrics
  exact BaseMetrics.colon_not_mem hmetric

/-- A step of the reading, at any slot: a component is cut at its first colon, so
a name without one decides whether the component is about it. -/
theorem Letters.slot_read (letters : Letters) (part : List Char) (m : Metric) :
    (letters.read part).slot m =
      ((BaseMetrics.value? m.name part).map List.head?).getD (letters.slot m) := by
  cases hvalue : BaseMetrics.value? m.name part with
  | some value =>
      have hcut : Text.splitAt? [':'] (m.name.toList ++ [':'] ++ value) =
          some (m.name.toList, value) := Text.splitAt?_append m.colon_not_mem value
      rw [List.append_assoc, List.singleton_append, ← value?_eq_some_iff.mp hvalue] at hcut
      have hnamed : Metric.named? m.name.toList = some m := Metric.named?_eq_some_iff.mpr rfl
      simp only [read, hcut, hnamed, if_true]
      rfl
  | none =>
      have hother : ∀ name value, Text.splitAt? [':'] part = some (name, value) →
          Metric.named? name ≠ some m := by
        intro name value hcut hnamed
        have hpart := Text.eq_of_splitAt? hcut
        rw [List.append_assoc, List.singleton_append,
          ← Metric.named?_eq_some_iff.mp hnamed] at hpart
        exact value?_eq_none_iff.mp hvalue ⟨value, hpart⟩
      unfold read
      split
      · rename_i name value hcut
        split
        · rename_i metric hnamed
          have hne : m ≠ metric := fun hsame => hother name value hcut (hsame ▸ hnamed)
          exact if_neg hne
        · rfl
      · rfl

/-- The whole reading, from any slots: the last value for a metric wins. -/
theorem Letters.slot_foldl_read (components : List (List Char)) (letters : Letters) (m : Metric) :
    (components.foldl read letters).slot m =
      ((components.filterMap (BaseMetrics.value? m.name)).getLast?.map List.head?).getD
        (letters.slot m) := by
  induction components generalizing letters with
  | nil => rfl
  | cons part rest ih =>
      rw [List.foldl_cons, ih, slot_read]
      cases hvalue : BaseMetrics.value? m.name part with
      | none => rw [List.filterMap_cons_none hvalue]; rfl
      | some value =>
          rw [List.filterMap_cons_some hvalue, List.getLast?_cons]
          cases (rest.filterMap (BaseMetrics.value? m.name)).getLast? <;> rfl

theorem Letters.slot_ofComponents (components : List (List Char)) (m : Metric) :
    (ofComponents components).slot m = letter? components m.name := by
  rw [ofComponents, slot_foldl_read, letter?]
  cases (components.filterMap (BaseMetrics.value? m.name)).getLast? <;> rfl

theorem ofComponents?_congr
    (hletters : ∀ metric ∈ metrics, letter? components metric.1 = letter? others metric.1) :
    ofComponents? components = ofComponents? others := by
  have hslots : Letters.ofComponents components = Letters.ofComponents others := by
    apply Letters.ext
    funext m
    obtain ⟨letters, hmetric⟩ := m.mem_metrics
    rw [Letters.slot_ofComponents, Letters.slot_ofComponents, hletters _ hmetric]
  rw [ofComponents?, ofComponents?, hslots]

/-- A metric has no value if no letter was given or one that no value has. -/
theorem Letters.value?_ofComponents_eq_none_iff {α : Type} (m : Metric)
    (values : List (Char × α)) :
    (Letters.ofComponents components).value? m values = none ↔
      ∀ c, letter? components m.name = some c → c ∉ values.map Prod.fst := by
  rw [Letters.value?, slot_ofComponents, Option.bind_eq_none_iff]
  refine forall₂_congr fun c _ => ?_
  rw [List.lookup_eq_none_iff]
  simp only [List.mem_map, not_exists, not_and, bne_iff_ne]
  exact forall₂_congr fun pair _ => ne_comm

/-- A reading that goes on alike whatever was read fails here or later. -/
theorem bind_eq_none_iff_or {α β : Type} {o : Option α} {next : α → Option β} {here later : Prop}
    (hhere : o = none ↔ here) (hlater : ∀ a, next a = none ↔ later) :
    (o >>= next) = none ↔ here ∨ later := by
  rw [← hhere]
  cases o with
  | none => simp
  | some a => simpa using hlater a

theorem ofComponents?_eq_none_iff :
    ofComponents? components = none ↔
      ∃ metric ∈ metrics, ∀ c, letter? components metric.1 = some c → c ∉ metric.2 := by
  have hslot {α : Type} (m : Metric) (values : List (Char × α)) :
      (Letters.ofComponents components).value? m values = none ↔
        ∀ c, letter? components m.name = some c → c ∉ values.map Prod.fst :=
    Letters.value?_ofComponents_eq_none_iff m values
  simp only [metrics, List.exists_mem_cons_iff]
  refine bind_eq_none_iff_or (hslot .scope scopeLetters) fun _ =>
    bind_eq_none_iff_or (hslot .attackVector vectorLetters) fun _ =>
    bind_eq_none_iff_or (hslot .complexity complexityLetters) fun _ =>
    bind_eq_none_iff_or (hslot .privileges privilegesLetters) fun _ =>
    bind_eq_none_iff_or (hslot .interaction interactionLetters) fun _ =>
    bind_eq_none_iff_or (hslot .confidentiality impactLetters) fun _ =>
    bind_eq_none_iff_or (hslot .integrity impactLetters) fun _ =>
    bind_eq_none_iff_or (hslot .availability impactLetters) fun _ => ?_
  simp

theorem fails_iff {metric : String × List Char} :
    Fails components metric ↔
      ∀ c, letter? components metric.1 = some c → c ∉ metric.2 := by
  have hletter : ∀ {value}, GivesLast components metric.1 value →
      letter? components metric.1 = value.head? := by
    intro value hlast
    rw [letter?, getLast?_values_eq_some_iff.mpr hlast, Option.bind_some]
  constructor
  · rintro (hnone | hlast | ⟨hlast, hc⟩) d hd
    · obtain ⟨rest, before, after, rfl, -⟩ := letter?_eq_some_iff.mp hd
      exact absurd ⟨d :: rest, rfl⟩ (hnone _ (by simp))
    · rw [hletter hlast] at hd
      cases hd
    · rw [hletter hlast] at hd
      cases hd
      exact hc
  · intro hstrange
    rcases missing_or_givesLast components metric.1 with hnone | ⟨value, hlast⟩
    · exact .missing hnone
    · cases value with
      | nil => exact .empty hlast
      | cons c rest => exact .strange hlast (hstrange c (hletter hlast))

end Reading

def versions : List String := ["CVSS:3.0", "CVSS:3.1"]

structure IsVector (vector version : String) (components : List (List Char)) : Prop where
  version_mem : version ∈ versions
  text : vector.toList = ['/'].intercalate (version.toList :: components)
  pieces : ∀ part ∈ components, '/' ∉ part

section Vectors

variable {vector vector' version version' : String} {components components' : List (List Char)}

theorem slash_not_mem (hversion : version ∈ versions) : '/' ∉ version.toList := by
  have hall : (versions.all fun version => !version.toList.contains '/') = true := by decide
  simpa using List.all_eq_true.mp hall version hversion

theorem IsVector.splitOn_eq (hvector : IsVector vector version components) :
    Text.splitOn '/' vector.toList = version.toList :: components := by
  apply Text.splitOn_eq_iff.mpr
  refine ⟨List.cons_ne_nil _ _, ?_, hvector.text.symm⟩
  exact List.forall_mem_cons.mpr ⟨slash_not_mem hvector.version_mem, hvector.pieces⟩

theorem isVector_of_splitOn (hversion : version ∈ versions)
    (hsplit : Text.splitOn '/' vector.toList = version.toList :: components) :
    IsVector vector version components := by
  obtain ⟨-, hclean, hjoined⟩ := Text.splitOn_eq_iff.mp hsplit
  exact ⟨hversion, hjoined.symm, (List.forall_mem_cons.mp hclean).2⟩

theorem IsVector.baseScore?_eq (hvector : IsVector vector version components) :
    baseScore? vector = (ofComponents? components).map fun m => tenthsValue m.tenths := by
  have hversion : (version.toList == "CVSS:3.0".toList || version.toList == "CVSS:3.1".toList) =
      true := by
    have hmember := hvector.version_mem
    simp only [versions, List.mem_cons, List.not_mem_nil, or_false] at hmember
    rcases hmember with rfl | rfl <;> decide
  rw [baseScore?, ofVector?, hvector.splitOn_eq]
  simp only [hversion, if_true]

/-- A text that has a score is a vector. -/
theorem exists_isVector (hscore : baseScore? vector ≠ none) :
    ∃ version components, IsVector vector version components := by
  have hsome : ofVector? vector ≠ none := fun hnone => hscore (by rw [baseScore?, hnone]; rfl)
  unfold ofVector? at hsome
  split at hsome
  · rename_i first components hsplit
    split at hsome
    · rename_i hversion
      rw [Bool.or_eq_true, beq_iff_eq, beq_iff_eq] at hversion
      rcases hversion with rfl | rfl
      · exact ⟨"CVSS:3.0", components, isVector_of_splitOn (by decide) hsplit⟩
      · exact ⟨"CVSS:3.1", components, isVector_of_splitOn (by decide) hsplit⟩
    · exact absurd rfl hsome
  · exact absurd rfl hsome

section Pairs

variable (hvector : IsVector vector version components)
  (hvector' : IsVector vector' version' components')
include hvector hvector'

theorem baseScore?_congr
    (hletters : ∀ metric ∈ metrics, letter? components metric.1 = letter? components' metric.1) :
    baseScore? vector = baseScore? vector' := by
  rw [hvector.baseScore?_eq, hvector'.baseScore?_eq, ofComponents?_congr hletters]

/-- The score is told by the first letters of the last components. -/
theorem baseScore?_eq_of_letters (hletters : ∀ metric ∈ metrics, ∀ c,
      (∃ rest, GivesLast components metric.1 (c :: rest)) ↔
        ∃ rest, GivesLast components' metric.1 (c :: rest)) :
    baseScore? vector = baseScore? vector' := by
  refine baseScore?_congr hvector hvector' fun metric hmetric => ?_
  ext c
  rw [letter?_eq_some_iff, letter?_eq_some_iff, hletters metric hmetric]

theorem baseScore?_eq_of_perm (hperm : components.Perm components')
    (honce : Unrepeated components) : baseScore? vector = baseScore? vector' := by
  refine baseScore?_congr hvector hvector' fun metric hmetric => ?_
  exact (letter?_perm hperm (honce metric hmetric)).symm

variable {before after : List (List Char)} {part : List Char}
  (hlonger : components = before ++ part :: after) (hshorter : components' = before ++ after)
include hlonger hshorter

theorem baseScore?_eq_of_foreign (hpart : IsForeign part) :
    baseScore? vector = baseScore? vector' := by
  subst hlonger hshorter
  refine baseScore?_congr hvector hvector' fun metric hmetric => ?_
  exact letter?_insert_other (hpart.not_names hmetric)

theorem baseScore?_eq_of_later {metric : String × List Char} (hmetric : metric ∈ metrics)
    (hpart : Names metric.1 part) (hlater : ∃ later ∈ after, Names metric.1 later) :
    baseScore? vector = baseScore? vector' := by
  subst hlonger hshorter
  refine baseScore?_congr hvector hvector' fun other hother => ?_
  by_cases hsame : Names other.1 part
  · rw [hpart.unique (colon_not_mem hmetric) (colon_not_mem hother) hsame] at hlater
    exact letter?_insert_earlier hlater
  · exact letter?_insert_other hsame

end Pairs

end Vectors

/-- Vectors are read as sets of metrics. Two vectors have one score if the last
components of each base metric start their values alike; in particular if they
differ in the version, in the order of components that repeat no base metric, in
a component that names no base metric, or in one before another of its metric.
A vector has no score exactly when some base metric fails, and any other text
has none. -/
theorem base_score_reads_metrics :
    (∀ (vector vector' version version' : String) (components components' : List (List Char)),
      IsVector vector version components → IsVector vector' version' components' →
      ((∀ metric ∈ metrics, ∀ c, (∃ rest, GivesLast components metric.1 (c :: rest)) ↔
          ∃ rest, GivesLast components' metric.1 (c :: rest)) →
        baseScore? vector = baseScore? vector') ∧
      (components = components' → baseScore? vector = baseScore? vector') ∧
      (components.Perm components' → Unrepeated components →
        baseScore? vector = baseScore? vector') ∧
      ∀ before part after, components = before ++ part :: after → components' = before ++ after →
        (IsForeign part ∨
          ∃ metric ∈ metrics, Names metric.1 part ∧ ∃ later ∈ after, Names metric.1 later) →
        baseScore? vector = baseScore? vector') ∧
    (∀ (vector version : String) (components : List (List Char)),
      IsVector vector version components →
      (baseScore? vector = none ↔ ∃ metric ∈ metrics, Fails components metric)) ∧
    ∀ vector : String, (¬∃ version components, IsVector vector version components) →
      baseScore? vector = none := by
  refine ⟨?_, ?_, ?_⟩
  · intro vector vector' version version' components components' hvector hvector'
    refine ⟨baseScore?_eq_of_letters hvector hvector', ?_,
      baseScore?_eq_of_perm hvector hvector', ?_⟩
    · rintro rfl
      exact baseScore?_congr hvector hvector' fun _ _ => rfl
    · rintro before part after hlonger hshorter (hforeign | ⟨metric, hmetric, hpart, hlater⟩)
      · exact baseScore?_eq_of_foreign hvector hvector' hlonger hshorter hforeign
      · exact baseScore?_eq_of_later hvector hvector' hlonger hshorter hmetric hpart hlater
  · intro vector version components hvector
    rw [hvector.baseScore?_eq, Option.map_eq_none_iff, ofComponents?_eq_none_iff]
    exact exists_congr fun metric => and_congr_right fun _ => fails_iff.symm
  · intro vector hother
    by_contra hscore
    exact hother (exists_isVector hscore)

instance (metric : String) (part : List Char) : Decidable (Names metric part) :=
  decidable_of_iff ((value? metric part).isSome = true) (by
    rw [Option.isSome_iff_ne_none, Ne, value?_eq_none_iff, not_not])

def criticalComponents : List (List Char) :=
  ["AV:N", "AC:L", "PR:N", "UI:N", "S:U", "C:H", "I:H", "A:H"].map String.toList

/-- A critical vector scores 9.8. It does so too with the other version and its
components in reverse, and with a maturity and an earlier attack vector put in;
without its last component it has no score. -/
theorem critical_vector_rewritten :
    baseScore? "CVSS:3.1/AV:N/AC:L/PR:N/UI:N/S:U/C:H/I:H/A:H" = some (tenthsValue 98) ∧
    baseScore? "CVSS:3.1/AV:N/AC:L/PR:N/UI:N/S:U/C:H/I:H/A:H" =
      baseScore? "CVSS:3.0/A:H/I:H/C:H/S:U/UI:N/PR:N/AC:L/AV:N" ∧
    baseScore? "CVSS:3.1/AV:N/AC:L/PR:N/UI:N/S:U/C:H/I:H/A:H/E:P" =
      baseScore? "CVSS:3.1/AV:N/AC:L/PR:N/UI:N/S:U/C:H/I:H/A:H" ∧
    baseScore? "CVSS:3.1/AV:P/AV:N/AC:L/PR:N/UI:N/S:U/C:H/I:H/A:H" =
      baseScore? "CVSS:3.1/AV:N/AC:L/PR:N/UI:N/S:U/C:H/I:H/A:H" ∧
    baseScore? "CVSS:3.1/AV:N/AC:L/PR:N/UI:N/S:U/C:H/I:H" = none ∧
    baseScore? "AV:N/AC:L/Au:N/C:P/I:P/A:P" = none := by
  obtain ⟨hpairs, hnone, hother⟩ := base_score_reads_metrics
  have hcritical : IsVector "CVSS:3.1/AV:N/AC:L/PR:N/UI:N/S:U/C:H/I:H/A:H" "CVSS:3.1"
      criticalComponents := isVector_of_splitOn (by decide) (by decide +kernel)
  have hreversed : IsVector "CVSS:3.0/A:H/I:H/C:H/S:U/UI:N/PR:N/AC:L/AV:N" "CVSS:3.0"
      criticalComponents.reverse := isVector_of_splitOn (by decide) (by decide +kernel)
  have htemporal : IsVector "CVSS:3.1/AV:N/AC:L/PR:N/UI:N/S:U/C:H/I:H/A:H/E:P" "CVSS:3.1"
      (criticalComponents ++ ["E:P".toList]) :=
    isVector_of_splitOn (by decide) (by decide +kernel)
  have hrepeated : IsVector "CVSS:3.1/AV:P/AV:N/AC:L/PR:N/UI:N/S:U/C:H/I:H/A:H" "CVSS:3.1"
      ("AV:P".toList :: criticalComponents) :=
    isVector_of_splitOn (by decide) (by decide +kernel)
  have hshort : IsVector "CVSS:3.1/AV:N/AC:L/PR:N/UI:N/S:U/C:H/I:H" "CVSS:3.1"
      criticalComponents.dropLast := isVector_of_splitOn (by decide) (by decide +kernel)
  refine ⟨by decide +kernel, ?_, ?_, ?_, ?_, ?_⟩
  · exact (hpairs _ _ _ _ _ _ hcritical hreversed).2.2.1 (List.reverse_perm _).symm
      (by unfold Unrepeated; decide +kernel)
  · refine (hpairs _ _ _ _ _ _ htemporal hcritical).2.2.2 _ _ _ rfl
      (List.append_nil _).symm (.inl (.inr ⟨['E'], ['P'], ?_, rfl, ?_⟩))
    · decide
    · decide +kernel
  · refine (hpairs _ _ _ _ _ _ hrepeated hcritical).2.2.2 [] _ _ rfl rfl (.inr ?_)
    decide +kernel
  · refine (hnone _ _ _ hshort).mpr ⟨("A", ['H', 'L', 'N']), by decide, .missing ?_⟩
    decide +kernel
  · refine hother _ ?_
    rintro ⟨version, components, hvector⟩
    have hfirst : (Text.splitOn '/' "AV:N/AC:L/Au:N/C:P/I:P/A:P".toList).head? =
        some "AV:N".toList := by decide +kernel
    rw [hvector.splitOn_eq, List.head?_cons, Option.some.injEq, String.toList_inj] at hfirst
    exact absurd (hfirst ▸ hvector.version_mem) (by decide)

end BaseMetrics

end WebAudit
