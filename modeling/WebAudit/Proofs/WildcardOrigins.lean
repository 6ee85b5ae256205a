import WebAudit.Proofs.DocumentPlaces
import WebAudit.Proofs.TextCuts

/-!
Wildcard origins. A member that allows every origin is reported once: as a
permissive setting if it is an origin below a key that speaks of requests across
origins, and by the general rule otherwise. What the general rule reports is left
out by the texts of paths, and these do not tell all members apart; members whose
paths have the same text are still reported the same way.
-/

namespace WebAudit.Configuration

open Text

section Paths

/-- A joined text speaks of requests across origins when one of its parts does. -/
theorem mentionsCors_join (names : List String) :
    mentionsCors (Text.join "." names) = names.any mentionsCors := by
  rw [Bool.eq_iff_iff, mentionsCors, occursIn_iff, Text.join, String.toList_intercalate]
  induction names with
  | nil => decide
  | cons name rest ih =>
      cases rest with
      | nil => simp [mentionsCors, occursIn_iff]
      | cons next rest =>
          have hdot : '.' ∉ "cors".toList := by decide
          rw [List.map_cons, List.map_cons, List.intercalate_cons_cons, List.any_cons,
            Bool.or_eq_true, ← ih, mentionsCors, occursIn_iff, ← isInfix_append_mark hdot]
          simp [lowerAscii]

theorem isDigit_of_mem_position {i : Nat} {c : Char} (hc : c ∈ (toString i).toList) :
    c.isDigit = true := by
  rw [Nat.toString_eq_repr, Nat.toList_repr] at hc
  exact Nat.isDigit_of_mem_toDigits (by decide) (by decide) hc

theorem mentionsCors_position (i : Nat) : mentionsCors (toString i) = false := by
  rw [Bool.eq_false_iff, ne_eq, mentionsCors, occursIn_iff]
  intro hcors
  have hletter : 'c' ∈ lowerAscii (toString i).toList := hcors.subset (by simp)
  obtain ⟨c, hc, hlower⟩ := List.mem_map.mp hletter
  obtain ⟨hchar, hsmall⟩ := digitChar_of_isDigit (isDigit_of_mem_position hc)
  have hdigits : ∀ d < 10, (Nat.digitChar d).toLower ≠ 'c' := by decide
  exact hdigits _ hsmall (by rw [hchar, hlower])

theorem isCorsWay_eq (way : List Step) :
    isCorsWay way = (way.map Step.name).any mentionsCors := by
  rw [isCorsWay, List.any_map]
  congr 1
  funext s
  cases s with
  | member index key => rfl
  | item index => exact (mentionsCors_position index).symm

/-- The last piece of a path between dots is a name without dots at its end. -/
theorem getLast?_splitOn_join (front : List String) {key : String} (hkey : '.' ∉ key.toList) :
    ((Text.join "." (front ++ [key])).toList.splitOn '.').getLast? = some key.toList := by
  rw [Text.join, String.toList_intercalate]
  induction front with
  | nil => simp [List.splitOn_eq_singleton hkey]
  | cons name front ih =>
      have hjoin : ".".toList.intercalate ((name :: front ++ [key]).map String.toList) =
          name.toList ++ '.' :: ".".toList.intercalate ((front ++ [key]).map String.toList) := by
        cases front <;> simp
      rw [hjoin, List.splitOn_append_cons_self, List.getLast?_append, ih, Option.some_or]

theorem key_eq_of_join_eq {front front' : List String} {key key' : String}
    (hkey : '.' ∉ key.toList) (hkey' : '.' ∉ key'.toList)
    (hpath : Text.join "." (front ++ [key]) = Text.join "." (front' ++ [key'])) :
    key = key' := by
  have hlast := getLast?_splitOn_join front hkey
  rw [hpath, getLast?_splitOn_join front' hkey'] at hlast
  exact (String.toList_inj.mp (Option.some.inj hlast)).symm

end Paths

section Stars

def IsStar (v : Json) : Prop :=
  v = .string "*" ∨ ∃ items, v = .array items ∧ .string "*" ∈ items

theorem positional_ne_star (digits : List Char) (point : Int) :
    Number.positional digits point true ≠ ['*'] := by
  have hpoint : '.' ∈ Number.positional digits point true := by
    unfold Number.positional
    dsimp only
    split
    · simp
    · split <;> simp
  intro heq
  simp [heq] at hpoint

theorem scientific_ne_star (digits : List Char) (point : Int) :
    Number.scientific digits point ≠ ['*'] := by
  cases digits with
  | nil => simp [Number.scientific]
  | cons d more => cases more <;> simp [Number.scientific]

theorem shortestText?_ne_star (f : Number.Format) (layout : Number.Layout) (b : Number.Binary) :
    Number.shortestText? f layout b ≠ some "*" := by
  cases b with
  | infinite negative => nofun
  | nan => nofun
  | finite negative m e =>
      intro htext
      have hchars := congrArg String.toList (Option.some.inj htext)
      rw [String.toList_ofList] at hchars
      cases negative with
      | true =>
          have hsign : '-' = '*' := (List.cons.inj hchars).1
          exact absurd hsign (by decide)
      | false =>
          simp only [Bool.false_eq_true, if_false] at hchars
          split at hchars
          · exact absurd (List.cons.inj hchars).1 (by decide)
          split at hchars
          · exact positional_ne_star _ _ hchars
          · exact scientific_ne_star _ _ hchars

theorem number_text_ne_star (n : JsonNumber) : n.text ≠ "*" := by
  have hgetD {f : Number.Format} {layout : Number.Layout} {b : Number.Binary} :
      (Number.shortestText? f layout b).getD "null" ≠ "*" := by
    cases htext : Number.shortestText? f layout b with
    | none => decide
    | some text =>
        intro heq
        exact shortestText?_ne_star f layout b (htext.trans (congrArg some heq))
  cases n with
  | int n =>
      intro htext
      have hchars := congrArg String.toList htext
      cases n with
      | ofNat m =>
          have hdigits : (toString m).toList = ['*'] := hchars
          have hstar : '*'.isDigit = true := isDigit_of_mem_position (by rw [hdigits]; simp)
          exact absurd hstar (by decide)
      | negSucc m =>
          have hsign : ("-" ++ toString (m + 1)).toList = ['*'] := hchars
          simp at hsign
  | double b => exact hgetD
  | single b => exact hgetD

theorem isText_iff {t : String} {v : Json} : isText t v = true ↔ v = .string t := by
  cases v <;> simp [isText]

theorem any_isText_iff {t : String} {items : List Json} :
    items.any (isText t) = true ↔ .string t ∈ items := by
  rw [List.any_eq_true]
  constructor
  · rintro ⟨v, hv, htext⟩
    rwa [isText_iff.mp htext] at hv
  · exact fun hmem => ⟨_, hmem, isText_iff.mpr rfl⟩

theorem accepts_star_iff {v : Json} : (Expected.text "*").accepts v = true ↔ IsStar v := by
  cases v with
  | string s => simp [Expected.accepts, IsStar]
  | array items => simp only [Expected.accepts, any_isText_iff, IsStar]; simp
  | number n => simp [Expected.accepts, IsStar, number_text_ne_star]
  | null => simp [Expected.accepts, IsStar]
  | bool b => simp [Expected.accepts, IsStar]
  | object members => simp [Expected.accepts, IsStar]

theorem IsStar.valueText_eq {v : Json} (h : IsStar v) : valueText v = "*" := by
  rcases h with rfl | ⟨items, rfl, hmem⟩
  · rfl
  · rw [valueText, if_pos (any_isText_iff.mpr hmem)]

end Stars

section Names

theorem exists_sameLetter {as bs : List Char} (hsame : sameName as bs = true) :
    ∀ b ∈ bs, ∃ a ∈ as, Pattern.sameLetter a b = true := by
  induction as generalizing bs with
  | nil => cases bs <;> simp_all [sameName]
  | cons a as ih =>
      cases bs with
      | nil => simp
      | cons b bs =>
          obtain ⟨hletter, hrest⟩ := Bool.and_eq_true_iff.mp hsame
          intro c hc
          rcases List.mem_cons.mp hc with rfl | hc
          · exact ⟨a, List.mem_cons_self, hletter⟩
          · obtain ⟨d, hd, hletter⟩ := ih hrest c hc
            exact ⟨d, List.mem_cons_of_mem _ hd, hletter⟩

theorem sameName_of_lowerAscii_eq {as bs : List Char} (hlower : lowerAscii as = lowerAscii bs) :
    sameName as bs = true := by
  induction as generalizing bs with
  | nil =>
      obtain rfl : bs = [] := by simpa [lowerAscii] using hlower.symm
      rfl
  | cons a as ih =>
      cases bs with
      | nil => simp [lowerAscii] at hlower
      | cons b bs =>
          obtain ⟨hfirst, hrest⟩ := List.cons.inj hlower
          simp [sameName, Pattern.sameLetter, hfirst, ih hrest]

end Names

section Rules

def originRule : Rule := rules.getLast (List.cons_ne_nil _ _)

/-- Names that the rule for wildcard origins is about have no dots. -/
theorem dot_not_mem_of_names? {key : String} (hnames : originRule.names? key = true) :
    '.' ∉ key.toList := by
  intro hdot
  obtain ⟨name, hname, hsame⟩ := List.any_eq_true.mp hnames
  obtain ⟨a, ha, hletter⟩ := exists_sameLetter hsame '.' hdot
  have hall : (originRule.names.all fun n =>
      n.toList.all fun a => !Pattern.sameLetter a '.') = true := by decide
  have hother := List.all_eq_true.mp (List.all_eq_true.mp hall name hname) a ha
  simp [hletter] at hother

theorem names?_of_origin {key : String} (horigin : lowerAscii key.toList = "origin".toList) :
    originRule.names? key = true := by
  refine List.any_eq_true.mpr ⟨"origin", List.mem_cons_self, sameName_of_lowerAscii_eq ?_⟩
  exact horigin.symm

def Hit.isAboutOrigin (h : Hit) : Bool :=
  h.kind == permissiveCorsKind || h.kind == wildcardOriginKind

structure Hit.IsIn (h : Hit) (o : Occurrence) : Prop where
  ancestors_eq : h.ancestors = o.ancestors
  key_eq : h.key = o.key
  valueText_eq : h.valueText = Configuration.valueText o.value

namespace Occurrence

variable {o o' : Occurrence}

def IsWildcardOrigin (o : Occurrence) : Prop :=
  originRule.names? o.key = true ∧ IsStar o.value

/-- Whether a member is an origin below a key that speaks of requests across
origins. -/
def IsCorsOrigin (o : Occurrence) : Prop :=
  lowerAscii o.key.toList = "origin".toList ∧
    ∃ i key, .member i key ∈ o.way ∧ "cors".toList <:+: lowerAscii key.toList

/-- The names and positions on the way to a member and its own name, joined by
dots. -/
def path (o : Occurrence) : String := Text.join "." (o.ancestors ++ [o.key])

theorem isCorsWay_iff {way : List Step} :
    isCorsWay way = true ↔
      ∃ i key, .member i key ∈ way ∧ "cors".toList <:+: lowerAscii key.toList := by
  rw [isCorsWay, List.any_eq_true]
  constructor
  · rintro ⟨s, hs, hcors⟩
    cases s with
    | member i key => exact ⟨i, key, hs, occursIn_iff.mp hcors⟩
    | item i => cases hcors
  · rintro ⟨i, key, hs, hcors⟩
    exact ⟨_, hs, occursIn_iff.mpr hcors⟩

theorem isCorsOrigin_iff :
    o.IsCorsOrigin ↔ lowerAscii o.key.toList = "origin".toList ∧ isCorsWay o.way = true := by
  rw [IsCorsOrigin, isCorsWay_iff]

/-- Whether an origin is below a key that speaks of requests across origins can be
told from the text of its path. -/
theorem isCorsWay_eq_of_origin (horigin : lowerAscii o.key.toList = "origin".toList) :
    isCorsWay o.way = mentionsCors o.path := by
  have hkey : mentionsCors o.key = false := by
    rw [mentionsCors, horigin]
    decide
  rw [path, mentionsCors_join, List.any_append, ancestors, ← isCorsWay_eq]
  simp [hkey]

/-- Members whose paths have the same text are reported the same way. -/
theorem IsCorsOrigin.of_path_eq (ho' : o'.IsCorsOrigin) (hnames : originRule.names? o.key = true)
    (hpath : o'.path = o.path) : o.IsCorsOrigin := by
  obtain ⟨horigin', hway⟩ := isCorsOrigin_iff.mp ho'
  -- Neither key has a dot, so both are what stands behind the last dot of the path.
  have hkey : o'.key = o.key :=
    key_eq_of_join_eq (dot_not_mem_of_names? (names?_of_origin horigin'))
      (dot_not_mem_of_names? hnames) hpath
  have horigin : lowerAscii o.key.toList = "origin".toList := hkey ▸ horigin'
  refine isCorsOrigin_iff.mpr ⟨horigin, ?_⟩
  -- `cors` has no dot either, so it is in the path exactly when it is in one of its names.
  rw [isCorsWay_eq_of_origin horigin, ← hpath, ← isCorsWay_eq_of_origin horigin', hway]

def ruleHit? (o : Occurrence) (r : Rule) : Option Hit :=
  if r.names? o.key && r.expected.accepts o.value then
    some ⟨r.kind, r.severity, r.advice, o.key, valueText o.value, o.ancestors⟩
  else none

theorem isSome_ruleHit?_iff : (o.ruleHit? originRule).isSome = true ↔ o.IsWildcardOrigin := by
  rw [IsWildcardOrigin, ← accepts_star_iff, ← Bool.and_eq_true]
  simp only [ruleHit?, Option.isSome_ite]
  rfl

theorem of_ruleHit? {r : Rule} {h : Hit} (hhit : o.ruleHit? r = some h) :
    h.IsIn o ∧ h.kind = r.kind := by
  obtain ⟨-, heq⟩ := Option.ite_none_right_eq_some.mp hhit
  obtain rfl := Option.some.inj heq
  exact ⟨⟨rfl, rfl, rfl⟩, rfl⟩

/-- In an origin below a key that speaks of requests across origins there is one
hit besides those of rules. -/
theorem exists_hits_eq (o : Occurrence) :
    ∃ special : Hit, special.IsIn o ∧ special.kind = permissiveCorsKind ∧
      o.hits = rules.filterMap o.ruleHit? ++
        if isCorsWay o.way && eqIgnoreCase o.key.toList "origin".toList &&
          (Expected.text "*").accepts o.value then [special] else [] :=
  ⟨_, ⟨rfl, rfl, rfl⟩, rfl, rfl⟩

theorem corsHits_iff :
    (isCorsWay o.way && eqIgnoreCase o.key.toList "origin".toList &&
        (Expected.text "*").accepts o.value) = true ↔ o.IsCorsOrigin ∧ IsStar o.value := by
  rw [Bool.and_eq_true, Bool.and_eq_true, accepts_star_iff, isCorsOrigin_iff, eqIgnoreCase,
    beq_iff_eq, and_comm (a := isCorsWay o.way = true)]
  rfl

/-- Only the last rule gives hits about origins. -/
theorem filter_ruleHits (o : Occurrence) :
    (rules.filterMap o.ruleHit?).filter Hit.isAboutOrigin = (o.ruleHit? originRule).toList := by
  have hkinds : (rules.dropLast.all fun r =>
      !(r.kind == permissiveCorsKind || r.kind == wildcardOriginKind)) = true := by decide
  have hother : (rules.dropLast.filterMap o.ruleHit?).filter Hit.isAboutOrigin = [] := by
    refine List.filter_eq_nil_iff.mpr fun h hh habout => ?_
    obtain ⟨r, hr, hhit⟩ := List.mem_filterMap.mp hh
    rw [Hit.isAboutOrigin, (of_ruleHit? hhit).2] at habout
    simpa [habout] using List.all_eq_true.mp hkinds r hr
  have hrules : rules = rules.dropLast ++ [originRule] :=
    (List.dropLast_append_getLast (List.cons_ne_nil _ _)).symm
  rw [hrules, List.filterMap_append, List.filter_append, hother, List.nil_append]
  cases hhit : o.ruleHit? originRule with
  | none => simp [hhit]
  | some h =>
      have habout : h.isAboutOrigin = true := by
        rw [Hit.isAboutOrigin, (of_ruleHit? hhit).2]
        decide
      simp [hhit, habout]

def originHits (o : Occurrence) : List Hit := o.hits.filter Hit.isAboutOrigin

/-- The hits in a member about origins are that of the general rule, and one more for
an origin below a key that speaks of requests across origins. -/
theorem originHits_cases (o : Occurrence) :
    ¬o.IsWildcardOrigin ∧ o.originHits = [] ∨
      o.IsWildcardOrigin ∧ ∃ general : Hit, general.IsIn o ∧ general.kind = wildcardOriginKind ∧
        (¬o.IsCorsOrigin ∧ o.originHits = [general] ∨
          o.IsCorsOrigin ∧ ∃ special : Hit, special.IsIn o ∧ special.kind = permissiveCorsKind ∧
            o.originHits = [general, special]) := by
  obtain ⟨special, hin, hkind, hhits⟩ := o.exists_hits_eq
  have habout : special.isAboutOrigin = true := by
    rw [Hit.isAboutOrigin, hkind]
    decide
  rw [originHits, hhits, List.filter_append, filter_ruleHits]
  cases hgeneral : o.ruleHit? originRule with
  | none =>
      have hnot : ¬o.IsWildcardOrigin := by simp [← isSome_ruleHit?_iff, hgeneral]
      refine .inl ⟨hnot, ?_⟩
      rw [if_neg fun hcors => ?_]
      · rfl
      obtain ⟨hcors, hstar⟩ := corsHits_iff.mp hcors
      exact hnot ⟨names?_of_origin hcors.1, hstar⟩
  | some general =>
      have hwildcard : o.IsWildcardOrigin := by simp [← isSome_ruleHit?_iff, hgeneral]
      obtain ⟨hgeneralIn, hgeneralKind⟩ := of_ruleHit? hgeneral
      refine .inr ⟨hwildcard, general, hgeneralIn, hgeneralKind, ?_⟩
      by_cases hcors : o.IsCorsOrigin
      · rw [if_pos (corsHits_iff.mpr ⟨hcors, hwildcard.2⟩)]
        exact .inr ⟨hcors, special, hin, hkind, by simp [habout]⟩
      · rw [if_neg fun hboth => hcors (corsHits_iff.mp hboth).1]
        exact .inl ⟨hcors, rfl⟩

end Occurrence

end Rules

section Suppression

variable {o : Occurrence} {os : List Occurrence}

theorem Hit.IsIn.path_eq {h : Hit} (hin : h.IsIn o) : h.path = o.path := by
  rw [Hit.path, Occurrence.path, hin.ancestors_eq, hin.key_eq]

/-- The paths of hits that stand in for those of the general rule. -/
def reportedPaths (hits : List Hit) : List String :=
  (hits.filter fun h => h.kind == permissiveCorsKind).map Hit.path

/-- Whether a hit is reported as another one. -/
def isRepeat (hits : List Hit) (h : Hit) : Bool :=
  h.kind == wildcardOriginKind && (reportedPaths hits).contains h.path

theorem withoutRepeats_eq (hits : List Hit) :
    withoutRepeats hits = hits.filter fun h => !isRepeat hits h := rfl

/-- The paths that are reported are those of origins below a key that speaks of
requests across origins. -/
theorem mem_reportedPaths_iff {path : String} :
    path ∈ reportedPaths (os.flatMap Occurrence.hits) ↔
      ∃ o ∈ os, o.IsWildcardOrigin ∧ o.IsCorsOrigin ∧ o.path = path := by
  simp only [reportedPaths, List.mem_map, List.mem_filter, List.mem_flatMap, beq_iff_eq]
  constructor
  · rintro ⟨h, ⟨⟨o, ho, hmem⟩, hkind⟩, rfl⟩
    have habout : h ∈ o.originHits :=
      List.mem_filter.mpr ⟨hmem, by simp [Hit.isAboutOrigin, hkind]⟩
    rcases o.originHits_cases with ⟨-, hnone⟩ | ⟨hwildcard, general, -, hgeneral, hcases⟩
    · simp [hnone] at habout
    -- The general rule has another kind, so the hit is the one besides.
    have hother : h ≠ general := by
      rintro rfl
      exact absurd (hgeneral.symm.trans hkind) (by decide)
    rcases hcases with ⟨-, hone⟩ | ⟨hcors, special, hspecial, -, hboth⟩
    · simp [hone, hother] at habout
    · obtain rfl : h = special := by simpa [hboth, hother] using habout
      exact ⟨o, ho, hwildcard, hcors, hspecial.path_eq.symm⟩
  · rintro ⟨o, ho, hwildcard, hcors, rfl⟩
    rcases o.originHits_cases with ⟨hnot, -⟩ | ⟨-, general, -, -, hcases⟩
    · exact absurd hwildcard hnot
    rcases hcases with ⟨hnot, -⟩ | ⟨-, special, hin, hkind, hboth⟩
    · exact absurd hcors hnot
    · have hmem : special ∈ o.originHits := by simp [hboth]
      exact ⟨special, ⟨⟨o, ho, List.mem_of_mem_filter hmem⟩, hkind⟩, hin.path_eq⟩

/-- The hit of the general rule is left out for origins below a key that speaks of
requests across origins, and for no other member. -/
theorem isRepeat_iff (ho : o ∈ os) (hwildcard : o.IsWildcardOrigin) {h : Hit} (hin : h.IsIn o)
    (hkind : h.kind = wildcardOriginKind) :
    isRepeat (os.flatMap Occurrence.hits) h = true ↔ o.IsCorsOrigin := by
  rw [isRepeat, hkind, beq_self_eq_true, Bool.true_and, List.contains_iff_mem,
    mem_reportedPaths_iff, hin.path_eq]
  constructor
  · rintro ⟨o', -, -, hcors, hpath⟩
    exact hcors.of_path_eq hwildcard.1 hpath
  · exact fun hcors => ⟨o, ho, hwildcard, hcors, rfl⟩

structure Occurrence.IsReportedBy (o : Occurrence) (h : Hit) : Prop where
  isIn : h.IsIn o
  valueText_eq : h.valueText = "*"
  kind_eq : o.IsCorsOrigin ∧ h.kind = permissiveCorsKind ∨
    ¬o.IsCorsOrigin ∧ h.kind = wildcardOriginKind

instance : DecidablePred Occurrence.IsWildcardOrigin :=
  fun _ => decidable_of_iff _ Occurrence.isSome_ruleHit?_iff

/-- Of the hits in a member about origins one is left if the member is a wildcard
origin. -/
theorem filter_withoutRepeats (ho : o ∈ os) :
    let left := o.originHits.filter fun h => !isRepeat (os.flatMap Occurrence.hits) h
    ¬o.IsWildcardOrigin ∧ left = [] ∨
      o.IsWildcardOrigin ∧ ∃ h, left = [h] ∧ o.IsReportedBy h := by
  intro left
  rcases o.originHits_cases with ⟨hnot, hnone⟩ | ⟨hwildcard, general, hin, hkind, hcases⟩
  · exact .inl ⟨hnot, by simp [left, hnone]⟩
  have hrepeat := isRepeat_iff ho hwildcard hin hkind
  refine .inr ⟨hwildcard, ?_⟩
  rcases hcases with ⟨hcors, hone⟩ | ⟨hcors, special, hspecial, hspecialKind, hboth⟩
  · refine ⟨general, ?_, hin, hin.valueText_eq.trans hwildcard.2.valueText_eq, .inr ⟨hcors, hkind⟩⟩
    have hkept : isRepeat (os.flatMap Occurrence.hits) general = false :=
      Bool.eq_false_iff.mpr (mt hrepeat.mp hcors)
    simp [left, hone, hkept]
  · refine ⟨special, ?_, hspecial, hspecial.valueText_eq.trans hwildcard.2.valueText_eq,
      .inl ⟨hcors, hspecialKind⟩⟩
    have hkept : isRepeat (os.flatMap Occurrence.hits) special = false := by
      rw [isRepeat, hspecialKind]
      rfl
    simp [left, hboth, hrepeat, hcors, hkept]

theorem forall₂_filter_flatMap {α β : Type} {R : α → β → Prop} {p : α → Prop} [DecidablePred p]
    {f : α → List β} {as : List α}
    (h : ∀ a ∈ as, ¬p a ∧ f a = [] ∨ p a ∧ ∃ b, f a = [b] ∧ R a b) :
    List.Forall₂ R (as.filter p) (as.flatMap f) := by
  induction as with
  | nil => exact .nil
  | cons a as ih =>
      obtain ⟨hfirst, hrest⟩ := List.forall_mem_cons.mp h
      rcases hfirst with ⟨hnot, hnone⟩ | ⟨hp, b, hone, hb⟩
      · simpa [hnot, hnone] using ih hrest
      · simpa [hp, hone, hb] using ih hrest

/-- Of the members that are not too deep exactly the wildcard origins are reported
as such, each one once, and one is reported as a permissive setting when it is an
origin below a key that speaks of requests across origins. All other hits stay. -/
theorem wildcard_origins_reported_once (documents : List Json) :
    ∃ places : List Occurrence, places.Nodup ∧
      (∀ o, o ∈ places ↔ o.LiesIn documents ∧ o.way.length ≤ maxDepth ∧ o.IsWildcardOrigin) ∧
      List.Forall₂ Occurrence.IsReportedBy places
        ((hitsOf documents).filter Hit.isAboutOrigin) ∧
      (hitsOf documents).filter (fun h => !h.isAboutOrigin) =
        (documents.flatMap (hitsIn [] false 0)).filter fun h => !h.isAboutOrigin := by
  have hhits := flatMap_hitsIn_eq 0 documents
  have hmembers (o : Occurrence) :
      o ∈ (occurrencesFrom 0 documents).filter Occurrence.isShallow ↔
        o.LiesIn documents ∧ o.way.length ≤ maxDepth := by
    rw [List.mem_filter, mem_occurrences_iff, Occurrence.isShallow, decide_eq_true_iff]
  have hnodup := (nodup_occurrencesFrom 0 documents).filter Occurrence.isShallow
  rw [hitsOf, withoutRepeats_eq, hhits, shallowHits]
  -- From here on only the members that are looked at matter, not how they are listed.
  generalize (occurrencesFrom 0 documents).filter Occurrence.isShallow = os at hmembers hnodup ⊢
  refine ⟨os.filter Occurrence.IsWildcardOrigin, hnodup.filter _, fun o => ?_, ?_, ?_⟩
  · rw [List.mem_filter, hmembers, decide_eq_true_iff, and_assoc]
  · rw [List.filter_comm, List.filter_flatMap, List.filter_flatMap]
    exact forall₂_filter_flatMap fun o ho => filter_withoutRepeats ho
  · rw [List.filter_filter]
    refine List.filter_congr fun h _ => ?_
    cases habout : h.isAboutOrigin with
    | true => rfl
    | false => simp [isRepeat, (Bool.or_eq_false_iff.mp habout).2]

-- The first two paths have the same text, `api.cors.origin`.
example :
    (hitsOf [.object [("api.cors", .object [("origin", .string "*")])],
        .object [("api", .object [("cors", .object [("origin", .string "*")]),
          ("origin", .string "*")])]]).map (fun h => (h.kind, h.ancestors)) =
      [(permissiveCorsKind, ["api.cors"]), (permissiveCorsKind, ["api", "cors"]),
        (wildcardOriginKind, ["api"])] := by
  decide +kernel

end Suppression

end WebAudit.Configuration
