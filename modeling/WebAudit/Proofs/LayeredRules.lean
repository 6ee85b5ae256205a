import Mathlib.Data.List.Induction
import WebAudit.Ignore.RuleSet
import WebAudit.Proofs.IgnoreRules

/-!
The rules of a scan, from the patterns that they are made of to what they say of
a path. Three layers stand one behind the other: the patterns that always hold,
the lines of the project's own ignore file and the patterns of the settings. A
pattern of the settings that is not well formed stops the scan, and the first
one is named; a line of the project's file that is not is passed over. What is
left is asked from the end: the last pattern that matches a path when it stands
alone decides.
-/

namespace WebAudit

def IsLast {α : Type} (p : α → Prop) (items : List α) (a : α) : Prop :=
  ∃ before after, items = before ++ a :: after ∧ p a ∧ ∀ later ∈ after, ¬p later

section

variable {α : Type} {p : α → Prop} {a b : α}

theorem not_isLast_nil : ¬IsLast p [] a := by
  rintro ⟨before, after, hitems, -⟩
  simp at hitems

private theorem concat_cases {items before after : List α}
    (hitems : items ++ [b] = before ++ a :: after) :
    after = [] ∧ a = b ∨ ∃ init, after = init ++ [b] ∧ items = before ++ a :: init := by
  rcases List.eq_nil_or_concat after with rfl | ⟨init, last, rfl⟩
  · have hlast := List.append_inj_right' hitems rfl
    exact .inl ⟨rfl, (List.singleton_inj.mp hlast).symm⟩
  · rw [List.concat_eq_append, ← List.cons_append, ← List.append_assoc] at hitems
    obtain ⟨hinit, hlast⟩ := List.append_inj' hitems rfl
    exact .inr ⟨init, by rw [List.concat_eq_append, hlast], hinit⟩

theorem isLast_concat_of_pos (items : List α) (hb : p b) : IsLast p (items ++ [b]) a ↔ a = b := by
  constructor
  · rintro ⟨before, after, hitems, -, hlater⟩
    rcases concat_cases hitems with ⟨-, hsame⟩ | ⟨init, rfl, -⟩
    · exact hsame
    · exact absurd hb (hlater b (by simp))
  · rintro rfl
    exact ⟨items, [], rfl, hb, by simp⟩

theorem isLast_concat_of_neg (items : List α) (hb : ¬p b) :
    IsLast p (items ++ [b]) a ↔ IsLast p items a := by
  constructor
  · rintro ⟨before, after, hitems, ha, hlater⟩
    rcases concat_cases hitems with ⟨-, rfl⟩ | ⟨init, rfl, hinit⟩
    · exact absurd ha hb
    · exact ⟨before, init, hinit, ha, fun later h => hlater later (List.mem_append_left _ h)⟩
  · rintro ⟨before, after, rfl, ha, hlater⟩
    refine ⟨before, after ++ [b], by simp, ha, ?_⟩
    intro later hmember
    rcases List.mem_append.mp hmember with hmember | hmember
    · exact hlater later hmember
    · rwa [List.mem_singleton.mp hmember]

end

namespace RuleSet

inductive Refused (pattern : String) : PatternFault → Prop
  | strict {cause : GlobError} (hglob : Glob.parse false (strictText pattern) = .error cause) :
      Refused pattern (.strict cause)
  | line {glob : Glob} {cause : GlobError}
      (hglob : Glob.parse false (strictText pattern) = .ok glob)
      (hline : IgnoreRule.ofLine pattern.toList = .error cause) : Refused pattern (.line cause)

theorem configured_eq_error_iff (pattern : String) (e : InvalidPattern) :
    configured pattern = .error e ↔ e.pattern = pattern ∧ Refused pattern e.fault := by
  obtain ⟨named, fault⟩ := e
  constructor
  · intro herror
    unfold configured at herror
    split at herror
    · rename_i cause hglob
      obtain ⟨rfl, rfl⟩ := InvalidPattern.mk.inj (Except.error.inj herror)
      exact ⟨rfl, .strict hglob⟩
    · rename_i glob hglob
      split at herror
      · rename_i cause hline
        obtain ⟨rfl, rfl⟩ := InvalidPattern.mk.inj (Except.error.inj herror)
        exact ⟨rfl, .line hglob hline⟩
      · cases herror
  · rintro ⟨hnamed, hrefused⟩
    obtain rfl : named = pattern := hnamed
    cases hrefused with
    | strict hglob => simp [configured, hglob]
    | line hglob hline => simp [configured, hglob, hline]

theorem configured_eq_ok {pattern : String} {rule : Option IgnoreRule}
    (hok : configured pattern = .ok rule) : IgnoreRule.of? pattern.toList = rule := by
  unfold configured at hok
  split at hok
  · cases hok
  · split at hok
    · cases hok
    · rename_i hline
      obtain rfl := Except.ok.inj hok
      rw [IgnoreRule.of?, hline]
      rfl

theorem configuredAll_eq_ok {patterns : List String} {rules : List IgnoreRule}
    (hok : configuredAll patterns = .ok rules) :
    rules = (patterns.map String.toList).filterMap IgnoreRule.of? := by
  induction patterns generalizing rules with
  | nil => exact (Except.ok.inj hok).symm
  | cons pattern rest ih =>
      cases hpattern : configured pattern with
      | error e => simp [configuredAll, hpattern, bind, Except.bind] at hok
      | ok rule =>
          cases hrest : configuredAll rest with
          | error e => simp [configuredAll, hpattern, hrest, bind, Except.bind] at hok
          | ok more =>
              simp only [configuredAll, hpattern, hrest, bind, Except.bind, pure, Except.pure,
                Except.ok.injEq] at hok
              rw [← hok, ih hrest, List.map_cons, List.filterMap_cons, configured_eq_ok hpattern]
              cases rule <;> rfl

/-- The first pattern that is refused, and why. -/
def FirstRefused (patterns : List String) (e : InvalidPattern) : Prop :=
  ∃ before after, patterns = before ++ e.pattern :: after ∧
    (∀ earlier ∈ before, ∀ fault, ¬Refused earlier fault) ∧ Refused e.pattern e.fault

theorem firstRefused_cons_iff (pattern : String) (rest : List String) (e : InvalidPattern) :
    FirstRefused (pattern :: rest) e ↔
      e.pattern = pattern ∧ Refused pattern e.fault ∨
        (∀ fault, ¬Refused pattern fault) ∧ FirstRefused rest e := by
  constructor
  · rintro ⟨before, after, hpatterns, hearlier, hrefused⟩
    cases before with
    | nil =>
        obtain ⟨rfl, rfl⟩ := List.cons.inj hpatterns
        exact .inl ⟨rfl, hrefused⟩
    | cons first before =>
        obtain ⟨rfl, rfl⟩ := List.cons.inj hpatterns
        obtain ⟨hfirst, hbefore⟩ := List.forall_mem_cons.mp hearlier
        exact .inr ⟨hfirst, before, after, rfl, hbefore, hrefused⟩
  · rintro (⟨rfl, hrefused⟩ | ⟨hpattern, before, after, rfl, hbefore, hrefused⟩)
    · exact ⟨[], rest, rfl, by simp, hrefused⟩
    · exact ⟨pattern :: before, after, rfl, List.forall_mem_cons.mpr ⟨hpattern, hbefore⟩, hrefused⟩

theorem exists_firstRefused_iff (patterns : List String) :
    (∃ e, FirstRefused patterns e) ↔ ∃ p ∈ patterns, ∃ fault, Refused p fault := by
  induction patterns with
  | nil => simp [FirstRefused]
  | cons pattern rest ih =>
      simp only [firstRefused_cons_iff, exists_or, List.mem_cons, exists_eq_or_imp]
      by_cases hpattern : ∃ fault, Refused pattern fault
      · obtain ⟨fault, hfault⟩ := hpattern
        exact ⟨fun _ => .inl ⟨fault, hfault⟩, fun _ => .inl ⟨⟨pattern, fault⟩, rfl, hfault⟩⟩
      · rw [not_exists] at hpattern
        simp [hpattern, ih]

theorem configuredAll_eq_error_iff (patterns : List String) (e : InvalidPattern) :
    configuredAll patterns = .error e ↔ FirstRefused patterns e := by
  induction patterns with
  | nil => simp [configuredAll, FirstRefused]
  | cons pattern rest ih =>
      rw [firstRefused_cons_iff, ← ih, ← configured_eq_error_iff, configuredAll]
      have hrefused : ∀ fault, Refused pattern fault →
          configured pattern = .error ⟨pattern, fault⟩ :=
        fun fault h => (configured_eq_error_iff pattern ⟨pattern, fault⟩).mpr ⟨rfl, h⟩
      cases hpattern : configured pattern with
      | error e' =>
          obtain ⟨-, hfault⟩ := (configured_eq_error_iff pattern e').mp hpattern
          constructor
          · exact fun herror => .inl (congrArg _ (Except.error.inj herror))
          · rintro (herror | ⟨hnone, -⟩)
            · exact congrArg _ (Except.error.inj herror)
            · exact absurd hfault (hnone e'.fault)
      | ok rule =>
          have hnone : ∀ fault, ¬Refused pattern fault := by
            intro fault h
            rw [hrefused fault h] at hpattern
            cases hpattern
          cases hrest : configuredAll rest with
          | error e' => simp [bind, Except.bind, hnone]
          | ok more => simp [bind, Except.bind, pure, Except.pure]

/-- Whether a line of a project's ignore file, without the blanks at its end,
holds a pattern: it is neither blank nor a comment, and it is well formed. -/
def isPatternLine (line : List Char) : Bool :=
  !(Text.trim line).isEmpty && (Text.trimStart line).head? != some '#' &&
    (IgnoreRule.ofLine line).toOption.isSome

def ownPatterns (text : String) : List (List Char) :=
  ((Text.lines text.toList).map Text.trimEnd).filter isPatternLine

/-- All patterns of a scan, later layers behind earlier ones. -/
def patternsInOrder (text : Option String) (patterns : List String) : List (List Char) :=
  defaultIgnorePatterns.map String.toList ++ (text.map ownPatterns).getD [] ++
    patterns.map String.toList

theorem fst_ofLines (lines : List (List Char)) :
    (ofLines lines).1 = lines.filterMap IgnoreRule.of? := by
  rw [ofLines, List.filterMap_filterMap]
  rfl

theorem filterMap_projectLines (text : String) :
    (projectLines text).filterMap IgnoreRule.of? =
      (ownPatterns text).filterMap IgnoreRule.of? := by
  rw [projectLines, ownPatterns, List.filterMap_filter, List.filterMap_filter]
  apply List.filterMap_congr
  intro line _
  unfold isPatternLine IgnoreRule.of?
  cases !(Text.trim line).isEmpty && (Text.trimStart line).head? != some '#' with
  | false => rfl
  | true => cases IgnoreRule.ofLine line <;> rfl

theorem build_eq_error_iff (root : Path) (text : Option String) (patterns : List String)
    (e : InvalidPattern) :
    build root text patterns = .error e ↔ FirstRefused patterns e := by
  rw [← configuredAll_eq_error_iff, build]
  cases configuredAll patterns <;> simp [bind, Except.bind, pure, Except.pure]

theorem of_build {root : Path} {text : Option String} {patterns : List String} {s : RuleSet}
    (hbuild : build root text patterns = .ok s) :
    s.root = root ∧ s.rules = (patternsInOrder text patterns).filterMap IgnoreRule.of? := by
  have hown : ((text.map projectLines).getD []).filterMap IgnoreRule.of? =
      ((text.map ownPatterns).getD []).filterMap IgnoreRule.of? := by
    cases text with
    | none => rfl
    | some text => exact filterMap_projectLines text
  cases hextra : configuredAll patterns with
  | error e =>
      rw [(build_eq_error_iff root text patterns e).mpr
        ((configuredAll_eq_error_iff patterns e).mp hextra)] at hbuild
      cases hbuild
  | ok extra =>
      simp only [build, hextra, bind, Except.bind, pure, Except.pure, Except.ok.injEq] at hbuild
      rw [← hbuild]
      simp only [fst_ofLines, hown, configuredAll_eq_ok hextra, patternsInOrder,
        List.filterMap_append, and_self]

def alone (root : Path) (pattern : List Char) : RuleSet :=
  ⟨root, [pattern].filterMap IgnoreRule.of?, 1⟩

def deciding? (s : RuleSet) (path : Path) (isDirectory : Bool) : Option IgnoreRule :=
  decidingRule? s.rules (Text.bytes (s.below path)) isDirectory

/-- A pattern matches a path when it stands alone. -/
def Matches (root path : Path) (isDirectory : Bool) (pattern : List Char) : Prop :=
  ((alone root pattern).deciding? path isDirectory).isSome

theorem deciding?_alone {s : RuleSet} {root : Path} (hroot : s.root = root) (path : Path)
    (isDirectory : Bool) (pattern : List Char) :
    (alone root pattern).deciding? path isDirectory =
      decidingRule? ([pattern].filterMap IgnoreRule.of?) (Text.bytes (s.below path))
        isDirectory := by
  have hbelow : (alone root pattern).below path = s.below path := by
    unfold below
    rw [hroot]
    rfl
  rw [deciding?, hbelow]
  rfl

theorem of?_of_deciding?_alone {root path : Path} {isDirectory : Bool} {pattern : List Char}
    {rule : IgnoreRule} (hdecides : (alone root pattern).deciding? path isDirectory = some rule) :
    IgnoreRule.of? pattern = some rule := by
  have hmember := mem_of_decidingRule? _ _ _ hdecides
  obtain ⟨pattern', hpattern, hrule⟩ := List.mem_filterMap.mp hmember
  rwa [List.mem_singleton.mp hpattern] at hrule

/-- Of some patterns the last one that matches a path when it stands alone
decides. -/
theorem ignores_iff_isLast {s : RuleSet} {root : Path} (hroot : s.root = root) (path : Path)
    (isDirectory : Bool) (patterns : List (List Char)) :
    ignores (patterns.filterMap IgnoreRule.of?) (Text.bytes (s.below path)) isDirectory ↔
      ∃ pattern, IsLast (Matches root path isDirectory) patterns pattern ∧
        pattern.head? ≠ some '!' := by
  induction patterns using List.reverseRecOn with
  | nil => simp [ignores, decidingRule?, not_isLast_nil]
  | append_singleton patterns pattern ih =>
      have halone := deciding?_alone hroot path isDirectory pattern
      rw [List.filterMap_append]
      cases hdecides : (alone root pattern).deciding? path isDirectory with
      | none =>
          have hmatches : ¬Matches root path isDirectory pattern := by
            simp [Matches, hdecides]
          rw [ignores_append_of_none _ _ _ _ (halone.symm.trans hdecides), ih]
          simp only [isLast_concat_of_neg patterns hmatches]
      | some rule =>
          have hmatches : Matches root path isDirectory pattern := by
            simp [Matches, hdecides]
          rw [ignores_append_of_some _ _ _ _ (halone.symm.trans hdecides),
            IgnoreRule.negated_eq (of?_of_deciding?_alone hdecides)]
          simp [isLast_concat_of_pos patterns hmatches]

/-- What the rules of a scan say of a path, given what they are made of. -/
def verdict (root : Path) (text : Option String) (patterns : List String) (path : Path)
    (isDirectory : Bool) : Except InvalidPattern Bool :=
  (build root text patterns).map fun s => s.isIgnored path isDirectory

/-- A line of a project's ignore file without a pattern: it is blank, a comment,
or not well formed. -/
inductive Idle (line : List Char) : Prop
  | blank (hblank : Text.Blank line)
  | comment (lead rest : List Char) (hlead : Text.Blank lead) (hline : line = lead ++ '#' :: rest)
  | malformed (cause : GlobError)
      (hline : IgnoreRule.ofLine (Text.trimEnd line) = .error cause)

theorem Idle.isPatternLine_eq {line : List Char} (hidle : Idle line) :
    isPatternLine (Text.trimEnd line) = false := by
  cases hidle with
  | blank hblank =>
      have hnil : Text.trimEnd line = [] := Text.trimEnd_append_blank hblank []
      rw [hnil]
      rfl
  | comment lead rest hlead hline =>
      have hhead : (Text.trimStart (Text.trimEnd line)).head? = some '#' := by
        rw [hline, Text.trimEnd_append_cons (by decide), Text.trimStart,
          List.dropWhile_append_of_pos hlead]
        rfl
      simp [isPatternLine, hhead]
  | malformed cause hline => simp [isPatternLine, hline, Except.toOption]

def ownPattern? (line : List Char) : Option (List Char) :=
  if isPatternLine (Text.trimEnd line) then some (Text.trimEnd line) else none

theorem ownPatterns_eq_filterMap (text : String) :
    ownPatterns text = (Text.lines text.toList).filterMap ownPattern? := by
  rw [ownPatterns, ← List.filterMap_eq_filter, List.filterMap_map]
  rfl

/-- The patterns of a file that is written line by line. -/
theorem ownPatterns_join {texts : List String} (hbreak : ∀ line ∈ texts, '\n' ∉ line.toList) :
    ownPatterns (Text.join "\n" texts) = (texts.map String.toList).filterMap ownPattern? := by
  have hreturn : ∀ line, ownPattern? (line ++ ['\r']) = ownPattern? line := by
    intro line
    have hblank : Text.Blank ['\r'] := by
      simp [Text.Blank]
      decide
    rw [ownPattern?, Text.trimEnd_append_blank hblank, ownPattern?]
  rw [ownPatterns_eq_filterMap, Text.join, String.toList_intercalate]
  apply Text.filterMap_lines_intercalate hreturn rfl
  simpa using hbreak

theorem ownPatterns_insert {before after : List String} {line : String}
    (hbreak : ∀ text ∈ before ++ line :: after, '\n' ∉ text.toList) (hidle : Idle line.toList) :
    ownPatterns (Text.join "\n" (before ++ line :: after)) =
      ownPatterns (Text.join "\n" (before ++ after)) := by
  have hnone : ownPattern? line.toList = none := by
    rw [ownPattern?, hidle.isPatternLine_eq]
    rfl
  have hrest : ∀ text ∈ before ++ after, '\n' ∉ text.toList := by
    intro text htext
    apply hbreak
    simp only [List.mem_append, List.mem_cons] at htext ⊢
    exact htext.imp id .inr
  rw [ownPatterns_join hbreak, ownPatterns_join hrest]
  simp [hnone]

theorem isIgnored_congr {s s' : RuleSet} (hroot : s.root = s'.root) (hrules : s.rules = s'.rules)
    (path : Path) (isDirectory : Bool) :
    s.isIgnored path isDirectory = s'.isIgnored path isDirectory := by
  unfold isIgnored below
  rw [hroot, hrules]

theorem verdict_congr {text text' : Option String}
    (hown : (text.map ownPatterns).getD [] = (text'.map ownPatterns).getD []) (root : Path)
    (patterns : List String) (path : Path) (isDirectory : Bool) :
    verdict root text patterns path isDirectory = verdict root text' patterns path isDirectory := by
  unfold verdict
  cases hbuild : build root text patterns with
  | error e =>
      rw [build_eq_error_iff, ← build_eq_error_iff root text'] at hbuild
      rw [hbuild]
  | ok s =>
      cases hbuild' : build root text' patterns with
      | error e =>
          rw [build_eq_error_iff, ← build_eq_error_iff root text, hbuild] at hbuild'
          cases hbuild'
      | ok s' =>
          obtain ⟨hroot, hrules⟩ := of_build hbuild
          obtain ⟨hroot', hrules'⟩ := of_build hbuild'
          have hsame : s.rules = s'.rules := by
            rw [hrules, hrules', patternsInOrder, patternsInOrder, hown]
          exact congrArg Except.ok (isIgnored_congr (hroot.trans hroot'.symm) hsame path isDirectory)

theorem default_patterns_valid :
    ∀ pattern ∈ defaultIgnorePatterns, (IgnoreRule.of? pattern.toList).isSome := by
  decide +kernel

/-- A scan has rules unless a pattern of the settings is refused, and then the
first such pattern is named. The last pattern that matches a path when it stands
alone decides about it: the path is ignored unless that pattern is negated.
Lines of the project's ignore file without a pattern make no difference,
wherever they stand. -/
theorem last_match_decides (root : Path) (text : Option String) (patterns : List String) :
    (∀ pattern ∈ defaultIgnorePatterns, (IgnoreRule.of? pattern.toList).isSome) ∧
    (∀ e, build root text patterns = .error e ↔ FirstRefused patterns e) ∧
    ((∃ e, build root text patterns = .error e) ↔ ∃ p ∈ patterns, ∃ fault, Refused p fault) ∧
    (∀ s, build root text patterns = .ok s →
      ∀ path isDirectory, path.same root = false →
        (s.isIgnored path isDirectory ↔
          ∃ pattern, pattern.head? ≠ some '!' ∧
            IsLast (Matches root path isDirectory) (patternsInOrder text patterns) pattern)) ∧
    ∀ (before after : List String) (line : String),
      (∀ text ∈ before ++ line :: after, '\n' ∉ text.toList) → Idle line.toList →
      ∀ path isDirectory,
        verdict root (some (Text.join "\n" (before ++ line :: after))) patterns path isDirectory =
          verdict root (some (Text.join "\n" (before ++ after))) patterns path isDirectory := by
  refine ⟨default_patterns_valid, build_eq_error_iff root text patterns, ?_, ?_, ?_⟩
  · simp only [build_eq_error_iff]
    exact exists_firstRefused_iff patterns
  · intro s hbuild path isDirectory hother
    obtain ⟨hroot, hrules⟩ := of_build hbuild
    rw [isIgnored, hroot, hother, hrules, Bool.not_false, Bool.true_and,
      ignores_iff_isLast hroot path isDirectory]
    simp only [and_comm]
  · intro before after line hbreak hidle path isDirectory
    apply verdict_congr
    exact ownPatterns_insert hbreak hidle

end RuleSet

end WebAudit
