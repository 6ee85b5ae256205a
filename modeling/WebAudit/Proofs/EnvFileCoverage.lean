import WebAudit.Detector.EnvCoverage
import WebAudit.Proofs.IgnoreRules
import WebAudit.Proofs.PathComponents

/-!
What one more line in an ignore file does to the files with environment
variables. A line that is not negated covers more of them or the same ones, so
nothing new is reported; the line `.env*`, which the findings advise, covers all
of them, and `!.env.example` behind it takes none of them back. A line that is
put behind a text without a line feed at its end closes the last line of the
text. That line may then be read otherwise than before, when a carriage return
stood behind an escaped blank, but neither reading matches one of the files.
-/

namespace WebAudit.EnvCoverage

structure Exposed (rules : List IgnoreRule) (name : String) : Prop where
  variant : name ∈ variants
  kept : ignores rules (Text.bytes name.toList) false = false

theorem mem_uncovered_iff {rules : List IgnoreRule} {name : String} :
    name ∈ uncovered rules ↔ Exposed rules name := by
  rw [uncovered, List.mem_filter, Bool.not_eq_true']
  exact ⟨fun h => ⟨h.1, h.2⟩, fun h => ⟨h.variant, h.kept⟩⟩

section Findings

def listed (f : Finding) : List String :=
  match f.payload with
  | .pattern names => (Text.splitOn ',' names.toList).map String.ofList
  | _ => []

/-- A file that is among those that findings give as not covered. -/
def Reported (findings : List Finding) (name : String) : Prop :=
  ∃ f ∈ findings, f.kind = uncoveredKind ∧ name ∈ listed f

theorem listed_uncoveredReport (root : Path) {names : List String} (hne : names ≠ [])
    (hcomma : ∀ name ∈ names, ',' ∉ name.toList) : listed (uncoveredReport root names) = names := by
  have hnames : (Text.join "," names).toList = [','].intercalate (names.map String.toList) :=
    String.toList_intercalate
  have hpieces : ∀ piece ∈ names.map String.toList, ',' ∉ piece := by
    intro piece hpiece
    obtain ⟨name, hname, rfl⟩ := List.mem_map.mp hpiece
    exact hcomma name hname
  change (Text.splitOn ',' (Text.join "," names).toList).map String.ofList = names
  rw [hnames, Text.splitOn_eq, List.splitOn_intercalate ',' hpieces (by simpa using hne),
    List.map_map]
  simp [Function.comp_def]

variable {tree : Entry} {root : Path} {text : String}

theorem mem_check_of_missing (hmissing : tree.read (root.join ".gitignore") = .error .notFound)
    {name : String} (hname : name ∈ variants) (hfile : tree.hasFile (root.join name) = true) :
    trackedReport root name ∈ check tree root := by
  rw [check, hmissing]
  exact List.mem_cons_of_mem _ (List.mem_map_of_mem (List.mem_filter.mpr ⟨hname, hfile⟩))

variable (hread : tree.read (root.join ".gitignore") = .ok text)

include hread

theorem mem_check_iff (f : Finding) :
    f ∈ check tree root ↔
      uncovered (rulesOf text) ≠ [] ∧ f = uncoveredReport root (uncovered (rulesOf text)) ∨
        ∃ name, Exposed (rulesOf text) name ∧ tree.hasFile (root.join name) = true ∧
          f = trackedReport root name := by
  have hpresent : ∀ name, (name ∈ variants ∧ tree.hasFile (root.join name) = true) ∧
      name ∈ uncovered (rulesOf text) ↔
        Exposed (rulesOf text) name ∧ tree.hasFile (root.join name) = true := by
    intro name
    rw [mem_uncovered_iff]
    exact ⟨fun h => ⟨h.2, h.1.2⟩, fun h => ⟨⟨h.1.variant, h.2⟩, h.1⟩⟩
  rw [check, hread, assess, List.mem_append]
  apply or_congr
  · split
    · rename_i hempty
      simp [List.isEmpty_iff.mp hempty]
    · rename_i hne
      rw [List.mem_singleton, and_iff_right (mt List.isEmpty_iff.mpr hne)]
  · simp only [List.mem_map, List.mem_filter, List.contains_iff_mem, hpresent, and_assoc,
      eq_comm (a := f)]

theorem reported_iff (name : String) :
    Reported (check tree root) name ↔ Exposed (rulesOf text) name := by
  have hcomma : ∀ name ∈ uncovered (rulesOf text), ',' ∉ name.toList := by
    intro name hname
    have hall : ∀ name ∈ variants, ',' ∉ name.toList := by decide +kernel
    exact hall name (mem_uncovered_iff.mp hname).variant
  rw [← mem_uncovered_iff]
  constructor
  · rintro ⟨f, hf, hkind, hname⟩
    rcases (mem_check_iff hread f).mp hf with ⟨hne, rfl⟩ | ⟨name', -, -, rfl⟩
    · rwa [listed_uncoveredReport root hne hcomma] at hname
    · cases hname
  · intro hname
    have hne := List.ne_nil_of_mem hname
    refine ⟨_, (mem_check_iff hread _).mpr (.inl ⟨hne, rfl⟩), rfl, ?_⟩
    rwa [listed_uncoveredReport root hne hcomma]

theorem tracked_iff (f : Finding) :
    f ∈ check tree root ∧ f.kind = trackedKind ↔
      ∃ name, Exposed (rulesOf text) name ∧ tree.hasFile (root.join name) = true ∧
        f = trackedReport root name := by
  rw [mem_check_iff hread]
  constructor
  · rintro ⟨⟨-, rfl⟩ | htracked, hkind⟩
    · exact absurd hkind (by decide : uncoveredKind ≠ trackedKind)
    · exact htracked
  · rintro ⟨name, hname, hfile, rfl⟩
    exact ⟨.inr ⟨name, hname, hfile, rfl⟩, rfl⟩

theorem check_eq_nil (hcovered : ∀ name, ¬Exposed (rulesOf text) name) : check tree root = [] := by
  rw [List.eq_nil_iff_forall_not_mem]
  intro f hf
  rcases (mem_check_iff hread f).mp hf with ⟨hne, -⟩ | ⟨name, hname, -⟩
  · obtain ⟨name, hname⟩ := List.exists_mem_of_ne_nil _ hne
    exact hcovered name (mem_uncovered_iff.mp hname)
  · exact hcovered name hname

end Findings

section Lines

theorem rulesOf_eq (text : String) :
    rulesOf text = (Text.lines text.toList).filterMap IgnoreRule.of? := by
  apply List.filterMap_congr
  intro line _
  unfold IgnoreRule.of?
  cases IgnoreRule.ofLine line <;> rfl

/-- A text whose last line is closed by a line feed. -/
def closed (cs : List Char) : List Char :=
  if cs.getLast?.all (· == '\n') then cs else cs ++ ['\n']

/-- A text that is another one with one more line at its end. The line feed behind
that line may be missing. -/
def IsAppended (text line longer : String) : Prop :=
  '\n' ∉ line.toList ∧ closed longer.toList = closed text.toList ++ (line.toList ++ ['\n'])

instance (text line longer : String) : Decidable (IsAppended text line longer) :=
  inferInstanceAs (Decidable (_ ∧ _))

/-- The rules of a line that is closed by a line feed. -/
def lineRules (line : List Char) : List IgnoreRule :=
  (IgnoreRule.of? (Text.stripReturn line.reverse).reverse).toList

theorem filterMap_lines_append_break {line : List Char} (hline : '\n' ∉ line) {front : List Char}
    (hfront : ∀ c ∈ front.getLast?, c = '\n') :
    (Text.lines (front ++ (line ++ ['\n']))).filterMap IgnoreRule.of? =
      (Text.lines front).filterMap IgnoreRule.of? ++ lineRules line := by
  rw [Text.lines_append hfront, Text.lines_append_break hline, List.filterMap_append]
  rfl

theorem getLast?_closed (cs : List Char) : ∀ c ∈ (closed cs).getLast?, c = '\n' := by
  intro c hc
  unfold closed at hc
  split at hc
  · rename_i hlast
    rw [hc] at hlast
    simpa using hlast
  · rw [List.getLast?_concat] at hc
    exact (Option.some.inj hc).symm

/-- A text is cut behind its last line feed. -/
theorem exists_last_line (cs : List Char) :
    ∃ front last, cs = front ++ last ∧ (∀ c ∈ front.getLast?, c = '\n') ∧ '\n' ∉ last := by
  refine ⟨(cs.reverse.dropWhile (· != '\n')).reverse, (cs.reverse.takeWhile (· != '\n')).reverse,
    ?_, ?_, ?_⟩
  · rw [← List.reverse_append, List.takeWhile_append_dropWhile, List.reverse_reverse]
  · intro c hc
    rw [List.getLast?_reverse] at hc
    simpa using Text.head_dropWhile hc
  · rw [List.mem_reverse]
    exact Text.mark_not_mem_cut

variable {name : String} (hname : name ∈ variants)

include hname

/-- No file with environment variables ends in a blank or a backslash. -/
theorem not_isSuffix_bytes {c : Char} (hc : c = ' ' ∨ c = '\\') :
    ¬Text.utf8Bytes c <:+ Text.bytes name.toList := by
  have hlast : ∀ name ∈ variants, (Text.bytes name.toList).getLast? ≠ some 32 ∧
      (Text.bytes name.toList).getLast? ≠ some 92 := by
    decide +kernel
  obtain ⟨hblank, hbackslash⟩ := hlast name hname
  rintro ⟨front, hfront⟩
  rw [← hfront] at hblank hbackslash
  rcases hc with rfl | rfl
  · exact hblank List.getLast?_concat
  · exact hbackslash List.getLast?_concat

/-- A line that ends in a blank or a backslash matches none of the files. -/
theorem decidingRule?_eq_none {line : List Char} {c : Char} (hc : c = ' ' ∨ c = '\\')
    (hlast : (IgnoreRule.trimLine line).getLast? = some c) :
    decidingRule? (IgnoreRule.of? line).toList (Text.bytes name.toList) false = none := by
  rw [decidingRule?_eq_none_iff]
  intro rule hrule
  rw [Bool.eq_false_iff]
  intro haccepts
  have hplain : Glob.IsPlainEnd c ∧ '!' ≠ c := by
    unfold Glob.IsPlainEnd
    rcases hc with rfl | rfl <;> decide
  exact not_isSuffix_bytes hname hc (IgnoreRule.isSuffix_of_accepts hplain.1 hplain.2 hlast
    (Option.mem_toList.mp hrule) haccepts)

/-- A carriage return at the end of a line makes no difference to the files. -/
theorem decidingRule?_return (line : List Char) :
    decidingRule? (IgnoreRule.of? (line ++ ['\r'])).toList (Text.bytes name.toList) false =
      decidingRule? (IgnoreRule.of? line).toList (Text.bytes name.toList) false := by
  have htrim : IgnoreRule.trimLine (line ++ ['\r']) = Text.trimEnd line := by
    have hblank : Text.Blank ['\r'] := by
      intro c hc
      rw [List.mem_singleton.mp hc]
      rfl
    have hends : ¬"\\ ".toList <:+ line ++ ['\r'] := by
      rintro ⟨front, hfront⟩
      have hlast := congrArg List.getLast? hfront
      rw [List.getLast?_append, List.getLast?_concat] at hlast
      cases hlast
    rw [IgnoreRule.trimLine, if_neg (mt Text.endsWith_iff.mp hends),
      Text.trimEnd_append_blank hblank]
  -- an escaped blank is kept where nothing stands behind it and is cut off before
  -- a carriage return, so the two readings end in different characters
  by_cases hescaped : "\\ ".toList <:+ line
  · have hline : IgnoreRule.trimLine line = line := if_pos (Text.endsWith_iff.mpr hescaped)
    obtain ⟨front, rfl⟩ := hescaped
    rw [decidingRule?_eq_none hname (.inr rfl), decidingRule?_eq_none hname (.inl rfl)]
    · rw [hline, List.getLast?_append]
      rfl
    · rw [htrim]
      exact (congrArg _ (Text.trimEnd_append_cons rfl front [' '])).trans List.getLast?_concat
  · have hline : IgnoreRule.trimLine line = Text.trimEnd line :=
      if_neg (mt Text.endsWith_iff.mp hescaped)
    have hrule : IgnoreRule.of? (line ++ ['\r']) = IgnoreRule.of? line := by
      apply IgnoreRule.of?_congr (htrim.trans hline.symm)
      cases line <;> rfl
    rw [hrule]

/-- Closing the last line of a text makes no difference to the files. -/
theorem ignores_closed (cs : List Char) :
    ignores ((Text.lines (closed cs)).filterMap IgnoreRule.of?) (Text.bytes name.toList) false =
      ignores ((Text.lines cs).filterMap IgnoreRule.of?) (Text.bytes name.toList) false := by
  unfold closed
  split
  · rfl
  · rename_i hopen
    obtain ⟨front, last, rfl, hfront, hlast⟩ := exists_last_line cs
    have hne : last.isEmpty = false := by
      rw [Bool.eq_false_iff, Ne, List.isEmpty_iff]
      rintro rfl
      apply hopen
      rw [List.append_nil]
      cases hlast : front.getLast? with
      | none => rfl
      | some c => exact beq_iff_eq.mpr (hfront c hlast)
    have hlines : (Text.lines (front ++ last)).filterMap IgnoreRule.of? =
        (Text.lines front).filterMap IgnoreRule.of? ++ (IgnoreRule.of? last).toList := by
      rw [Text.lines_append hfront, Text.lines_of_unbroken hlast, hne, List.filterMap_append]
      rfl
    -- the texts differ in their last line, and there in a carriage return at most
    have hsame : decidingRule? (lineRules last) (Text.bytes name.toList) false =
        decidingRule? (IgnoreRule.of? last).toList (Text.bytes name.toList) false := by
      unfold lineRules
      rcases Text.stripReturn_cases last with hplain | hreturn
      · rw [hplain]
      · have hreturn' := decidingRule?_return hname (Text.stripReturn last.reverse).reverse
        rw [← hreturn] at hreturn'
        exact hreturn'.symm
    rw [List.append_assoc, filterMap_lines_append_break hlast hfront, hlines, ignores, ignores,
      decidingRule?_append, decidingRule?_append, hsame]

/-- The rule of one more line decides, if it matches a file. -/
theorem ignores_appended {text line longer : String} (hlonger : IsAppended text line longer) :
    ignores (rulesOf longer) (Text.bytes name.toList) false =
      ((decidingRule? (lineRules line.toList) (Text.bytes name.toList) false).map
        fun rule => !rule.negated).getD
          (ignores (rulesOf text) (Text.bytes name.toList) false) := by
  rw [rulesOf_eq, rulesOf_eq, ← ignores_closed hname longer.toList, hlonger.2,
    filterMap_lines_append_break hlonger.1 (getLast?_closed _), ← ignores_closed hname text.toList]
  cases hrule : decidingRule? (lineRules line.toList) (Text.bytes name.toList) false with
  | none => exact ignores_append_of_none _ _ _ _ hrule
  | some rule => exact ignores_append_of_some _ _ _ _ hrule

end Lines

/-- A rule of a line that does not start with an exclamation mark is not negated. -/
theorem negated_of_mem_lineRules {line : List Char} {rule : IgnoreRule}
    (hline : line.head? ≠ some '!') (hrule : rule ∈ lineRules line) : rule.negated = false := by
  rw [IgnoreRule.negated_eq (Option.mem_toList.mp hrule), beq_eq_false_iff_ne]
  rcases Text.stripReturn_cases line with hplain | hreturn
  · rwa [hplain]
  · intro hhead
    apply hline
    rw [hreturn, List.head?_append, hhead, Option.some_or]

/-- A line that is not negated exposes no file. -/
theorem Exposed.of_appended {text line longer name : String}
    (hlonger : IsAppended text line longer) (hpositive : line.toList.head? ≠ some '!')
    (hname : Exposed (rulesOf longer) name) : Exposed (rulesOf text) name := by
  refine ⟨hname.variant, ?_⟩
  have hkept := hname.kept
  rw [ignores_appended hname.variant hlonger] at hkept
  cases hrule : decidingRule? (lineRules line.toList) (Text.bytes name.toList) false with
  | none => rwa [hrule] at hkept
  | some rule =>
      have hmember := mem_of_decidingRule? _ _ _ hrule
      rw [hrule, Option.map_some, negated_of_mem_lineRules hpositive hmember] at hkept
      cases hkept

section Advice

variable {text longer name : String}

theorem ignores_advised (hlonger : IsAppended text ".env*" longer) (hname : name ∈ variants) :
    ignores (rulesOf longer) (Text.bytes name.toList) false = true := by
  have hcovers : ∀ name ∈ variants,
      (decidingRule? (lineRules ".env*".toList) (Text.bytes name.toList) false).map
        (fun rule => !rule.negated) = some true := by
    decide +kernel
  rw [ignores_appended hname hlonger, hcovers name hname]
  rfl

theorem ignores_template (hlonger : IsAppended text "!.env.example" longer)
    (hname : name ∈ variants) :
    ignores (rulesOf longer) (Text.bytes name.toList) false =
      ignores (rulesOf text) (Text.bytes name.toList) false := by
  have hspares : ∀ name ∈ variants,
      (decidingRule? (lineRules "!.env.example".toList) (Text.bytes name.toList) false).map
        (fun rule => !rule.negated) = none := by
    decide +kernel
  rw [ignores_appended hname hlonger, hspares name hname]
  rfl

end Advice

/-- Two trees with the same files with environment variables below a root; the
second one has a text in its ignore file. -/
structure Edited (before after : Entry) (root : Path) (text : String) : Prop where
  read : after.read (root.join ".gitignore") = .ok text
  present : ∀ name ∈ variants, after.hasFile (root.join name) = before.hasFile (root.join name)

/-- The files that are given as not covered, and the findings about files that are
there, are those of the rules of the ignore file. A line that is not negated at
the end of that file adds neither, and a new ignore file adds none about a file
that is there; the line `.env*` leaves no finding, also with `!.env.example`
behind it. -/
theorem appended_lines_cover (root : Path) (text : String) :
    (∀ tree : Entry, tree.read (root.join ".gitignore") = .ok text →
      (∀ name, Reported (check tree root) name ↔ Exposed (rulesOf text) name) ∧
      ∀ f, f ∈ check tree root ∧ f.kind = trackedKind ↔
        ∃ name, Exposed (rulesOf text) name ∧ tree.hasFile (root.join name) = true ∧
          f = trackedReport root name) ∧
    (∀ (before after : Entry) (line longer : String), IsAppended text line longer →
      line.toList.head? ≠ some '!' → before.read (root.join ".gitignore") = .ok text →
      Edited before after root longer →
        (∀ name, Reported (check after root) name → Reported (check before root) name) ∧
        ∀ f ∈ check after root, f.kind = trackedKind → f ∈ check before root) ∧
    (∀ before after : Entry, before.read (root.join ".gitignore") = .error .notFound →
      Edited before after root text →
        ∀ f ∈ check after root, f.kind = trackedKind → f ∈ check before root) ∧
    ∀ (tree : Entry) (advised : String), IsAppended text ".env*" advised →
      (tree.read (root.join ".gitignore") = .ok advised → check tree root = []) ∧
      ∀ longer, IsAppended advised "!.env.example" longer →
        tree.read (root.join ".gitignore") = .ok longer → check tree root = [] := by
  refine ⟨fun tree hread => ⟨reported_iff hread, tracked_iff hread⟩, ?_, ?_, ?_⟩
  · intro before after line longer hlonger hpositive hbefore hedited
    constructor
    · intro name hname
      rw [reported_iff hedited.read] at hname
      rw [reported_iff hbefore]
      exact hname.of_appended hlonger hpositive
    · intro f hf hkind
      obtain ⟨name, hname, hfile, hreport⟩ := (tracked_iff hedited.read f).mp ⟨hf, hkind⟩
      rw [hedited.present name hname.variant] at hfile
      exact ((tracked_iff hbefore f).mpr
        ⟨name, hname.of_appended hlonger hpositive, hfile, hreport⟩).1
  · intro before after hmissing hedited f hf hkind
    obtain ⟨name, hname, hfile, rfl⟩ := (tracked_iff hedited.read f).mp ⟨hf, hkind⟩
    rw [hedited.present name hname.variant] at hfile
    exact mem_check_of_missing hmissing hname.variant hfile
  · intro tree advised hadvised
    constructor
    · intro hread
      apply check_eq_nil hread
      intro name hname
      exact Bool.false_ne_true (hname.kept.symm.trans (ignores_advised hadvised hname.variant))
    · intro longer hlonger hread
      apply check_eq_nil hread
      intro name hname
      have hkept := hname.kept
      rw [ignores_template hlonger hname.variant, ignores_advised hadvised hname.variant] at hkept
      cases hkept

def project (ignoreFile : String) : Entry :=
  .directory [("app", .directory
    [(".gitignore", .file (.text ignoreFile)), (".env", .file (.text "TOKEN=1"))])]

/-- The last line of the text ends in an escaped blank and a carriage return, and
is closed by the line behind it. -/
theorem project_covered :
    Reported (check (project ".env.local\n.env\\ \r") ⟨"app"⟩) ".env" ∧
      (∀ name, Reported (check (project ".env.local\n.env\\ \r\n.env.*") ⟨"app"⟩) name →
        Reported (check (project ".env.local\n.env\\ \r") ⟨"app"⟩) name) ∧
      check (project ".env.local\n.env\\ \r\n.env*\n") ⟨"app"⟩ = [] := by
  obtain ⟨hfindings, hmore, -, hadvice⟩ := appended_lines_cover ⟨"app"⟩ ".env.local\n.env\\ \r"
  have hread : (project ".env.local\n.env\\ \r").read (Path.join ⟨"app"⟩ ".gitignore") =
      .ok ".env.local\n.env\\ \r" := by
    decide +kernel
  have hlonger : IsAppended ".env.local\n.env\\ \r" ".env.*" ".env.local\n.env\\ \r\n.env.*" := by
    decide +kernel
  have hadvised : IsAppended ".env.local\n.env\\ \r" ".env*" ".env.local\n.env\\ \r\n.env*\n" := by
    decide +kernel
  refine ⟨((hfindings _ hread).1 _).mpr ⟨by decide, by decide +kernel⟩, ?_, ?_⟩
  · exact (hmore _ _ _ _ hlonger (by decide) hread ⟨by decide +kernel, by decide +kernel⟩).1
  · exact (hadvice _ _ hadvised).1 (by decide +kernel)

end WebAudit.EnvCoverage
