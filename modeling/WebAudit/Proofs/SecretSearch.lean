import WebAudit.Detector.Secrets
import WebAudit.Proofs.FirstOfEach

/-!
The search of a file against what it finds in each line. One search with one set
of lines and kinds goes through all lines, and within a line through all rules and
then through the tokens. Before a line the set holds only lines further up, so
what was reported there hides nothing here; within the line it holds the kinds
that the line has been reported under. So each line adds what a search of its own
would find: the first value of each kind, and then the first random token beside
the values.
-/

namespace WebAudit.Secrets

open Text

/-- The value of an occurrence, where its rule accepts it. -/
def Rule.hit? (settings : SecretSettings) (rule : Rule) (m : Match) : Option Hit :=
  let value := (m.group? 1).getD m.text
  if rule.accepts settings value then some ⟨rule, m.start, m.stop, value⟩ else none

def Rule.hits (settings : SecretSettings) (line : List Char) (rule : Rule) : List Hit :=
  (rule.pattern.matchesIn line).filterMap (rule.hit? settings)

def hits (settings : SecretSettings) (inEnvFile : Bool) (line : List Char) : List Hit :=
  (rules.filter fun r => inEnvFile || !r.envOnly).flatMap (Rule.hits settings line)

/-- The first token of a line that looks random, if lines are searched for
one. -/
def suspiciousToken? (settings : SecretSettings) (found : List Hit) (line : List Char) :
    Option (List Char) :=
  if settings.entropyScan && byteLength line ≤ maxEntropyLine then
    ((tokenPattern.matchesIn line).find? (isSuspicious settings found)).map Match.text
  else none

/-- What a search of one line on its own finds. -/
def inLine (settings : SecretSettings) (inEnvFile : Bool) (location : Location)
    (line : List Char) : List Finding :=
  if isSuppressed line then []
  else
    let found := hits settings inEnvFile line
    let random := if inEnvFile then none else suspiciousToken? settings found line
    (firstOfEach (Hit.kind inEnvFile) found).map (Hit.report inEnvFile location) ++
      random.toList.map (entropyReport location)

/-- What searches of lines on their own find, the first one with the given
number. -/
def inLines (settings : SecretSettings) (inEnvFile : Bool) (path : Path) :
    Nat → List (List Char) → List Finding
  | _, [] => []
  | n, line :: rest =>
    inLine settings inEnvFile (.atLine path n) line ++ inLines settings inEnvFile path (n + 1) rest

/-- A search has reported nothing on a line or below it. -/
def Search.IsAbove (s : Search) (n : Nat) : Prop := ∀ slot ∈ s.seen, slot.1 < n

section Line

variable (settings : SecretSettings) (inEnvFile : Bool) (path : Path) (n : Nat)

section Values

variable {s : Search}

/-- A step for one value: it is reported unless its kind is among those that the
line has been reported under. -/
theorem Search.add_of_kinds {kinds : List String} (h : Hit)
    (hkinds : ∀ kind, (n, kind) ∈ s.seen ↔ kind ∈ kinds) :
    s.add inEnvFile path n h =
      if kinds.contains (h.kind inEnvFile) then s
      else ⟨s.findings ++ [h.report inEnvFile (.atLine path n)],
        (n, h.kind inEnvFile) :: s.seen⟩ := by
  have hsame : s.seen.contains (n, h.kind inEnvFile) = kinds.contains (h.kind inEnvFile) := by
    rw [Bool.eq_iff_iff, List.contains_iff_mem, List.contains_iff_mem, hkinds]
  rw [add, hsame]

theorem Search.findings_foldl_add {kinds : List String} (found : List Hit)
    (hkinds : ∀ kind, (n, kind) ∈ s.seen ↔ kind ∈ kinds) :
    (found.foldl (add inEnvFile path n) s).findings =
      s.findings ++ (firstOfEachFrom (Hit.kind inEnvFile) kinds found).map
        (Hit.report inEnvFile (.atLine path n)) := by
  induction found generalizing s kinds with
  | nil => simp [firstOfEachFrom]
  | cons h rest ih =>
      rw [List.foldl_cons, add_of_kinds inEnvFile path n h hkinds, firstOfEachFrom]
      split
      · exact ih hkinds
      · have hmore : ∀ kind, (n, kind) ∈ (n, h.kind inEnvFile) :: s.seen ↔
            kind ∈ h.kind inEnvFile :: kinds := by
          simp [hkinds]
        rw [ih hmore, List.append_assoc]
        rfl

theorem Search.isAbove_foldl_add (found : List Hit) (hs : s.IsAbove (n + 1)) :
    (found.foldl (add inEnvFile path n) s).IsAbove (n + 1) := by
  induction found generalizing s with
  | nil => exact hs
  | cons h rest ih =>
      apply ih
      unfold add
      dsimp only
      split
      · exact hs
      · rw [IsAbove, List.forall_mem_cons]
        exact ⟨Nat.lt_succ_self n, hs⟩

end Values

section Rules

def LineSearch.addAll (s : LineSearch) (found : List Hit) : LineSearch :=
  ⟨found.foldl (Search.add inEnvFile path n) s.search, s.found ++ found⟩

theorem LineSearch.addAll_nil (s : LineSearch) : s.addAll inEnvFile path n [] = s := by
  rw [addAll, List.append_nil, List.foldl_nil]

theorem LineSearch.addAll_append (s : LineSearch) (found more : List Hit) :
    s.addAll inEnvFile path n (found ++ more) =
      (s.addAll inEnvFile path n found).addAll inEnvFile path n more := by
  simp only [addAll, List.foldl_append, List.append_assoc]

theorem LineSearch.tryMatch_eq (rule : Rule) (s : LineSearch) (m : Match) :
    s.tryMatch settings inEnvFile path n rule m =
      s.addAll inEnvFile path n (rule.hit? settings m).toList := by
  unfold tryMatch Rule.hit?
  dsimp only
  split
  · rfl
  · exact (s.addAll_nil inEnvFile path n).symm

theorem LineSearch.foldl_tryMatch (rule : Rule) (ms : List Match) (s : LineSearch) :
    ms.foldl (tryMatch settings inEnvFile path n rule) s =
      s.addAll inEnvFile path n (ms.filterMap (rule.hit? settings)) := by
  induction ms generalizing s with
  | nil => exact (s.addAll_nil inEnvFile path n).symm
  | cons m rest ih =>
      rw [List.foldl_cons, ih, tryMatch_eq, ← addAll_append, List.filterMap_cons]
      cases rule.hit? settings m <;> rfl

/-- The rules find their values one after the other, each from where the one
before it has left the search. -/
theorem LineSearch.foldl_tryRule (line : List Char) (rs : List Rule) (s : LineSearch) :
    rs.foldl (tryRule settings inEnvFile path n line) s =
      s.addAll inEnvFile path n
        ((rs.filter fun r => inEnvFile || !r.envOnly).flatMap (Rule.hits settings line)) := by
  induction rs generalizing s with
  | nil => exact (s.addAll_nil inEnvFile path n).symm
  | cons rule rest ih =>
      have htried : (inEnvFile || !rule.envOnly) = !(rule.envOnly && !inEnvFile) := by
        cases inEnvFile <;> simp
      rw [List.foldl_cons, ih, tryRule, List.filter_cons, htried]
      split
      · rename_i hskip
        rw [if_neg (by simp [hskip])]
      · rename_i hskip
        rw [if_pos (by simp [hskip]), foldl_tryMatch, List.flatMap_cons, addAll_append]
        rfl

theorem LineSearch.foldl_rules (line : List Char) (s : Search) :
    rules.foldl (tryRule settings inEnvFile path n line) ⟨s, []⟩ =
      ⟨(hits settings inEnvFile line).foldl (Search.add inEnvFile path n) s,
        hits settings inEnvFile line⟩ := by
  rw [foldl_tryRule, addAll, List.nil_append, hits]

end Rules

section Tokens

variable (found : List Hit)

theorem Search.foldl_tryToken_done (tokens : List Match) (s : Search) :
    tokens.foldl (tryToken settings path n found) (s, true) = (s, true) := by
  induction tokens with
  | nil => rfl
  | cons token rest ih => rwa [List.foldl_cons, tryToken, if_pos (by simp)]

/-- The flag lets one token through, the first one that looks random. -/
theorem Search.foldl_tryToken (tokens : List Match) (s : Search) :
    (tokens.foldl (tryToken settings path n found) (s, false)).1 =
      ⟨s.findings ++ ((tokens.find? (isSuspicious settings found)).map Match.text).toList.map
        (entropyReport (.atLine path n)), s.seen⟩ := by
  induction tokens with
  | nil => simp
  | cons token rest ih =>
      rw [List.foldl_cons]
      cases hrandom : isSuspicious settings found token with
      | true =>
          have hstep : tryToken settings path n found (s, false) token =
              (⟨s.findings ++ [entropyReport (.atLine path n) token.text], s.seen⟩, true) :=
            if_neg (by simp [hrandom])
          rw [hstep, foldl_tryToken_done, List.find?_cons_of_pos hrandom]
          rfl
      | false =>
          have hstep : tryToken settings path n found (s, false) token = (s, false) :=
            if_pos (by simp [hrandom])
          rw [hstep, ih, List.find?_cons_of_neg (by simp [hrandom])]

end Tokens

/-- A line on which nothing was reported adds what a search of its own finds. -/
theorem Search.findings_tryLine {s : Search} (hs : s.IsAbove n) (line : List Char) :
    (s.tryLine settings inEnvFile path n line).findings =
      s.findings ++ inLine settings inEnvFile (.atLine path n) line := by
  have hnone : ∀ kind, (n, kind) ∈ s.seen ↔ kind ∈ ([] : List String) := by
    intro kind
    have hfresh : (n, kind) ∉ s.seen := fun hslot => Nat.lt_irrefl n (hs _ hslot)
    simp [hfresh]
  have hvalues := findings_foldl_add inEnvFile path n (hits settings inEnvFile line) hnone
  unfold tryLine inLine
  split
  · exact (List.append_nil _).symm
  · dsimp only
    rw [LineSearch.foldl_rules, ← List.append_assoc, firstOfEach, ← hvalues]
    cases inEnvFile with
    | true => exact (List.append_nil _).symm
    | false =>
        simp only [Bool.not_false, Bool.true_and, Bool.false_eq_true, if_false]
        rw [apply_ite Search.findings, foldl_tryToken, suspiciousToken?]
        split
        · rfl
        · exact (List.append_nil _).symm

theorem Search.isAbove_tryLine {s : Search} (hs : s.IsAbove n) (line : List Char) :
    (s.tryLine settings inEnvFile path n line).IsAbove (n + 1) := by
  have hwider : s.IsAbove (n + 1) := fun slot hslot => Nat.lt_succ_of_lt (hs slot hslot)
  unfold tryLine
  split
  · exact hwider
  · dsimp only
    rw [LineSearch.foldl_rules]
    split
    · rw [foldl_tryToken]
      exact isAbove_foldl_add inEnvFile path n _ hwider
    · exact isAbove_foldl_add inEnvFile path n _ hwider

end Line

variable (settings : SecretSettings) (inEnvFile : Bool) (path : Path)

/-- From any search that has reported only further up, the lines add what
searches of their own find. -/
theorem Search.findings_run {n : Nat} {s : Search} (hs : s.IsAbove n)
    (lines : List (List Char)) :
    (run settings inEnvFile path n s lines).findings =
      s.findings ++ inLines settings inEnvFile path n lines := by
  induction lines generalizing n s with
  | nil => exact (List.append_nil _).symm
  | cons line rest ih =>
      rw [run, ih (isAbove_tryLine settings inEnvFile path n hs line),
        findings_tryLine settings inEnvFile path n hs line, inLines, List.append_assoc]

/-- One search through a file finds what searches of its lines find. -/
theorem detect_eq (ctx : FileContext) :
    detect settings ctx =
      if isEnvTemplate ctx.fileName then []
      else inLines settings (isEnvFile ctx.fileName) ctx.path 1 ctx.lines := by
  have hstart : Search.IsAbove {} 1 := fun slot hslot => absurd hslot List.not_mem_nil
  rw [detect, Search.findings_run settings _ _ hstart]
  rfl

end WebAudit.Secrets
