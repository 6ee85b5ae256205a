import WebAudit.Proofs.DistinctFindings
import WebAudit.Proofs.PatternSearch
import WebAudit.Proofs.RequestTimeouts
import WebAudit.Proofs.ScriptBounds
import WebAudit.Proofs.TreeWalk

/-!
Findings stand on lines that exist and do not bear the mark that silences
checks. Lines are numbered in three ways: by going through them, by counting the
line feeds before an occurrence of a pattern, and by counting those before a
node of a script. All three give the line that the character stands on, because
occurrences and calls start before the end of the text. An occurrence that leads
to a finding starts with a character of the text of its line.
-/

namespace WebAudit

namespace Text

variable {cs : List Char}

/-- A line in its place in a text: what stands before it is nothing or ends with
a line feed, and the number of line feeds before is its number. -/
structure IsLineAt (cs before line after : List Char) : Prop where
  parts : cs = before ++ line ++ after
  starts : before = [] ∨ before.getLast? = some '\n'
  listed : (lines cs)[before.count '\n']? = some line

theorem exists_stripped (line : List Char) :
    ∃ tail, line = (stripReturn line.reverse).reverse ++ tail ∧ (tail = [] ∨ tail = ['\r']) := by
  unfold stripReturn
  split
  · rename_i rest hreverse
    refine ⟨['\r'], ?_, .inr rfl⟩
    rw [← List.reverse_cons, ← hreverse, List.reverse_reverse]
  · exact ⟨[], by simp, .inl rfl⟩

theorem isLineAt_of_unbroken (hne : cs ≠ []) (hunbroken : '\n' ∉ cs) : IsLineAt cs [] cs [] := by
  refine ⟨by simp, .inl rfl, ?_⟩
  have hfull : cs.isEmpty = false := List.isEmpty_eq_false_iff.mpr hne
  simp [lines_of_unbroken hunbroken, hfull]

theorem IsLineAt.after_break {first rest before line after : List Char}
    (hfirst : '\n' ∉ first) (hline : IsLineAt rest before line after) :
    IsLineAt (first ++ '\n' :: rest) (first ++ '\n' :: before) line after := by
  have hcount : (first ++ '\n' :: before).count '\n' = before.count '\n' + 1 := by
    rw [List.count_append, List.count_eq_zero_of_not_mem hfirst, List.count_cons_self]
    omega
  refine ⟨by simp [hline.parts], .inr ?_, ?_⟩
  · rw [List.getLast?_append_cons]
    rcases hline.starts with rfl | hlast
    · rfl
    · rw [List.getLast?_cons, hlast]
      rfl
  · rw [hcount, lines_append_break hfirst, List.getElem?_cons_succ]
    exact hline.listed

theorem exists_first_line {first rest : List Char} {i : Nat} {c : Char} (hfirst : '\n' ∉ first)
    (hi : first[i]? = some c) (hreturn : c ≠ '\r') :
    ∃ line after, IsLineAt (first ++ '\n' :: rest) [] line after ∧ i < line.length := by
  obtain ⟨tail, hstripped, htail⟩ := exists_stripped first
  generalize hline : (stripReturn first.reverse).reverse = line at hstripped
  refine ⟨line, tail ++ '\n' :: rest, ⟨by simp [hstripped], .inl rfl, ?_⟩, ?_⟩
  · rw [lines_append_break hfirst, hline]
    rfl
  · by_contra hout
    rw [hstripped, List.getElem?_append_right (Nat.le_of_not_lt hout)] at hi
    rcases htail with rfl | rfl
    · cases hi
    · exact hreturn (List.mem_singleton.mp (List.mem_of_getElem? hi))

/-- A character that does not end a line stands within the text of one. -/
theorem exists_lineAt {i : Nat} {c : Char} (hi : cs[i]? = some c) (hfeed : c ≠ '\n')
    (hreturn : c ≠ '\r') :
    ∃ before line after, IsLineAt cs before line after ∧
      before.count '\n' = (cs.take i).count '\n' ∧ before.length ≤ i ∧
      i < before.length + line.length := by
  induction hlength : cs.length using Nat.strong_induction_on generalizing cs i with
  | _ n ih =>
      have hbound : i < cs.length := (List.getElem?_eq_some_iff.mp hi).1
      rcases cut_cases '\n' cs with ⟨hunbroken, -⟩ | ⟨rest, hcs⟩
      · have hne : cs ≠ [] := List.ne_nil_of_length_pos (Nat.zero_lt_of_lt hbound)
        have hnone : '\n' ∉ cs.take i := fun hmem => hunbroken (List.mem_of_mem_take hmem)
        refine ⟨[], cs, [], isLineAt_of_unbroken hne hunbroken, ?_, Nat.zero_le i, by simpa⟩
        rw [List.count_nil, List.count_eq_zero_of_not_mem hnone]
      · generalize hfirst : cs.takeWhile (· != '\n') = first at hcs
        have hunbroken : '\n' ∉ first := hfirst ▸ mark_not_mem_cut
        subst hcs
        rcases Nat.lt_trichotomy i first.length with hbefore | rfl | hbehind
        · rw [List.getElem?_append_left hbefore] at hi
          obtain ⟨line, after, hline, hwithin⟩ := exists_first_line hunbroken hi hreturn
          have hnone : '\n' ∉ (first ++ '\n' :: rest).take i := by
            rw [List.take_append_of_le_length (Nat.le_of_lt hbefore)]
            exact fun hmem => hunbroken (List.mem_of_mem_take hmem)
          refine ⟨[], line, after, hline, ?_, Nat.zero_le i, by simpa using hwithin⟩
          rw [List.count_nil, List.count_eq_zero_of_not_mem hnone]
        · simp at hi
          exact absurd hi.symm hfeed
        · -- the character stands behind the first line feed
          obtain ⟨j, rfl⟩ := Nat.exists_eq_add_of_lt hbehind
          rw [Nat.add_assoc] at hi ⊢
          have hj : rest[j]? = some c := by
            rwa [List.getElem?_append_right (Nat.le_add_right _ _), Nat.add_sub_cancel_left,
              List.getElem?_cons_succ] at hi
          have hshorter : rest.length < n := by
            rw [List.length_append, List.length_cons] at hlength
            omega
          obtain ⟨before, line, after, hline, hcount, hle, hlt⟩ := ih rest.length hshorter hj rfl
          refine ⟨_, line, after, hline.after_break hunbroken, ?_, ?_, ?_⟩
          · rw [List.take_length_add_append, List.take_succ_cons]
            simp only [List.count_append, List.count_cons_self, hcount]
          · rw [List.length_append, List.length_cons]
            omega
          · rw [List.length_append, List.length_cons]
            omega

end Text

structure Unmarked (ctx : FileContext) (line : Nat) : Prop where
  pos : 1 ≤ line
  le : line ≤ ctx.lines.length
  free : ∀ text, ctx.lines[line - 1]? = some text → ¬"shipguard:ignore".toList <:+: text

/-- An occurrence starts within the text of the line with a number. -/
def StartsOn (ctx : FileContext) (m : Text.Match) (line : Nat) : Prop :=
  ∃ before text after, Text.IsLineAt ctx.content.toList before text after ∧
    lineAfter before = line ∧ before.length ≤ m.start ∧ m.start < before.length + text.length

section Places

variable {ctx : FileContext}

theorem Unmarked.of_text {i : Nat} {text : List Char} (htext : ctx.lines[i]? = some text)
    (hmark : isSuppressed text = false) : Unmarked ctx (i + 1) := by
  refine ⟨Nat.le_add_left 1 i, (List.getElem?_eq_some_iff.mp htext).1, ?_⟩
  intro other hother
  obtain rfl : text = other := Option.some.inj (htext.symm.trans hother)
  rw [← Text.occursIn_iff]
  exact Bool.not_eq_true _ ▸ hmark

theorem Unmarked.of_index {i : Nat} (hi : i < ctx.content.toList.length)
    (hmark : isSuppressedAt ctx.lines (lineAfter (ctx.content.toList.take i)) = false) :
    Unmarked ctx (lineAfter (ctx.content.toList.take i)) := by
  obtain ⟨text, htext⟩ := Text.exists_line_from [] hi
  refine .of_text htext ?_
  rw [isSuppressedAt, lineAfter, Nat.add_sub_cancel] at hmark
  have htext : ctx.lines[(ctx.content.toList.take i).count '\n']? = some text := htext
  simpa [htext] using hmark

/-- A call of a script starts at a character of the file, on the line that it is
given. -/
theorem exists_start_of_mem_calls {source : Script.Source} {call : Script.Call}
    (hscript : ctx.script? = some source) (hcall : call ∈ source.calls) :
    ∃ i < ctx.content.toList.length, call.line = lineAfter (ctx.content.toList.take i) := by
  unfold FileContext.script? Script.Source.ofFile at hscript
  split at hscript
  · cases hscript
  · split at hscript
    · rename_i root hparse
      obtain rfl := Option.some.inj hscript
      obtain ⟨n, hn, hcall⟩ := List.mem_filterMap.mp hcall
      rw [Script.walk_eq_preorder] at hn
      unfold Script.Call.ofNode? at hcall
      split at hcall
      · rename_i hkind
        obtain ⟨callee, -, rfl⟩ := Option.map_eq_some_iff.mp hcall
        exact ⟨n.start, Script.start_lt_of_parse? hparse hn (by simpa using hkind), rfl⟩
      · cases hcall
    · cases hscript

theorem Unmarked.of_call {source : Script.Source} {call : Script.Call}
    (hscript : ctx.script? = some source) (hcall : call ∈ source.calls)
    (hmark : isSuppressedAt ctx.lines call.line = false) : Unmarked ctx call.line := by
  obtain ⟨i, hi, hline⟩ := exists_start_of_mem_calls hscript hcall
  rw [hline] at hmark ⊢
  exact .of_index hi hmark

theorem startsOn_of_mem_matchesIn {p : Text.Pattern} {m : Text.Match} (hreads : p.reads)
    (hfeed : p.shuns '\n') (hreturn : p.shuns '\r') (hm : m ∈ p.matchesIn ctx.content.toList) :
    StartsOn ctx m (lineAfter (ctx.content.toList.take m.start)) := by
  obtain ⟨c, hc, hstart⟩ := Text.Pattern.exists_first_of_mem_matchesIn hreads hm
  have hne : ∀ d, p.shuns d → c ≠ d := by
    rintro d hd rfl
    rw [hstart] at hd
    cases hd
  obtain ⟨before, text, after, hline, hcount, hle, hlt⟩ :=
    Text.exists_lineAt hc (hne _ hfeed) (hne _ hreturn)
  exact ⟨before, text, after, hline, by rw [lineAfter, hcount, lineAfter], hle, hlt⟩

end Places

theorem Secrets.unmarked_of_mem_detect {settings : SecretSettings} {ctx : FileContext}
    {f : Finding} {line : Nat} (hf : f ∈ detect settings ctx)
    (hline : f.location.line? = some line) : Unmarked ctx line := by
  rw [detect_eq] at hf
  split at hf
  · cases hf
  · obtain ⟨i, text, htext, hf⟩ := (mem_inLines_iff settings _ ctx.path).mp hf
    rw [location_of_mem_inLine settings _ hf] at hline
    obtain rfl : 1 + i = line := Option.some.inj hline
    rw [Nat.add_comm]
    refine .of_text htext ?_
    by_contra hmark
    rw [inLine, if_pos (Bool.not_eq_false _ ▸ hmark)] at hf
    cases hf

namespace Upload

variable {ctx : FileContext} {f : Finding} {line : Nat}

theorem IsGap.unmarked {o : Offence} (ho : IsGap ctx o) : Unmarked ctx o.line := by
  obtain ⟨source, typeChecked, all, call, hscript, hcall, ho⟩ := ho
  unfold gaps at ho
  split at ho
  · cases ho
  · split at ho
    · cases ho
    · rename_i hmark
      have hunless : ∀ {b : Bool} {o' : Offence}, o ∈ (if b then [] else [o']) → o = o' := by
        intro b o' ho
        cases b with
        | true => cases ho
        | false => exact List.mem_singleton.mp ho
      have hline : o.line = call.line := by
        rcases List.mem_append.mp ho with ho | ho
        · rw [hunless ho]
        · rw [hunless ho]
      rw [hline]
      exact .of_call hscript hcall (Bool.not_eq_true _ ▸ hmark)

theorem exists_match_of_mem_genericHits {lines : List (List Char)} {taken : List Nat}
    {content : List Char} {hit : Nat × List Char} (hhit : hit ∈ genericHits content lines taken) :
    ∃ m ∈ genericPattern.matchesIn content, hit = (lineAfter (content.take m.start), m.text) ∧
      isSuppressedAt lines hit.1 = false := by
  obtain ⟨hhit, hkept⟩ :=
    List.mem_filter.mp ((firstOfEachFrom_sublist Prod.fst [] _).subset hhit)
  obtain ⟨m, hm, rfl⟩ := List.mem_map.mp hhit
  simp only [Bool.and_eq_true, Bool.not_eq_true'] at hkept
  exact ⟨m, hm, rfl, hkept.2⟩

/-- A finding is about a gap, or about a form that stands where it is said to. -/
theorem mem_detect_cases (hf : f ∈ detect ctx) :
    (∃ o, IsGap ctx o ∧ f = o.report ctx.path) ∨
      ∃ m ∈ genericPattern.matchesIn ctx.content.toList, ∃ line, Unmarked ctx line ∧
        StartsOn ctx m line ∧ f = genericReport ctx.path line m.text := by
  obtain hnone | ⟨items, hitems, hdetect⟩ := exists_detect_eq ctx
  · rw [hnone] at hf
    cases hf
  rw [hdetect] at hf
  rcases List.mem_append.mp hf with hf | hf
  · obtain ⟨o, ho, rfl⟩ := List.mem_map.mp hf
    exact .inl ⟨o, hitems o ((firstOfEachFrom_sublist _ [] _).subset ho), rfl⟩
  · obtain ⟨hit, hhit, rfl⟩ := List.mem_map.mp hf
    obtain ⟨m, hm, rfl, hmark⟩ := exists_match_of_mem_genericHits hhit
    have hstart := Text.Pattern.start_lt_of_mem_matchesFrom rfl hm
    rw [Nat.zero_add] at hstart
    exact .inr ⟨m, hm, _, .of_index hstart hmark, startsOn_of_mem_matchesIn rfl rfl rfl hm, rfl⟩

end Upload

namespace Endpoint

variable {ctx : FileContext} {f : Finding} {line : Nat}

theorem patternOf_shuns (registered : Bool) :
    (patternOf registered).shuns '\n' = true ∧ (patternOf registered).shuns '\r' = true := by
  cases registered <;> exact ⟨rfl, rfl⟩

/-- A finding about a line is about a route that the line shows. -/
theorem exists_shows_of_mem_detect (hf : f ∈ detect ctx) (hline : f.location.line? = some line) :
    ∃ s, Shows ctx s ∧ s.line = line ∧ f = report (.atLine ctx.path line) s.hit := by
  unfold detect at hf
  split at hf
  · cases hf
  · rcases List.mem_append.mp hf with hf | hf
    · obtain ⟨hit, hhit, rfl⟩ := List.mem_map.mp hf
      rw [hits_eq] at hhit
      obtain ⟨s, hs, rfl⟩ := List.mem_map.mp hhit
      obtain rfl : s.line = line := Option.some.inj hline
      exact ⟨s, (mem_firsts_iff.mp hs).1, rfl, rfl⟩
    · obtain ⟨hit, -, rfl⟩ := List.mem_map.mp hf
      cases hline

theorem Shows.unmarked {s : Sighting} (hs : Shows ctx s) : Unmarked ctx s.line := by
  obtain ⟨text, htext, hcounts⟩ := hs.counts
  have hpos : s.line - 1 + 1 = s.line := Nat.sub_add_cancel (hs.starts ▸ Nat.le_add_left 1 _)
  rw [← hpos]
  exact .of_text htext (Bool.or_eq_false_iff.mp hcounts).1

end Endpoint

theorem HttpClient.unmarked_of_mem_detect {ctx : FileContext} {f : Finding} {line : Nat}
    (hf : f ∈ detect ctx) (hline : f.location.line? = some line) : Unmarked ctx line := by
  obtain ⟨line', library, ⟨hmark, source, call, _, hscript, hcall, rfl, -⟩, rfl⟩ :=
    (mem_detect_iff ctx f).mp hf
  obtain rfl : call.line = line := Option.some.inj hline
  exact .of_call hscript hcall hmark

theorem Logging.unmarked_of_mem_detect {ctx : FileContext} {f : Finding} {line : Nat}
    (hf : f ∈ detect ctx) (hline : f.location.line? = some line) : Unmarked ctx line := by
  unfold detect at hf
  split at hf
  · cases hf
  · split at hf
    · rename_i source hscript
      obtain ⟨⟨n, o⟩, hfirst, rfl⟩ := List.mem_map.mp hf
      obtain rfl : n = line := Option.some.inj hline
      obtain ⟨call, hcall, hitem⟩ :=
        List.mem_flatMap.mp ((firstOfEachFrom_sublist _ [] _).subset hfirst)
      split at hitem
      · cases hitem
      · rename_i hmark
        obtain ⟨o', -, hpair⟩ := List.mem_map.mp hitem
        obtain ⟨rfl, -⟩ := Prod.mk.inj hpair
        exact .of_call hscript hcall (Bool.not_eq_true _ ▸ hmark)
    · cases hf

/-- A script with a form on a line that bears the mark, a route on the next line,
and a form on the last one. -/
def formPage : FileContext where
  path := ⟨"server.js"⟩
  content := "send(new FormData()); // shipguard:ignore\r\n" ++
    "app.get('/admin', show);\r\nsend(new FormData());\n"

theorem formPage_looked_at :
    (formPage.technologies.isFrontendOnly || !formPage.isScript) = false := by
  decide +kernel

theorem formPage_form :
    Upload.genericReport formPage.path 3 "new FormData(".toList ∈ Upload.detect formPage := by
  have himports : (Upload.imports formPage.content.toList).isEmpty = true := by decide +kernel
  have hhits : Upload.genericHits formPage.content.toList formPage.lines [] =
      [(3, "new FormData(".toList)] := by decide +kernel
  simp only [Upload.detect, formPage_looked_at, Bool.false_eq_true, if_false, himports, if_true,
    List.map_nil, hhits]
  exact List.mem_singleton_self _

theorem formPage_route :
    Endpoint.report (.atLine formPage.path 2) ⟨"admin", .medium, "/admin"⟩ ∈
      Endpoint.detect formPage := by
  have hhits : Endpoint.hits formPage.content.toList formPage.lines =
      [(2, ⟨"admin", .medium, "/admin"⟩)] := by decide +kernel
  rw [Endpoint.detect, formPage_looked_at, hhits]
  exact List.mem_append_left _ (List.mem_singleton_self _)

end WebAudit
