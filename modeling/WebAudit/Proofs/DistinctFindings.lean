import WebAudit.Proofs.Merging
import WebAudit.Proofs.SecretLines
import WebAudit.Detector.Logging
import WebAudit.Detector.Upload

/-!
The findings of one check survive the merging of findings. A finding takes a
slot, its line with its kind, and findings in different slots have different
keys. Secrets, uploads, routes and logging each keep the first of what they find
in a slot, whichever pass over the file finds it, so a report that shows all
severities shows each of their findings. Uploads without a known library are
looked for only on lines where no library is set up.
-/

namespace WebAudit

namespace Finding

def slot (f : Finding) : Option Nat × String := (f.location.line?, f.kind)

theorem keys_nodup_of_slots {found : List Finding} (hslots : (found.map slot).Nodup) :
    (found.map key).Nodup := by
  have hmap : found.map slot = (found.map key).map fun k => (k.line, k.kind) := by
    rw [List.map_map]
    rfl
  exact (hmap ▸ hslots).of_map

/-- Nothing is lost in merging findings with different keys. -/
theorem deduplicate_perm {found : List Finding} (hkeys : (found.map key).Nodup) :
    (deduplicate found).Perm found := by
  rw [List.perm_ext_iff_of_nodup (deduplicate_keys_nodup found).of_map hkeys.of_map]
  intro f
  refine ⟨mem_of_mem_deduplicate, fun hf => ?_⟩
  obtain ⟨g, hg, hkey, -⟩ := exists_survivor hf
  obtain rfl := List.inj_on_of_nodup_map hkeys (mem_of_mem_deduplicate hg) hf hkey
  exact hg

theorem slots_append_nodup {found more : List Finding} (hfound : (found.map slot).Nodup)
    (hmore : (more.map slot).Nodup) (hapart : ∀ f ∈ found, ∀ g ∈ more, f.slot ≠ g.slot) :
    ((found ++ more).map slot).Nodup := by
  rw [List.map_append, List.nodup_append']
  refine ⟨hfound, hmore, List.disjoint_left.mpr ?_⟩
  intro taken hfirst hsecond
  obtain ⟨f, hf, rfl⟩ := List.mem_map.mp hfirst
  obtain ⟨g, hg, hslot⟩ := List.mem_map.mp hsecond
  exact hapart f hf g hg hslot.symm

/-- Reports about the first items of their keys take different slots, if the key
decides the slot and can be read off it. -/
theorem slots_of_firsts_nodup {α β : Type} [BEq β] [LawfulBEq β] (key : α → β)
    (report : α → Finding) (slotOf : β → Option Nat × String) (hinjective : slotOf.Injective)
    (hslot : ∀ a, (report a).slot = slotOf (key a)) (items : List α) :
    (((firstOfEach key items).map report).map slot).Nodup := by
  have hmap : ((firstOfEach key items).map report).map slot =
      ((firstOfEach key items).map key).map slotOf := by
    rw [List.map_map, List.map_map]
    exact List.map_congr_left fun a _ => hslot a
  rw [hmap]
  exact (firstOfEachFrom_keys_nodup key [] items).map hinjective

end Finding

open Finding

/-- The findings have different keys, and a report of all severities shows them
all, however it is set up. -/
structure KeptWhole (found : List Finding) : Prop where
  keys : (found.map Finding.key).Nodup
  shown : ∀ policy errors, (aggregate policy .all found errors).findings.Perm found

theorem KeptWhole.of_slots {found : List Finding} (hslots : (found.map slot).Nodup)
    (hseverity : ∀ f ∈ found, f.severity ≠ .clean) : KeptWhole found := by
  have hkeys := keys_nodup_of_slots hslots
  refine ⟨hkeys, fun policy errors => ?_⟩
  have hall : found.filter (policy.shows .all) = found := by
    rw [List.filter_eq_self]
    intro f hf
    simp [Policy.shows, (Severity.isReportable_iff f.severity).mpr (hseverity f hf)]
  rw [aggregate_findings_eq, hall]
  exact deduplicate_perm hkeys

theorem KeptWhole.nil : KeptWhole [] :=
  .of_slots List.nodup_nil fun _ hf => absurd hf List.not_mem_nil

namespace Secrets

variable {settings : SecretSettings} {inEnvFile : Bool}

theorem severity_of_mem_rules {rule : Rule} (hrule : rule ∈ rules) : rule.severity ≠ .clean := by
  have hall : ∀ rule ∈ rules, rule.severity ≠ .clean := by decide
  exact hall rule hrule

theorem severity_of_mem_inLine {place : Location} {line : List Char} {f : Finding}
    (hf : f ∈ inLine settings inEnvFile place line) : f.severity ≠ .clean := by
  unfold inLine at hf
  split at hf
  · cases hf
  · rcases List.mem_append.mp hf with hhit | hrandom
    · obtain ⟨h, hh, rfl⟩ := List.mem_map.mp hhit
      have hrule := (of_mem_hits ((firstOfEachFrom_sublist (Hit.kind inEnvFile) [] _).subset hh)).1
      cases inEnvFile with
      | true => exact nofun
      | false => exact severity_of_mem_rules hrule
    · obtain ⟨token, -, rfl⟩ := List.mem_map.mp hrandom
      exact nofun

/-- On one line, each rule and the random tokens take a slot of their own. -/
theorem inLine_slots_nodup (path : Path) (n : Nat) (line : List Char) :
    ((inLine settings inEnvFile (.atLine path n) line).map slot).Nodup := by
  unfold inLine
  split
  · exact List.nodup_nil
  · have hkind : (fun kind : String => (some n, kind)).Injective := fun _ _ hpair =>
      (Prod.mk.inj hpair).2
    refine slots_append_nodup
      (slots_of_firsts_nodup (Hit.kind inEnvFile) _ _ hkind (fun _ => rfl) _) ?_ ?_
    · rw [List.map_map]
      split <;> cases suspiciousToken? settings (hits settings inEnvFile line) line <;> simp
    · -- only a file without environment variables is searched for random tokens,
      -- and there a hit is reported under the kind of its rule
      cases inEnvFile with
      | true => simp
      | false =>
          intro f hf g hg hslot
          obtain ⟨h, hh, rfl⟩ := List.mem_map.mp hf
          obtain ⟨token, -, rfl⟩ := List.mem_map.mp hg
          have hrule := (of_mem_hits ((firstOfEachFrom_sublist (Hit.kind false) [] _).subset hh)).1
          exact kind_ne_of_mem_rules hrule (Prod.mk.inj hslot).2

theorem inLines_slots_nodup (path : Path) (n : Nat) (lines : List (List Char)) :
    ((inLines settings inEnvFile path n lines).map slot).Nodup := by
  induction lines generalizing n with
  | nil => exact List.nodup_nil
  | cons line rest ih =>
      rw [inLines]
      refine slots_append_nodup (inLine_slots_nodup path n line) (ih (n + 1)) ?_
      intro f hf g hg hslot
      obtain ⟨i, -, hline⟩ := line_of_mem_inLines settings inEnvFile path hg
      have hsame := (Prod.mk.inj hslot).1
      rw [location_of_mem_inLine settings inEnvFile hf, hline] at hsame
      have hnumber : n = n + 1 + i := Option.some.inj hsame
      omega

theorem detect_keptWhole (settings : SecretSettings) (ctx : FileContext) :
    KeptWhole (detect settings ctx) := by
  rw [detect_eq]
  split
  · exact .nil
  · refine .of_slots (inLines_slots_nodup ctx.path 1 ctx.lines) fun f hf => ?_
    obtain ⟨i, line, -, hf⟩ := (mem_inLines_iff settings _ ctx.path).mp hf
    exact severity_of_mem_inLine hf

end Secrets

namespace Upload

theorem Gap.kind_injective : Gap.kind.Injective := by
  intro a b hkind
  cases a <;> cases b <;> first | rfl | exact absurd hkind (by decide)

theorem Gap.kind_ne (gap : Gap) : gap.kind ≠ genericUploadKind := by
  cases gap <;> decide

def IsGap (ctx : FileContext) (o : Offence) : Prop :=
  ∃ source typeChecked all call, ctx.script? = some source ∧ call ∈ source.calls ∧
    o ∈ gaps source ctx.lines typeChecked all call

/-- What is found in a file: the first gaps of their kind and line, and then
forms on other lines. -/
theorem exists_detect_eq (ctx : FileContext) :
    detect ctx = [] ∨ ∃ items : List Offence, (∀ o ∈ items, IsGap ctx o) ∧
      let found := firstOfEach (fun o => (o.line, o.gap)) items
      detect ctx = found.map (Offence.report ctx.path) ++
        (genericHits ctx.content.toList ctx.lines (found.map Offence.line)).map fun hit =>
          genericReport ctx.path hit.1 hit.2 := by
  unfold detect
  split
  · exact .inl rfl
  · right
    dsimp only
    split
    · exact ⟨[], by simp, rfl⟩
    · split
      · rename_i source hscript
        refine ⟨_, fun o ho => ?_, rfl⟩
        obtain ⟨call, hcall, ho⟩ := List.mem_flatMap.mp ho
        exact ⟨source, _, _, call, hscript, hcall, ho⟩
      · exact ⟨[], by simp, rfl⟩

/-- Forms are looked for on lines that are not taken. -/
theorem line_not_mem_of_mem_genericHits {content : List Char} {lines : List (List Char)}
    {taken : List Nat} {hit : Nat × List Char} (hhit : hit ∈ genericHits content lines taken) :
    hit.1 ∉ taken := by
  have hkept := (List.mem_filter.mp ((firstOfEachFrom_sublist Prod.fst [] _).subset hhit)).2
  simp only [Bool.and_eq_true, Bool.not_eq_true', List.contains_eq_mem, decide_eq_false_iff_not]
    at hkept
  exact hkept.1

theorem detect_keptWhole (ctx : FileContext) : KeptWhole (detect ctx) := by
  obtain hnone | ⟨items, -, hdetect⟩ := exists_detect_eq ctx
  · rw [hnone]
    exact .nil
  rw [hdetect]
  refine .of_slots ?_ fun f hf => ?_
  · have hgap : (fun key : Nat × Gap => (some key.1, key.2.kind)).Injective := by
      rintro ⟨line, gap⟩ ⟨line', gap'⟩ hpair
      obtain ⟨hline, hkind⟩ := Prod.mk.inj hpair
      exact Prod.ext (Option.some.inj hline) (Gap.kind_injective hkind)
    have hline : (fun line : Nat => (some line, genericUploadKind)).Injective := fun _ _ hpair =>
      Option.some.inj (Prod.mk.inj hpair).1
    refine slots_append_nodup (slots_of_firsts_nodup _ _ _ hgap (fun _ => rfl) items)
      (slots_of_firsts_nodup _ _ _ hline (fun _ => rfl) _) ?_
    intro f hf g hg hslot
    obtain ⟨o, -, rfl⟩ := List.mem_map.mp hf
    obtain ⟨hit, -, rfl⟩ := List.mem_map.mp hg
    exact o.gap.kind_ne (Prod.mk.inj hslot).2
  · rcases List.mem_append.mp hf with hlibrary | hgeneric
    · obtain ⟨o, -, rfl⟩ := List.mem_map.mp hlibrary
      exact nofun
    · obtain ⟨hit, -, rfl⟩ := List.mem_map.mp hgeneric
      exact nofun

def linesOf (ctx : FileContext) (test : Finding → Bool) : List (Option Nat) :=
  ((detect ctx).filter test).map fun f => f.location.line?

theorem lines_disjoint (ctx : FileContext) :
    (linesOf ctx fun f => f.kind == genericUploadKind).Disjoint
      (linesOf ctx fun f => f.kind != genericUploadKind) := by
  unfold linesOf
  obtain hnone | ⟨items, -, hdetect⟩ := exists_detect_eq ctx
  · simp [hnone]
  rw [hdetect, List.disjoint_left]
  intro line hgeneric hlibrary
  obtain ⟨g, hg, rfl⟩ := List.mem_map.mp hgeneric
  obtain ⟨f, hf, hline⟩ := List.mem_map.mp hlibrary
  obtain ⟨hg, hgkind⟩ := List.mem_filter.mp hg
  obtain ⟨hf, hfkind⟩ := List.mem_filter.mp hf
  rcases List.mem_append.mp hg with hg | hg
  · obtain ⟨o, -, rfl⟩ := List.mem_map.mp hg
    exact o.gap.kind_ne (beq_iff_eq.mp hgkind)
  · obtain ⟨hit, hhit, rfl⟩ := List.mem_map.mp hg
    rcases List.mem_append.mp hf with hf | hf
    · obtain ⟨o, ho, rfl⟩ := List.mem_map.mp hf
      have htaken : hit.1 ∈ List.map Offence.line _ :=
        List.mem_map.mpr ⟨o, ho, Option.some.inj hline⟩
      exact line_not_mem_of_mem_genericHits hhit htaken
    · obtain ⟨other, -, rfl⟩ := List.mem_map.mp hf
      exact bne_iff_ne.mp hfkind rfl

end Upload

namespace Endpoint

/-- The route of a file is of low or of medium severity too. -/
theorem severity_of_routeOfPath? {relative : Path} {hit : SensitiveRoute}
    (hroute : routeOfPath? relative = some hit) :
    hit.severity = .low ∨ hit.severity = .medium := by
  unfold routeOfPath? at hroute
  split at hroute
  · split at hroute
    · obtain ⟨word, hword, rfl⟩ := Option.map_eq_some_iff.mp hroute
      exact severity_of_keywordOf? hword
    · cases hroute
  · cases hroute

theorem ne_clean {s : Severity} (hs : s = .low ∨ s = .medium) : s ≠ .clean := by
  rcases hs with rfl | rfl <;> exact nofun

theorem detect_keptWhole (ctx : FileContext) : KeptWhole (detect ctx) := by
  unfold detect
  split
  · exact .nil
  · dsimp only
    refine .of_slots ?_ fun f hf => ?_
    · have hline : (fun line : Nat => (some line, exposedKind)).Injective := fun _ _ hpair =>
        Option.some.inj (Prod.mk.inj hpair).1
      refine slots_append_nodup (slots_of_firsts_nodup _ _ _ hline (fun _ => rfl) _) ?_ ?_
      · cases (routeOfPath? ctx.relativePath).filter _ <;> simp
      · intro f hf g hg hslot
        obtain ⟨hit, -, rfl⟩ := List.mem_map.mp hf
        obtain ⟨route, -, rfl⟩ := List.mem_map.mp hg
        have hnoline : some hit.1 = none := (Prod.mk.inj hslot).1
        cases hnoline
    · rcases List.mem_append.mp hf with hline | hfile
      · obtain ⟨⟨line, hit⟩, hhit, rfl⟩ := List.mem_map.mp hline
        rw [hits_eq] at hhit
        obtain ⟨s, hs, hpair⟩ := List.mem_map.mp hhit
        obtain ⟨rfl, rfl⟩ := Prod.mk.inj hpair
        exact ne_clean (mem_firsts_iff.mp hs).1.severity
      · obtain ⟨hit, hhit, rfl⟩ := List.mem_map.mp hfile
        have hroute := (Option.filter_eq_some_iff.mp (Option.mem_toList.mp hhit)).1
        exact ne_clean (severity_of_routeOfPath? hroute)

end Endpoint

namespace Logging

theorem detect_keptWhole (ctx : FileContext) : KeptWhole (detect ctx) := by
  unfold detect
  split
  · exact .nil
  · split
    · unfold inScript
      refine .of_slots ?_ fun f hf => ?_
      · have hsome : (fun key : Nat × String => (some key.1, key.2)).Injective := by
          rintro ⟨line, kind⟩ ⟨line', kind'⟩ hpair
          obtain ⟨hline, hkind⟩ := Prod.mk.inj hpair
          exact Prod.ext (Option.some.inj hline) hkind
        exact slots_of_firsts_nodup _ _ _ hsome (fun _ => rfl) _
      · obtain ⟨⟨line, o⟩, -, rfl⟩ := List.mem_map.mp hf
        cases o <;> exact nofun
    · exact .nil

end Logging

end WebAudit
