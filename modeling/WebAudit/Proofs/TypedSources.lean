import WebAudit.Proofs.Discovery

/-!
Plain scripts make way for typed ones. A script in one of some forms is a path
whose last component is a stem, a dot and one of the extensions; the stem is not
empty, so a dot in front of a name does not count, and it may have dots of its
own. A plain script makes way when a typed one with its stem stands in its
directory, that is, behind the same components. A path is no script in both
forms, so typed scripts stay; hence what makes way does not depend on whether
others have gone already, nor on the order of the files.
-/

namespace WebAudit

namespace Path

/-- The path is a script in one of some forms, with a stem in a directory. -/
def IsForm (p : Path) (extensions : List String) (dir : List Component) (stem : String) : Prop :=
  stem ≠ "" ∧ ∃ ext ∈ extensions, p.components = dir ++ [.name (stem ++ "." ++ ext)]

section Forms

variable {p : Path} {extensions : List String} {dir : List Component} {stem : String}

theorem hasExtension_iff_isForm (hplain : ∀ ext ∈ extensions, '.' ∉ ext.toList) :
    p.hasExtension extensions ↔ ∃ dir stem, p.IsForm extensions dir stem :=
  p.hasExtension_iff hplain

/-- The form of a script is read off its extension, its parent and its stem. -/
theorem isForm_iff (hplain : ∀ ext ∈ extensions, '.' ∉ ext.toList) :
    p.IsForm extensions dir stem ↔ p.hasExtension extensions ∧ p.stemKey? = some (dir, stem) := by
  have hkey : ∀ {dir stem}, p.IsForm extensions dir stem → p.stemKey? = some (dir, stem) := by
    rintro dir stem ⟨hstem, ext, hext, hp⟩
    exact stemKey?_of_components hp hstem (hplain ext hext)
  rw [hasExtension_iff_isForm hplain]
  constructor
  · intro hform
    exact ⟨⟨dir, stem, hform⟩, hkey hform⟩
  · rintro ⟨⟨dir', stem', hform⟩, hsame⟩
    obtain ⟨rfl, rfl⟩ := Prod.mk.inj (Option.some.inj ((hkey hform).symm.trans hsame))
    exact hform

end Forms

/-- No path is a script in both forms. -/
theorem not_plain_of_typed {p : Path} (htyped : p.hasExtension typedExtensions) :
    p.hasExtension plainExtensions = false := by
  have hdisjoint : ∀ ext ∈ typedExtensions, ext ∉ plainExtensions := by decide
  rw [hasExtension] at htyped ⊢
  cases hext : p.extension? with
  | none => rfl
  | some ext =>
      rw [hext, Option.any_some, List.contains_iff_mem] at htyped
      rw [Option.any_some, Bool.eq_false_iff, Ne, List.contains_iff_mem]
      exact hdisjoint ext htyped

end Path

section Twins

variable (files : List Path) (p : Path)

/-- A plain script for which a typed one with its stem, in its directory, is
among some files. -/
def MakesWay : Prop :=
  ∃ dir stem, p.IsForm plainExtensions dir stem ∧ ∃ q ∈ files, q.IsForm typedExtensions dir stem

theorem makesWay_iff :
    MakesWay files p ↔
      p.hasExtension plainExtensions ∧ ∃ key, p.stemKey? = some key ∧
        ∃ q ∈ files, q.hasExtension typedExtensions ∧ q.stemKey? = some key := by
  simp only [MakesWay, Path.isForm_iff Project.plain_no_dot, Path.isForm_iff Project.typed_no_dot]
  constructor
  · rintro ⟨dir, stem, ⟨hplain, hkey⟩, q, hq, hform⟩
    exact ⟨hplain, (dir, stem), hkey, q, hq, hform⟩
  · rintro ⟨hplain, ⟨dir, stem⟩, hkey, q, hq, hform⟩
    exact ⟨dir, stem, ⟨hplain, hkey⟩, q, hq, hform⟩

theorem mem_preferTyped_iff_not_makesWay :
    p ∈ preferTyped files ↔ p ∈ files ∧ ¬MakesWay files p := by
  rw [makesWay_iff, Project.mem_preferTyped_iff]

instance : DecidablePred (MakesWay files) := fun p =>
  decidable_of_iff
    (p.hasExtension plainExtensions ∧ p.stemKey?.isSome ∧
      ∃ q ∈ files, q.hasExtension typedExtensions ∧ q.stemKey? = p.stemKey?)
    (by rw [makesWay_iff]; cases p.stemKey? <;> simp)

/-- What stays are the files that do not make way, in their order. -/
theorem preferTyped_eq_filter : preferTyped files = files.filter fun p => ¬MakesWay files p := by
  have htest : preferTyped files = files.filter _ := rfl
  rw [htest]
  apply List.filter_congr
  intro p hp
  have hmember := mem_preferTyped_iff_not_makesWay files p
  rw [htest, List.mem_filter] at hmember
  rw [Bool.eq_iff_iff, decide_eq_true_iff]
  simpa [hp] using hmember

variable {files p}

/-- Only the typed scripts among the files decide who makes way. -/
theorem makesWay_congr {files' : List Path}
    (hsame : ∀ q : Path, q.hasExtension typedExtensions → (q ∈ files ↔ q ∈ files')) :
    MakesWay files p ↔ MakesWay files' p := by
  rw [makesWay_iff, makesWay_iff]
  have htyped : ∀ key, (∃ q ∈ files, q.hasExtension typedExtensions ∧ q.stemKey? = some key) ↔
      ∃ q ∈ files', q.hasExtension typedExtensions ∧ q.stemKey? = some key := by
    intro key
    constructor
    · rintro ⟨q, hq, hform, hkey⟩
      exact ⟨q, (hsame q hform).mp hq, hform, hkey⟩
    · rintro ⟨q, hq, hform, hkey⟩
      exact ⟨q, (hsame q hform).mpr hq, hform, hkey⟩
  simp only [htyped]

theorem not_makesWay_of_not_plain (hplain : p.hasExtension plainExtensions = false) :
    ¬MakesWay files p := by
  rw [makesWay_iff, hplain]
  simp

theorem mem_preferTyped_iff_of_typed (htyped : p.hasExtension typedExtensions) :
    p ∈ preferTyped files ↔ p ∈ files := by
  rw [mem_preferTyped_iff_not_makesWay]
  exact and_iff_left (not_makesWay_of_not_plain (Path.not_plain_of_typed htyped))

end Twins

/-- A plain script makes way exactly when a typed one with its stem stands in its
directory, whatever the order of the files. A second pass changes nothing; the
same files stay when the files are permuted, in their new order; nothing but plain
scripts is dropped, and no plain script is left beside a typed one. -/
theorem typed_sources_win (files : List Path) :
    preferTyped files = files.filter (fun p => ¬MakesWay files p) ∧
    preferTyped (preferTyped files) = preferTyped files ∧
    (∀ files', files'.Perm files →
      preferTyped files' = files'.filter (· ∈ preferTyped files) ∧
        (preferTyped files').Perm (preferTyped files)) ∧
    (∀ p : Path, (¬∃ dir stem, p.IsForm plainExtensions dir stem) ∨
        (∃ dir stem, p.IsForm typedExtensions dir stem) →
      (preferTyped files).count p = files.count p) ∧
    ∀ p ∈ preferTyped files, ∀ q ∈ preferTyped files, ∀ dir stem,
      p.IsForm plainExtensions dir stem → ¬q.IsForm typedExtensions dir stem := by
  refine ⟨preferTyped_eq_filter files, ?_, ?_, ?_, ?_⟩
  -- all typed scripts stay, so the second pass finds the same reasons as the first
  · have hway : ∀ p, MakesWay (preferTyped files) p ↔ MakesWay files p :=
      fun p => makesWay_congr fun q hq => mem_preferTyped_iff_of_typed hq
    rw [preferTyped_eq_filter (preferTyped files), List.filter_eq_self]
    intro p hp
    rw [decide_eq_true_iff, hway]
    exact ((mem_preferTyped_iff_not_makesWay files p).mp hp).2
  · intro files' hperm
    have hway : ∀ p, MakesWay files' p ↔ MakesWay files p :=
      fun p => makesWay_congr fun q _ => hperm.mem_iff
    constructor
    · rw [preferTyped_eq_filter files']
      apply List.filter_congr
      intro p hp
      have hfile : p ∈ files := hperm.mem_iff.mp hp
      simp [hway, mem_preferTyped_iff_not_makesWay, hfile]
    · rw [preferTyped_eq_filter files', preferTyped_eq_filter files]
      simp only [hway]
      exact hperm.filter _
  · intro p hkept
    have hplain : p.hasExtension plainExtensions = false := by
      rcases hkept with hother | htyped
      · rw [← Path.hasExtension_iff_isForm Project.plain_no_dot] at hother
        exact Bool.eq_false_iff.mpr hother
      · rw [← Path.hasExtension_iff_isForm Project.typed_no_dot] at htyped
        exact Path.not_plain_of_typed htyped
    rw [preferTyped_eq_filter]
    exact List.count_filter (decide_eq_true (not_makesWay_of_not_plain hplain))
  · intro p hp q hq dir stem hplain htyped
    obtain ⟨-, hstays⟩ := (mem_preferTyped_iff_not_makesWay files p).mp hp
    obtain ⟨hfile, -⟩ := (mem_preferTyped_iff_not_makesWay files q).mp hq
    exact hstays ⟨dir, stem, hplain, q, hfile, htyped⟩

end WebAudit
