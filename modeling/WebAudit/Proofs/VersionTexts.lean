import WebAudit.Dependency.Version
import WebAudit.Proofs.PathComponents
import WebAudit.Proofs.TextCuts
import WebAudit.Proofs.TomlValues

/-!
Texts of versions. A number is read from its decimal digits and from nothing
else, a pre-release from words with dots between them. So a text spells a version
exactly when it is the text of that version, and every version that is read can be
written.
-/

namespace WebAudit

section Spans

variable {p : Char → Bool} {cs front rest : List Char}

/-- A text that does not go on with characters of a kind. -/
def Ends (p : Char → Bool) (rest : List Char) : Prop := ∀ c ∈ rest.head?, p c = false

theorem ends_nil : Ends p [] := fun _ hc => nomatch hc

theorem ends_cons {c : Char} (hc : p c = false) : Ends p (c :: rest) := by
  rintro d ⟨⟩
  exact hc

/-- A text is cut in two where the characters of a kind end. -/
theorem span_iff :
    cs.takeWhile p = front ∧ cs.dropWhile p = rest ↔
      cs = front ++ rest ∧ (∀ c ∈ front, p c = true) ∧ Ends p rest := by
  constructor
  · rintro ⟨rfl, rfl⟩
    refine ⟨List.takeWhile_append_dropWhile.symm, fun c hc => List.mem_takeWhile_imp hc, ?_⟩
    exact fun c hc => Text.head_dropWhile hc
  · rintro ⟨rfl, hfront, hrest⟩
    rw [List.takeWhile_append_of_pos hfront, List.dropWhile_append_of_pos hfront]
    cases rest with
    | nil => simp
    | cons c more =>
        have hc : ¬p c = true := by simp [hrest c rfl]
        simp [List.takeWhile_cons_of_neg hc, List.dropWhile_cons_of_neg hc]

end Spans

section Numbers

variable {cs rest digits : List Char} {n : Nat}

/-- Digits behind those of a positive number are the last digits of the number
that they spell together. -/
theorem toDigits_append_digits (hn : 0 < n) (hdigits : ∀ c ∈ digits, c.isDigit = true) :
    Nat.toDigits 10 n ++ digits = Nat.toDigits 10 (Nat.ofDigitChars 10 digits n) := by
  induction digits generalizing n with
  | nil => simp
  | cons c digits ih =>
      obtain ⟨hc, hmore⟩ := List.forall_mem_cons.mp hdigits
      obtain ⟨hchar, hsmall⟩ := Text.digitChar_of_isDigit hc
      have hlast := Nat.toDigits_append_toDigits (by decide : 1 < 10) hn hsmall
      rw [Nat.toDigits_of_lt_base hsmall, hchar] at hlast
      rw [Nat.ofDigitChars_cons, ← ih (by omega) hmore, ← hlast, List.append_assoc,
        List.singleton_append]

/-- Digits without a needless zero in front are the digits of what they spell. -/
theorem toDigits_ofDigitChars (hne : digits ≠ []) (hdigits : ∀ c ∈ digits, c.isDigit = true)
    (hzero : ∀ c more, digits ≠ '0' :: c :: more) :
    Nat.toDigits 10 (Nat.ofDigitChars 10 digits 0) = digits := by
  obtain ⟨c, more, rfl⟩ := List.exists_cons_of_ne_nil hne
  obtain ⟨hc, hmore⟩ := List.forall_mem_cons.mp hdigits
  obtain ⟨hchar, hsmall⟩ := Text.digitChar_of_isDigit hc
  rw [Nat.ofDigitChars_cons, Nat.mul_zero, Nat.zero_add]
  by_cases hfirst : c = '0'
  · subst hfirst
    cases more with
    | nil => rfl
    | cons d more => exact absurd rfl (hzero d more)
  · have hpositive : 0 < c.toNat - '0'.toNat := by
      refine Nat.pos_of_ne_zero fun hnone => hfirst ?_
      rw [← hchar, hnone]
      rfl
    rw [← toDigits_append_digits hpositive hmore, Nat.toDigits_of_lt_base hsmall, hchar,
      List.singleton_append]

theorem toDigits_ne_zero_cons (n : Nat) (c : Char) (more : List Char) :
    Nat.toDigits 10 n ≠ '0' :: c :: more := by
  intro hdigits
  rcases Nat.eq_zero_or_pos n with rfl | hpositive
  · rw [Nat.toDigits_zero] at hdigits
    cases hdigits
  · obtain ⟨d, tail, hfirst, hd⟩ := Toml.exists_toDigits hpositive
    rw [hfirst] at hdigits
    exact hd (List.cons.inj hdigits).1

namespace Version

theorem foldl_digits (digits : List Char) :
    digits.foldl (fun n c => n * 10 + (c.toNat - 48)) 0 = Nat.ofDigitChars 10 digits 0 := by
  rw [Nat.ofDigitChars_eq_foldl]
  congr 1
  funext n c
  rw [Nat.mul_comm]
  rfl

/-- A number is read from its digits, up to the first other character. -/
theorem takeNumber?_eq_some_iff :
    takeNumber? cs = some (n, rest) ↔
      n < numberBound ∧ cs = Nat.toDigits 10 n ++ rest ∧ Ends Char.isDigit rest := by
  unfold takeNumber?
  dsimp only
  rw [foldl_digits]
  constructor
  · intro hread
    split at hread
    · cases hread
    · cases hread
    · rename_i hne hzero
      obtain ⟨hbound, hpair⟩ := Option.ite_none_right_eq_some.mp hread
      obtain ⟨rfl, rfl⟩ := Prod.mk.inj (Option.some.inj hpair)
      obtain ⟨hcs, hdigits, hends⟩ := span_iff.mp ⟨rfl, (rfl : cs.dropWhile Char.isDigit = _)⟩
      rw [toDigits_ofDigitChars hne hdigits hzero]
      exact ⟨hbound, hcs, hends⟩
  · rintro ⟨hbound, hcs, hends⟩
    obtain ⟨hfront, hback⟩ := span_iff.mpr ⟨hcs, Toml.isDigit_toDigits n, hends⟩
    rw [hfront, hback, Nat.ofDigitChars_ten_toDigits, if_pos hbound]
    split
    · rename_i hnone
      exact absurd hnone Nat.toDigits_ne_nil
    · rename_i hzero
      exact absurd hzero (toDigits_ne_zero_cons n _ _)
    · rfl

end Version

end Numbers

namespace Version

section Identifiers

variable {isPre : Bool} {cs text rest word : List Char} {mark : Char}

/-- A word of a pre-release or of build metadata: letters, digits and hyphens. A
number in a pre-release has no needless zero in front. -/
structure IsWord (isPre : Bool) (word : List Char) : Prop where
  ne_nil : word ≠ []
  chars : ∀ c ∈ word, isIdentifierChar c = true
  zero : isPre = true → (∀ c ∈ word, c.isDigit = true) → word.head? = some '0' → word = ['0']

def IsDotted (isPre : Bool) (text : List Char) : Prop :=
  ∃ words, words ≠ [] ∧ (∀ word ∈ words, IsWord isPre word) ∧ text = ['.'].intercalate words

def isDottedChar (c : Char) : Bool := isIdentifierChar c || c == '.'

theorem IsWord.dot_not_mem (hword : IsWord isPre word) : '.' ∉ word := by
  intro hdot
  exact absurd (hword.chars '.' hdot) (by decide)

theorem hasLeadingZero_eq_false_iff (hne : word ≠ []) :
    hasLeadingZero word = false ↔
      ((∀ c ∈ word, c.isDigit = true) → word.head? = some '0' → word = ['0']) := by
  obtain ⟨c, more, rfl⟩ := List.exists_cons_of_ne_nil hne
  unfold hasLeadingZero
  cases more with
  | nil =>
      refine ⟨fun _ _ hhead => ?_, fun _ => rfl⟩
      rw [Option.some.inj hhead]
  | cons d more =>
      simp only [List.length_cons, List.head?_cons, List.all_eq_false, Bool.and_eq_false_iff,
        beq_eq_false_iff_ne, decide_eq_false_iff_not]
      constructor
      · rintro ((hshort | hfirst) | ⟨e, he, hdigit⟩) hdigits hhead
        · exact absurd (Nat.succ_lt_succ (Nat.succ_pos _)) hshort
        · exact absurd hhead hfirst
        · exact absurd (hdigits e he) hdigit
      · intro hzero
        by_cases hfirst : some c = some '0'
        · right
          by_contra hall
          push Not at hall
          cases hzero hall hfirst
        · exact .inl (.inr hfirst)

theorem isWord_iff :
    IsWord isPre word ↔
      (∀ c ∈ word, isIdentifierChar c = true) ∧
        (!word.isEmpty && !(isPre && hasLeadingZero word)) = true := by
  by_cases hne : word = []
  · subst hne
    simp only [List.isEmpty_nil, Bool.not_true, Bool.false_and, Bool.false_eq_true, and_false,
      iff_false]
    exact fun hword => hword.ne_nil rfl
  · have hempty : word.isEmpty = false := by simpa using hne
    simp only [hempty, Bool.not_false, Bool.true_and, Bool.not_eq_true', Bool.and_eq_false_imp,
      hasLeadingZero_eq_false_iff hne]
    exact ⟨fun hword => ⟨hword.chars, hword.zero⟩, fun ⟨hchars, hzero⟩ => ⟨hne, hchars, hzero⟩⟩

theorem isDottedChar_of_mem (htext : IsDotted isPre text) :
    ∀ c ∈ text, isDottedChar c = true := by
  obtain ⟨words, -, hwords, rfl⟩ := htext
  intro c hc
  rcases Text.mem_intercalate hc with hdot | ⟨word, hword, hmem⟩
  · rw [List.mem_singleton.mp hdot]
    rfl
  · exact Bool.or_eq_true_iff.mpr (.inl ((hwords word hword).chars c hmem))

/-- Words with dots between them are told by their pieces. -/
theorem isDotted_iff :
    IsDotted isPre text ↔
      (∀ c ∈ text, isDottedChar c = true) ∧
        ∀ word ∈ text.splitOn '.', (!word.isEmpty && !(isPre && hasLeadingZero word)) = true := by
  constructor
  · intro htext
    refine ⟨isDottedChar_of_mem htext, ?_⟩
    obtain ⟨words, hne, hwords, rfl⟩ := htext
    rw [List.splitOn_intercalate _ (fun word hword => (hwords word hword).dot_not_mem) hne]
    exact fun word hword => (isWord_iff.mp (hwords word hword)).2
  · rintro ⟨hchars, hwords⟩
    refine ⟨text.splitOn '.', List.splitOn_ne_nil _ _, ?_, (List.intercalate_splitOn '.').symm⟩
    intro word hword
    refine isWord_iff.mpr ⟨?_, hwords word hword⟩
    intro c hc
    have hdot : c ≠ '.' := by
      rintro rfl
      exact Text.sep_not_mem_of_mem_splitOn hword hc
    have hmem : c ∈ text := by
      have hinfix : word <:+: ['.'].intercalate (text.splitOn '.') :=
        Text.isInfix_intercalate hword
      rw [List.intercalate_splitOn] at hinfix
      exact hinfix.subset hc
    simpa [isDottedChar, hdot] using hchars c hmem

theorem IsDotted.ne_nil (htext : IsDotted isPre text) : text ≠ [] := by
  rintro rfl
  have hpiece := (isDotted_iff.mp htext).2 [] (by simp)
  cases hpiece

theorem takeIdentifier?_eq_some_iff :
    takeIdentifier? isPre cs = some (text, rest) ↔
      IsDotted isPre text ∧ cs = text ++ rest ∧ Ends isDottedChar rest := by
  have hread : takeIdentifier? isPre cs =
      if (∀ word ∈ (cs.takeWhile isDottedChar).splitOn '.',
          (!word.isEmpty && !(isPre && hasLeadingZero word)) = true)
      then some (cs.takeWhile isDottedChar, cs.dropWhile isDottedChar) else none := by
    simp only [← List.all_eq_true, ← Text.splitOn_eq]
    rfl
  rw [hread]
  constructor
  · intro hsome
    split at hsome
    · rename_i hfine
      obtain ⟨rfl, rfl⟩ := Prod.mk.inj (Option.some.inj hsome)
      obtain ⟨hcs, hchars, hends⟩ := span_iff.mp ⟨rfl, (rfl : cs.dropWhile isDottedChar = _)⟩
      exact ⟨isDotted_iff.mpr ⟨hchars, hfine⟩, hcs, hends⟩
    · cases hsome
  · rintro ⟨htext, hcs, hends⟩
    obtain ⟨hchars, hwords⟩ := isDotted_iff.mp htext
    obtain ⟨hfront, hback⟩ := span_iff.mpr ⟨hcs, hchars, hends⟩
    rw [hfront, hback, if_pos hwords]

/-- A part with its mark in front; an empty part has none. -/
def marked (mark : Char) (part : List Char) : List Char :=
  if part.isEmpty then [] else mark :: part

theorem marked_nil (mark : Char) : marked mark [] = [] := rfl

theorem marked_of_ne_nil {part : List Char} (hne : part ≠ []) (mark : Char) :
    marked mark part = mark :: part :=
  if_neg (by simpa using hne)

theorem ends_marked {p : Char → Bool} (hmark : p mark = false) (part : List Char)
    (hrest : Ends p rest) : Ends p (marked mark part ++ rest) := by
  by_cases hne : part = []
  · rwa [hne, marked_nil]
  · rw [marked_of_ne_nil hne]
    exact ends_cons hmark

/-- A part that is absent or words with dots between them. -/
def IsPart (isPre : Bool) (part : List Char) : Prop := part = [] ∨ IsDotted isPre part

theorem takeMarked?_eq_some_iff :
    takeMarked? mark isPre cs = some (text, rest) ↔
      IsPart isPre text ∧ cs = marked mark text ++ rest ∧
        (text = [] → rest.head? ≠ some mark) ∧ (text ≠ [] → Ends isDottedChar rest) := by
  cases cs with
  | nil =>
      rw [takeMarked?]
      constructor
      · intro hread
        obtain ⟨rfl, rfl⟩ := Prod.mk.inj (Option.some.inj hread)
        exact ⟨.inl rfl, rfl, fun _ hmark => (nomatch hmark), fun hne => absurd rfl hne⟩
      · rintro ⟨-, hcs, -⟩
        obtain ⟨hnone, rfl⟩ := List.append_eq_nil_iff.mp hcs.symm
        by_cases hne : text = []
        · rw [hne]
        · rw [marked_of_ne_nil hne] at hnone
          cases hnone
  | cons c more =>
      rw [takeMarked?]
      by_cases hmark : c = mark
      · subst hmark
        rw [if_pos (beq_self_eq_true c), takeIdentifier?_eq_some_iff]
        constructor
        · rintro ⟨htext, rfl, hends⟩
          exact ⟨.inr htext, by rw [marked_of_ne_nil htext.ne_nil]; rfl,
            fun hnone => absurd hnone htext.ne_nil, fun _ => hends⟩
        · rintro ⟨htext, hcs, hopen, hends⟩
          rcases htext with rfl | htext
          · rw [marked_nil, List.nil_append] at hcs
            exact absurd (by rw [← hcs]; rfl) (hopen rfl)
          · rw [marked_of_ne_nil htext.ne_nil] at hcs
            exact ⟨htext, (List.cons.inj hcs).2, hends htext.ne_nil⟩
      · rw [if_neg (by simpa using hmark)]
        constructor
        · intro hread
          obtain ⟨rfl, rfl⟩ := Prod.mk.inj (Option.some.inj hread)
          exact ⟨.inl rfl, rfl, fun _ hhead => hmark (Option.some.inj hhead),
            fun hne => absurd rfl hne⟩
        · rintro ⟨-, hcs, -⟩
          by_cases hne : text = []
          · rw [hne, marked_nil, List.nil_append] at hcs
            rw [hne, hcs]
          · rw [marked_of_ne_nil hne] at hcs
            exact absurd (List.cons.inj hcs).1 hmark

end Identifiers

section Texts

variable {cs : List Char} {v : Version}

structure IsProper (v : Version) : Prop where
  major_lt : v.major < numberBound
  minor_lt : v.minor < numberBound
  patch_lt : v.patch < numberBound
  pre : IsPart true v.pre
  build : IsPart false v.build

def chars (v : Version) : List Char :=
  Nat.toDigits 10 v.major ++ '.' :: (Nat.toDigits 10 v.minor ++ '.' ::
    (Nat.toDigits 10 v.patch ++ (marked '-' v.pre ++ marked '+' v.build)))

theorem toList_text (v : Version) : v.text.toList = v.chars := by
  have hpart : ∀ (mark : String) (c : Char) (part : List Char), mark.toList = [c] →
      (if part.isEmpty then "" else mark ++ String.ofList part).toList = marked c part := by
    intro mark c part hmark
    unfold marked
    split
    · rfl
    · rw [String.toList_append, hmark, String.toList_ofList]
      rfl
  simp only [text, chars, String.toList_append, hpart "-" '-' _ rfl, hpart "+" '+' _ rfl]
  simp [toString, List.append_assoc]

theorem afterDot?_eq_some_iff {rest : List Char} : afterDot? cs = some rest ↔ cs = '.' :: rest := by
  unfold afterDot?
  split
  · simp
  · rename_i hother
    simp only [reduceCtorEq, false_iff]
    exact hother rest

/-- A text spells a version exactly when it is the text of that version. -/
theorem parse?_eq_some_iff : parse? cs = some v ↔ v.IsProper ∧ cs = v.text.toList := by
  rw [toList_text]
  constructor
  · intro hread
    simp only [parse?, Option.bind_eq_bind, Option.bind_eq_some_iff, Prod.exists] at hread
    obtain ⟨major, cs₁, hmajor, cs₂, hdot, minor, cs₃, hminor, cs₄, hdot', patch, cs₅, hpatch,
      pre, cs₆, hpre, build, cs₇, hbuild, hend⟩ := hread
    obtain ⟨hmajor_lt, rfl, -⟩ := takeNumber?_eq_some_iff.mp hmajor
    obtain rfl := afterDot?_eq_some_iff.mp hdot
    obtain ⟨hminor_lt, rfl, -⟩ := takeNumber?_eq_some_iff.mp hminor
    obtain rfl := afterDot?_eq_some_iff.mp hdot'
    obtain ⟨hpatch_lt, rfl, -⟩ := takeNumber?_eq_some_iff.mp hpatch
    obtain ⟨hpart, rfl, -⟩ := takeMarked?_eq_some_iff.mp hpre
    obtain ⟨hpart', rfl, -⟩ := takeMarked?_eq_some_iff.mp hbuild
    obtain ⟨hnone, hv⟩ := Option.ite_none_right_eq_some.mp hend
    obtain rfl := Option.some.inj hv
    rw [List.isEmpty_iff.mp hnone]
    exact ⟨⟨hmajor_lt, hminor_lt, hpatch_lt, hpart, hpart'⟩, by simp [chars]⟩
  · rintro ⟨hproper, rfl⟩
    have hnumber : ∀ n < numberBound, ∀ rest,
        takeNumber? (Nat.toDigits 10 n ++ '.' :: rest) = some (n, '.' :: rest) := fun n hn rest =>
      takeNumber?_eq_some_iff.mpr ⟨hn, rfl, ends_cons (by decide)⟩
    have hends : Ends Char.isDigit (marked '-' v.pre ++ marked '+' v.build) := by
      have hbuild := ends_marked (by decide : Char.isDigit '+' = false) v.build ends_nil
      rw [List.append_nil] at hbuild
      exact ends_marked (by decide) v.pre hbuild
    have hpatch := takeNumber?_eq_some_iff.mpr ⟨hproper.patch_lt, rfl, hends⟩
    have hplus : Ends isDottedChar (marked '+' v.build) ∧
        (marked '+' v.build).head? ≠ some '-' := by
      by_cases hne : v.build = []
      · rw [hne]
        exact ⟨ends_nil, fun hhead => nomatch hhead⟩
      · rw [marked_of_ne_nil hne]
        exact ⟨ends_cons (by decide), by simp⟩
    have hpre := takeMarked?_eq_some_iff.mpr ⟨hproper.pre, rfl, fun _ => hplus.2, fun _ => hplus.1⟩
    have hbuild : takeMarked? '+' false (marked '+' v.build) = some (v.build, []) :=
      takeMarked?_eq_some_iff.mpr
        ⟨hproper.build, (List.append_nil _).symm, by simp, fun _ => ends_nil⟩
    simp only [parse?, chars, hnumber _ hproper.major_lt, hnumber _ hproper.minor_lt, hpatch, hpre,
      hbuild, afterDot?, Option.bind_eq_bind, Option.bind_some, List.isEmpty_nil, if_true]

theorem IsProper.eq_of_text {v' : Version} (hproper : v.IsProper) (hproper' : v'.IsProper)
    (htext : v.text = v'.text) : v = v' := by
  have hread := parse?_eq_some_iff.mpr ⟨hproper, rfl⟩
  rw [htext, parse?_eq_some_iff.mpr ⟨hproper', rfl⟩] at hread
  exact (Option.some.inj hread).symm

def isTextChar (c : Char) : Bool := isDottedChar c || c == '+'

theorem isDottedChar_of_isDigit {c : Char} (hc : c.isDigit = true) : isDottedChar c = true := by
  have halphanum : c.isAlphanum = true := Bool.or_eq_true_iff.mpr (.inr hc)
  simp [isDottedChar, isIdentifierChar, halphanum]

theorem IsPart.chars {isPre : Bool} {part : List Char} (hpart : IsPart isPre part) {mark : Char}
    (hmark : isTextChar mark = true) : ∀ c ∈ marked mark part, isTextChar c = true := by
  intro c hc
  rcases hpart with rfl | hdotted
  · cases hc
  · rw [marked_of_ne_nil hdotted.ne_nil] at hc
    rcases List.mem_cons.mp hc with rfl | hmem
    · exact hmark
    · exact Bool.or_eq_true_iff.mpr (.inl (isDottedChar_of_mem hdotted c hmem))

theorem IsProper.isTextChar_of_mem (hproper : v.IsProper) :
    ∀ c ∈ v.text.toList, isTextChar c = true := by
  have hdigits : ∀ n, ∀ c ∈ Nat.toDigits 10 n, isTextChar c = true := fun n c hc =>
    Bool.or_eq_true_iff.mpr (.inl (isDottedChar_of_isDigit (Toml.isDigit_toDigits n c hc)))
  have hpre := hproper.pre.chars (by decide : isTextChar '-' = true)
  have hbuild := hproper.build.chars (by decide : isTextChar '+' = true)
  have hdot : isTextChar '.' = true := by decide
  intro c hc
  simp only [toList_text, chars, List.mem_append, List.mem_cons] at hc
  rcases hc with hc | rfl | hc | rfl | hc | hc | hc
  · exact hdigits _ c hc
  · exact hdot
  · exact hdigits _ c hc
  · exact hdot
  · exact hdigits _ c hc
  · exact hpre c hc
  · exact hbuild c hc

/-- The text of a version starts with a digit. -/
theorem exists_text_cons (v : Version) :
    ∃ c rest, v.text.toList = c :: rest ∧ c.isDigit = true := by
  obtain ⟨c, more, hdigits⟩ :=
    List.exists_cons_of_ne_nil (Nat.toDigits_ne_nil (n := v.major) (b := 10))
  have hc := Toml.isDigit_toDigits v.major c (by rw [hdigits]; exact List.mem_cons_self)
  exact ⟨c, _, by rw [toList_text, chars, hdigits, List.cons_append], hc⟩

end Texts

end Version

namespace Comparator

variable {cs rest : List Char} {c : Comparator}

/-- Whether a comparator can be written: its version can, parts are left open
from the last one on, and only a complete version has a pre-release. -/
structure IsProper (c : Comparator) : Prop where
  version : c.version.IsProper
  minor_of_patch : c.patch.isSome = true → c.minor.isSome = true
  patch_of_pre : c.pre ≠ [] → c.patch.isSome = true

theorem takePart?_cases {part : Part} (hread : takePart? cs = some (part, rest)) :
    (part = .absent ∧ rest = cs ∧ Version.afterDot? cs = none) ∨ part = .wildcard ∨
      ∃ n < Version.numberBound, part = .number n := by
  unfold takePart? at hread
  split at hread
  · rename_i hdot
    obtain ⟨rfl, rfl⟩ := Prod.mk.inj (Option.some.inj hread)
    exact .inl ⟨rfl, rfl, hdot⟩
  · split at hread
    · obtain ⟨rfl, -⟩ := Prod.mk.inj (Option.some.inj hread)
      exact .inr (.inl rfl)
    · obtain ⟨⟨n, more⟩, hnumber, hpair⟩ := Option.map_eq_some_iff.mp hread
      obtain ⟨rfl, -⟩ := Prod.mk.inj hpair
      exact .inr (.inr ⟨n, (Version.takeNumber?_eq_some_iff.mp hnumber).1, rfl⟩)

theorem takePart?_number_lt {part : Part} (hread : takePart? cs = some (part, rest)) :
    part.number?.getD 0 < Version.numberBound := by
  rcases takePart?_cases hread with ⟨rfl, -⟩ | rfl | ⟨n, hn, rfl⟩
  · exact Nat.pow_pos (by decide)
  · exact Nat.pow_pos (by decide)
  · exact hn

theorem take?_isProper (hread : take? cs = some (c, rest)) : c.IsProper := by
  simp only [take?, Option.bind_eq_bind, Option.bind_eq_some_iff, Prod.exists] at hread
  obtain ⟨major, cs₁, hmajor, minor, cs₂, hminor, patch, cs₃, hpatch, hread⟩ := hread
  obtain ⟨hmajor, -, -⟩ := Version.takeNumber?_eq_some_iff.mp hmajor
  obtain ⟨hwild, hread⟩ := Option.ite_none_left_eq_some.mp hread
  have hminor_lt := takePart?_number_lt hminor
  have hpatch_lt := takePart?_number_lt hpatch
  have hopen : patch.number?.isSome = true → minor.number?.isSome = true := by
    intro hsome
    rcases takePart?_cases hminor with ⟨rfl, rfl, hdot⟩ | rfl | ⟨n, -, rfl⟩
    · -- without a dot behind the first number there is none for the third
      rcases takePart?_cases hpatch with ⟨rfl, -⟩ | rfl | ⟨n, -, rfl⟩
      · exact hsome
      · exact hsome
      · rw [takePart?, hdot] at hpatch
        cases hpatch
    · exact absurd (by rw [hsome]; rfl) hwild
    · rfl
  by_cases hsome : patch.number?.isSome = true
  · simp only [hsome, if_true, Option.bind_eq_some_iff, Prod.exists] at hread
    obtain ⟨pre, cs₄, hpre, build, cs₅, -, hc⟩ := hread
    obtain ⟨rfl, -⟩ := Prod.mk.inj (Option.some.inj hc)
    obtain ⟨hpart, -⟩ := Version.takeMarked?_eq_some_iff.mp hpre
    exact ⟨⟨hmajor, hminor_lt, hpatch_lt, hpart, .inl rfl⟩, hopen, fun _ => hsome⟩
  · simp only [hsome, Bool.false_eq_true, if_false, Option.bind_some] at hread
    obtain ⟨rfl, -⟩ := Prod.mk.inj (Option.some.inj hread)
    exact ⟨⟨hmajor, hminor_lt, hpatch_lt, .inl rfl, .inl rfl⟩, hopen, fun hne => absurd rfl hne⟩

/-- The characters of a comparator behind its relation. -/
def isBodyChar (c : Char) : Bool := Version.isTextChar c || c == '*'

/-- What is read as a comparator: marks of a relation and spaces, a word that
starts with a digit, and spaces. -/
def Takes (cs rest : List Char) : Prop :=
  ∃ lead digit word gap, cs = lead ++ digit :: word ++ gap ++ rest ∧
    (∀ c ∈ lead, c ∈ "=<>~^ ".toList) ∧ digit.isDigit = true ∧
    (∀ c ∈ word, isBodyChar c = true) ∧ ∀ c ∈ gap, c = ' '

theorem skipSpaces_spec (cs : List Char) : ∃ gap, cs = gap ++ skipSpaces cs ∧ ∀ c ∈ gap, c = ' ' :=
  ⟨cs.takeWhile (· == ' '), List.takeWhile_append_dropWhile.symm,
    fun _ hc => by simpa using List.mem_takeWhile_imp hc⟩

theorem takeRelation_spec (cs : List Char) :
    ∃ lead, cs = lead ++ (takeRelation cs).2 ∧ ∀ c ∈ lead, c ∈ "=<>~^ ".toList := by
  unfold takeRelation
  split
  · exact ⟨['='], rfl, by simp⟩
  · exact ⟨['>', '='], rfl, by simp⟩
  · exact ⟨['>'], rfl, by simp⟩
  · exact ⟨['<', '='], rfl, by simp⟩
  · exact ⟨['<'], rfl, by simp⟩
  · exact ⟨['~'], rfl, by simp⟩
  · exact ⟨['^'], rfl, by simp⟩
  · exact ⟨[], rfl, by simp⟩

theorem isBodyChar_of_isTextChar {ch : Char} (hch : Version.isTextChar ch = true) :
    isBodyChar ch = true := by
  simp [isBodyChar, hch]

theorem isBodyChar_of_isDigit {ch : Char} (hch : ch.isDigit = true) : isBodyChar ch = true := by
  simp [isBodyChar, Version.isTextChar, Version.isDottedChar_of_isDigit hch]

theorem afterWildcard?_spec (hread : afterWildcard? cs = some rest) :
    ∃ ch, cs = ch :: rest ∧ isBodyChar ch = true := by
  cases cs with
  | nil => cases hread
  | cons ch more =>
      obtain ⟨hwild, hmore⟩ := Option.ite_none_right_eq_some.mp hread
      refine ⟨ch, by rw [Option.some.inj hmore], ?_⟩
      simp only [Bool.or_eq_true, beq_iff_eq] at hwild
      rcases hwild with (rfl | rfl) | rfl <;> decide

theorem takePart?_spec {part : Part} (hread : takePart? cs = some (part, rest)) :
    ∃ word, cs = word ++ rest ∧ ∀ ch ∈ word, isBodyChar ch = true := by
  unfold takePart? at hread
  split at hread
  · obtain ⟨-, rfl⟩ := Prod.mk.inj (Option.some.inj hread)
    exact ⟨[], rfl, fun _ hch => nomatch hch⟩
  · rename_i more hdot
    obtain rfl := Version.afterDot?_eq_some_iff.mp hdot
    split at hread
    · rename_i hwild
      obtain ⟨-, rfl⟩ := Prod.mk.inj (Option.some.inj hread)
      obtain ⟨ch, rfl, hch⟩ := afterWildcard?_spec hwild
      refine ⟨['.', ch], rfl, ?_⟩
      simp only [List.mem_cons, List.not_mem_nil, or_false]
      rintro d (rfl | rfl)
      · decide
      · exact hch
    · obtain ⟨⟨n, more'⟩, hnumber, hpair⟩ := Option.map_eq_some_iff.mp hread
      obtain ⟨-, rfl⟩ := Prod.mk.inj hpair
      obtain ⟨-, rfl, -⟩ := Version.takeNumber?_eq_some_iff.mp hnumber
      refine ⟨'.' :: Nat.toDigits 10 n, rfl, List.forall_mem_cons.mpr ⟨by decide, ?_⟩⟩
      exact fun ch hch => isBodyChar_of_isDigit (Toml.isDigit_toDigits n ch hch)

theorem takeMarked?_spec {mark : Char} {isPre : Bool} {text : List Char}
    (hmark : Version.isTextChar mark = true)
    (hread : Version.takeMarked? mark isPre cs = some (text, rest)) :
    ∃ word, cs = word ++ rest ∧ ∀ ch ∈ word, isBodyChar ch = true := by
  obtain ⟨hpart, hcs, -⟩ := Version.takeMarked?_eq_some_iff.mp hread
  exact ⟨_, hcs, fun ch hch => isBodyChar_of_isTextChar (hpart.chars hmark ch hch)⟩

theorem take?_takes (hread : take? cs = some (c, rest)) : Takes cs rest := by
  obtain ⟨lead, hlead, hmarks⟩ := takeRelation_spec cs
  obtain ⟨spaces, hspaces, hblank⟩ := skipSpaces_spec (takeRelation cs).2
  simp only [take?, Option.bind_eq_bind, Option.bind_eq_some_iff, Prod.exists] at hread
  obtain ⟨major, cs₁, hmajor, minor, cs₂, hminor, patch, cs₃, hpatch, hread⟩ := hread
  obtain ⟨-, hnumber, -⟩ := Version.takeNumber?_eq_some_iff.mp hmajor
  obtain ⟨first, hfirst, hfirst'⟩ := takePart?_spec hminor
  obtain ⟨second, hsecond, hsecond'⟩ := takePart?_spec hpatch
  obtain ⟨-, hread⟩ := Option.ite_none_left_eq_some.mp hread
  obtain ⟨third, cs₄, hthird, hthird', hrest⟩ : ∃ third cs₄, cs₃ = third ++ cs₄ ∧
      (∀ ch ∈ third, isBodyChar ch = true) ∧ rest = skipSpaces cs₄ := by
    by_cases hsome : patch.number?.isSome = true
    · simp only [hsome, if_true, Option.bind_eq_some_iff, Prod.exists] at hread
      obtain ⟨pre, cs₄, hpre, build, cs₅, hbuild, hc⟩ := hread
      obtain ⟨-, rfl⟩ := Prod.mk.inj (Option.some.inj hc)
      obtain ⟨word, rfl, hword⟩ := takeMarked?_spec (by decide) hpre
      obtain ⟨word', rfl, hword'⟩ := takeMarked?_spec (by decide) hbuild
      refine ⟨word ++ word', cs₅, (List.append_assoc _ _ _).symm, ?_, rfl⟩
      exact List.forall_mem_append.mpr ⟨hword, hword'⟩
    · simp only [hsome, Bool.false_eq_true, if_false, Option.bind_some] at hread
      obtain ⟨-, rfl⟩ := Prod.mk.inj (Option.some.inj hread)
      exact ⟨[], cs₃, rfl, fun _ hch => (nomatch hch), rfl⟩
  obtain ⟨gap, hgap, hgap'⟩ := skipSpaces_spec cs₄
  obtain ⟨digit, digits, hdigits⟩ :=
    List.exists_cons_of_ne_nil (Nat.toDigits_ne_nil (n := major) (b := 10))
  have hdigit := Toml.isDigit_toDigits major
  rw [hdigits] at hdigit hnumber
  obtain ⟨hdigit, hmore⟩ := List.forall_mem_cons.mp hdigit
  refine ⟨lead ++ spaces, digit, digits ++ first ++ second ++ third, gap, ?_, ?_, hdigit, ?_, hgap'⟩
  · rw [hlead, hspaces, hnumber, hfirst, hsecond, hthird, hgap, hrest]
    simp
  · refine List.forall_mem_append.mpr ⟨hmarks, fun ch hch => ?_⟩
    rw [hblank ch hch]
    decide
  · simp only [List.forall_mem_append]
    exact ⟨⟨⟨fun ch hch => isBodyChar_of_isDigit (hmore ch hch), hfirst'⟩, hsecond'⟩, hthird'⟩

/-- A list of comparators starts with one, and a comma stands before further
ones. -/
theorem parseList?_cases {limit : Nat} {listed : List Comparator}
    (hread : parseList? limit cs = some listed) :
    ∃ first rest more, take? cs = some (first, rest) ∧ listed = first :: more ∧
      (rest = [] ∨ ∃ behind lower, rest = ',' :: behind ∧ lower + 1 = limit ∧
        parseList? lower (skipSpaces behind) = some more) := by
  cases limit with
  | zero => cases hread
  | succ limit =>
      rw [parseList?] at hread
      split at hread
      · cases hread
      · rename_i first htake
        exact ⟨first, [], [], htake, (Option.some.inj hread).symm, .inl rfl⟩
      · rename_i first behind htake
        obtain ⟨more, hmore, hlisted⟩ := Option.map_eq_some_iff.mp hread
        exact ⟨first, _, more, htake, hlisted.symm, .inr ⟨behind, limit, rfl, rfl, hmore⟩⟩
      · cases hread

end Comparator

end WebAudit
