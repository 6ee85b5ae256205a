import WebAudit.Proofs.VersionTexts

/-!
The version that a declared range is looked up at. It is the text of a version
that can be written, so looking that text up gives it again. Blanks around a
declaration do not matter to it, nor do letters `v` in front of a plain version.
Neither does an alternative behind a declaration, but for one kind of them: a
declaration that ends in a hyphen and a single bar is cut one character earlier
when two more bars follow.
-/

namespace WebAudit

open Text

section Pieces

variable {needle before cs rest : List Char} {c : Char}

theorem firstPiece_some (hsplit : splitAt? needle cs = some (before, rest)) :
    firstPiece needle cs = trim before := by
  simp only [firstPiece, hsplit]

theorem firstPiece_none (hsplit : splitAt? needle cs = none) : firstPiece needle cs = trim cs := by
  simp only [firstPiece, hsplit]

theorem firstPiece_trimmed (needle cs : List Char) : Trimmed (firstPiece needle cs) := by
  unfold firstPiece
  split <;> exact trim_trimmed _

/-- Blanks around a text do not matter to its first piece. -/
theorem firstPiece_trim (hneedle : ∀ c ∈ needle, isBlank c = false) (hne : needle ≠ [])
    (cs : List Char) : firstPiece needle (trim cs) = firstPiece needle cs := by
  obtain ⟨lead, tail, hlead, htail, hcs⟩ := exists_trim cs
  cases hsplit : splitAt? needle (trim cs) with
  | none =>
      have hnone : splitAt? needle cs = none := by
        rw [splitAt?_eq_none_iff] at hsplit ⊢
        rwa [hcs, isInfix_append_blank htail hneedle hne, isInfix_blank_append hlead hneedle hne]
      rw [firstPiece_none hsplit, firstPiece_none hnone, (trim_trimmed cs).trim_eq]
  | some parts =>
      obtain ⟨before, rest⟩ := parts
      obtain ⟨htrim, hfirst⟩ := (splitAt?_eq_some_iff hne).mp hsplit
      have hwhole : splitAt? needle cs = some (lead ++ before, rest ++ tail) := by
        refine (splitAt?_eq_some_iff hne).mpr ⟨?_, ?_⟩
        · rw [hcs, htrim]
          simp
        · rwa [List.append_assoc, isInfix_blank_append hlead hneedle hne]
      rw [firstPiece_some hsplit, firstPiece_some hwhole, trim_blank_append hlead]

theorem trim_cons (hc : isBlank c = false) (hcs : ∀ d ∈ cs.head?, isBlank d = false) :
    trim (c :: cs) = c :: trim cs := by
  obtain ⟨tail, htail, hend⟩ := exists_trimEnd cs
  have hstart : trim cs = trimEnd cs := by
    cases cs with
    | nil => rfl
    | cons d more =>
        rw [trim, trimStart, List.dropWhile_cons_of_neg (by simp [hcs d rfl])]
  have htrimmed : Trimmed (c :: trim cs) := by
    refine ⟨fun d hd => by cases hd; exact hc, fun d hd => ?_⟩
    rw [List.getLast?_cons, Option.mem_some_iff] at hd
    cases hlast : (trim cs).getLast? with
    | none =>
        rw [hlast] at hd
        rw [← hd]
        exact hc
    | some e =>
        rw [hlast] at hd
        exact (trim_trimmed cs).last d (hlast.trans (congrArg some hd))
  calc
    trim (c :: cs) = trim (c :: trim cs ++ tail) := by rw [hstart, List.cons_append, ← hend]
    _ = c :: trim cs := by rw [trim_append_blank htail, htrimmed.trim_eq]

/-- A character in front of a text is in front of its first piece. -/
theorem firstPiece_cons (hc : isBlank c = false) (hcs : ∀ d ∈ cs.head?, isBlank d = false)
    (hother : needle.head? ≠ some c) (hne : needle ≠ []) :
    firstPiece needle (c :: cs) = c :: firstPiece needle cs := by
  have hstart : after? needle (c :: cs) = none := by
    obtain ⟨d, needle, rfl⟩ := List.exists_cons_of_ne_nil hne
    refine if_neg fun hsame => hother ?_
    rw [beq_iff_eq.mp hsame]
    rfl
  have hsplit : splitAt? needle (c :: cs) =
      (splitAt? needle cs).map fun parts => (c :: parts.1, parts.2) := by
    rw [splitAt?]
    simp only [hstart]
  cases hrest : splitAt? needle cs with
  | none =>
      rw [hrest, Option.map_none] at hsplit
      rw [firstPiece_none hsplit, firstPiece_none hrest, trim_cons hc hcs]
  | some parts =>
      obtain ⟨before, rest⟩ := parts
      rw [hrest, Option.map_some] at hsplit
      rw [firstPiece_some hsplit, firstPiece_some hrest]
      refine trim_cons hc fun d hd => hcs d ?_
      rw [eq_of_splitAt? hrest, List.append_assoc, List.head?_append, hd]
      rfl

end Pieces

namespace Declaration

def readPart (spec : String) : List Char := firstAlternative (trim spec.toList)

def named? (part : List Char) : Option Version :=
  (Version.parse? (part.dropWhile (· == 'v'))).or
    (((Comparator.parseRequirement? part).bind List.head?).map Comparator.version)

/-- A part that is a version, with letters `v` in front. -/
def IsPlain (part : List Char) : Prop :=
  ∃ (n : Nat) (w : Version), w.IsProper ∧ part = List.replicate n 'v' ++ w.text.toList

/-- A declaration that ends in a hyphen range without an upper end, but for a
single bar. -/
structure EndsInBar (spec : List Char) : Prop where
  last : spec.getLast? = some '|'
  single : ¬"||".toList <:+: spec
  range : ∃ lower gap, splitAt? " - ".toList (trim spec) = some (lower, gap ++ ['|']) ∧ Blank gap

section Reading

variable {spec v : String} {part : List Char} {w : Version}

theorem normalizeVersion_eq_some_iff :
    normalizeVersion spec = some v ↔
      isNonRegistry (trim spec.toList) = false ∧
        ∃ w, named? (readPart spec) = some w ∧ w.text = v := by
  unfold normalizeVersion
  dsimp only
  cases isNonRegistry (trim spec.toList) with
  | true => simp
  | false =>
      simp only [Bool.false_eq_true, if_false, true_and, named?, readPart]
      cases Version.parse? (List.dropWhile (· == 'v') (firstAlternative (trim spec.toList))) with
      | some w => simp
      | none =>
          cases Comparator.parseRequirement? (firstAlternative (trim spec.toList)) with
          | none => simp
          | some cs => cases cs <;> simp

theorem readPart_eq (spec : String) : readPart spec = firstAlternative spec.toList := by
  have hbar : isBlank '|' = false := by decide
  rw [readPart, firstAlternative, firstPiece_trim (by simp [hbar]) (by simp)]
  rfl

/-- A part is plain when a version is left behind the letters `v` in front. -/
theorem parse?_dropWhile_iff :
    Version.parse? (part.dropWhile (· == 'v')) = some w ↔
      w.IsProper ∧ ∃ n, part = List.replicate n 'v' ++ w.text.toList := by
  rw [Version.parse?_eq_some_iff]
  refine and_congr_right fun _ => ?_
  constructor
  · intro hrest
    refine ⟨(part.takeWhile (· == 'v')).length, ?_⟩
    have hfront : part.takeWhile (· == 'v') =
        List.replicate (part.takeWhile (· == 'v')).length 'v' :=
      List.eq_replicate_of_mem fun c hc => by simpa using List.mem_takeWhile_imp hc
    rw [← hfront, ← hrest, List.takeWhile_append_dropWhile]
  · rintro ⟨n, hpart⟩
    obtain ⟨c, rest, htext, hc⟩ := w.exists_text_cons
    have hends : Ends (· == 'v') w.text.toList := by
      rw [htext]
      refine ends_cons (beq_eq_false_iff_ne.mpr ?_)
      rintro rfl
      exact absurd hc (by decide)
    exact (span_iff.mpr ⟨hpart, by simp, hends⟩).2

theorem named?_of_plain (hproper : w.IsProper) (n : Nat) :
    named? (List.replicate n 'v' ++ w.text.toList) = some w := by
  have hplain := parse?_dropWhile_iff.mpr ⟨hproper, n, rfl⟩
  rw [named?, hplain, Option.some_or]

theorem parseRequirement?_cons {c : Comparator} {more : List Comparator}
    (hread : Comparator.parseRequirement? part = some (c :: more)) :
    Comparator.parseList? Comparator.countLimit (Comparator.skipSpaces part) =
      some (c :: more) := by
  unfold Comparator.parseRequirement? at hread
  dsimp only at hread
  split at hread
  · obtain ⟨-, hnone⟩ := Option.ite_none_right_eq_some.mp hread
    cases hnone
  · exact hread

/-- A part names a version that it spells, or the version of a comparator that it
starts with. -/
theorem named?_cases (hnamed : named? part = some w) :
    (w.IsProper ∧ ∃ n, part = List.replicate n 'v' ++ w.text.toList) ∨
      ∃ c more, Comparator.parseRequirement? part = some (c :: more) ∧ c.version = w := by
  rcases Option.or_eq_some_iff.mp hnamed with hplain | ⟨-, hrange⟩
  · exact .inl (parse?_dropWhile_iff.mp hplain)
  · obtain ⟨c, hfirst, hw⟩ := Option.map_eq_some_iff.mp hrange
    obtain ⟨cs, hcs, hhead⟩ := Option.bind_eq_some_iff.mp hfirst
    obtain ⟨more, rfl⟩ := List.head?_eq_some_iff.mp hhead
    exact .inr ⟨c, more, hcs, hw⟩

theorem parseRequirement?_isProper {c : Comparator} {more : List Comparator}
    (hread : Comparator.parseRequirement? part = some (c :: more)) : c.IsProper := by
  obtain ⟨first, rest, more', htake, hlisted, -⟩ :=
    Comparator.parseList?_cases (parseRequirement?_cons hread)
  obtain ⟨rfl, -⟩ := List.cons.inj hlisted
  exact Comparator.take?_isProper htake

theorem named?_isProper (hnamed : named? part = some w) : w.IsProper := by
  rcases named?_cases hnamed with ⟨hproper, -⟩ | ⟨c, more, hread, rfl⟩
  · exact hproper
  · exact (parseRequirement?_isProper hread).version

/-- Only a plain version is looked up with build metadata. -/
theorem named?_build (hnamed : named? part = some w) (hbuild : w.build ≠ []) :
    ∃ n, part = List.replicate n 'v' ++ w.text.toList := by
  rcases named?_cases hnamed with ⟨-, hplain⟩ | ⟨c, more, -, rfl⟩
  · exact hplain
  · exact absurd rfl hbuild

end Reading

section Characters

variable {cs lead part : List Char} {w : Version}

/-- A text whose last character is no hyphen that stands behind a blank or
alone. -/
def NoLooseHyphen (cs : List Char) : Prop :=
  ∀ front, cs = front ++ ['-'] → ∃ c ∈ front.getLast?, isBlank c = false

theorem NoLooseHyphen.append_left (hcs : NoLooseHyphen cs) (hne : cs ≠ []) (lead : List Char) :
    NoLooseHyphen (lead ++ cs) := by
  intro front hfront
  rcases List.eq_nil_or_concat' cs with rfl | ⟨init, last, rfl⟩
  · exact absurd rfl hne
  · rw [← List.append_assoc] at hfront
    obtain ⟨rfl, hlast⟩ := List.append_inj' hfront rfl
    obtain ⟨c, hc, hblank⟩ := hcs init (by rw [hlast])
    refine ⟨c, ?_, hblank⟩
    rw [List.getLast?_append, hc]
    rfl

theorem isBlank_of_isBodyChar {c : Char} (hc : Comparator.isBodyChar c = true) :
    isBlank c = false ∧ c ≠ '|' := by
  simp only [Comparator.isBodyChar, Version.isTextChar, Version.isDottedChar,
    Version.isIdentifierChar, Bool.or_eq_true, beq_iff_eq] at hc
  rcases hc with (((halnum | rfl) | rfl) | rfl) | rfl
  · have hcode := isAlphanum_code halnum
    constructor
    · rw [Bool.eq_false_iff]
      intro hblank
      simp only [isBlank, Bool.or_eq_true, Bool.and_eq_true, decide_eq_true_eq,
        beq_iff_eq] at hblank
      omega
    · rintro rfl
      have hbar : '|'.toNat = 124 := rfl
      omega
  all_goals decide

/-- A word that starts with a digit has no hyphen that stands alone. -/
theorem noLooseHyphen_of_digit {digit : Char} {word : List Char} (hdigit : digit.isDigit = true)
    (hword : ∀ c ∈ word, Comparator.isBodyChar c = true) (lead : List Char) :
    NoLooseHyphen (lead ++ digit :: word) := by
  refine NoLooseHyphen.append_left ?_ (List.cons_ne_nil _ _) lead
  intro front hfront
  cases front with
  | nil =>
      obtain ⟨rfl, -⟩ := List.cons.inj hfront
      exact absurd hdigit (by decide)
  | cons d front =>
      obtain ⟨rfl, hrest⟩ := List.cons.inj hfront
      have hbody : ∀ c ∈ digit :: front, Comparator.isBodyChar c = true := by
        refine List.forall_mem_cons.mpr ⟨Comparator.isBodyChar_of_isDigit hdigit, fun c hc => ?_⟩
        exact hword c (by rw [hrest]; exact List.mem_append_left _ hc)
      have hlast := hbody _ (List.getLast_mem (List.cons_ne_nil digit front))
      exact ⟨_, List.getLast?_eq_some_getLast _, (isBlank_of_isBodyChar hlast).1⟩

theorem clear_of_takes {rest : List Char} (htakes : Comparator.Takes cs rest)
    (hrest : rest ≠ [] → '|' ∉ rest ∧ NoLooseHyphen rest) : '|' ∉ cs ∧ NoLooseHyphen cs := by
  obtain ⟨lead, digit, word, gap, rfl, hlead, hdigit, hword, hgap⟩ := htakes
  have hbar : '|' ∉ lead ++ digit :: word ++ gap := by
    simp only [List.mem_append, List.mem_cons, not_or]
    refine ⟨⟨fun hmem => ?_, ?_, fun hmem => ?_⟩, fun hmem => ?_⟩
    · simpa using hlead '|' hmem
    · rintro rfl
      exact absurd hdigit (by decide)
    · exact (isBlank_of_isBodyChar (hword '|' hmem)).2 rfl
    · exact absurd (hgap '|' hmem) (by decide)
  by_cases hne : rest = []
  · subst hne
    rw [List.append_nil]
    refine ⟨hbar, ?_⟩
    rcases List.eq_nil_or_concat' gap with rfl | ⟨init, last, rfl⟩
    · rw [List.append_nil]
      exact noLooseHyphen_of_digit hdigit hword lead
    · -- the last character is a space
      intro front hfront
      rw [← List.append_assoc] at hfront
      obtain ⟨-, hlast⟩ := List.append_inj' hfront rfl
      have hspace := hgap last (by simp)
      rw [hspace] at hlast
      exact absurd hlast (by decide)
  · obtain ⟨hclear, hloose⟩ := hrest hne
    refine ⟨fun hmem => ?_, hloose.append_left hne _⟩
    exact (List.mem_append.mp hmem).elim hbar hclear

theorem clear_of_parseList? {limit : Nat} {listed : List Comparator}
    (hread : Comparator.parseList? limit cs = some listed) :
    cs ≠ [] ∧ '|' ∉ cs ∧ NoLooseHyphen cs := by
  induction limit generalizing cs listed with
  | zero => cases hread
  | succ limit ih =>
      obtain ⟨first, rest, more, htake, -, hrest⟩ := Comparator.parseList?_cases hread
      have htakes := Comparator.take?_takes htake
      refine ⟨?_, clear_of_takes htakes fun hne => ?_⟩
      · obtain ⟨lead, digit, word, gap, rfl, -⟩ := htakes
        simp
      · obtain ⟨behind, lower, rfl, hlower, hmore⟩ := hrest.resolve_left hne
        obtain rfl : lower = limit := Nat.succ.inj hlower
        obtain ⟨hne', hbar, hloose⟩ := ih hmore
        obtain ⟨gap, hgap, hspaces⟩ := Comparator.skipSpaces_spec behind
        have hbehind : ',' :: behind = (',' :: gap) ++ Comparator.skipSpaces behind := by
          rw [List.cons_append, ← hgap]
        rw [hbehind]
        refine ⟨fun hmem => ?_, hloose.append_left hne' _⟩
        rcases List.mem_append.mp hmem with hlead | hmem
        · rcases List.mem_cons.mp hlead with hcomma | hspace
          · exact absurd hcomma (by decide)
          · exact absurd (hspaces _ hspace) (by decide)
        · exact hbar hmem

/-- A part that names a version has no bar, and no hyphen stands alone at its
end. -/
theorem named?_clear (hnamed : named? part = some w) : '|' ∉ part ∧ NoLooseHyphen part := by
  rcases named?_cases hnamed with ⟨hproper, n, rfl⟩ | ⟨c, more, hread, -⟩
  · obtain ⟨digit, word, htext, hdigit⟩ := w.exists_text_cons
    have hchars := hproper.isTextChar_of_mem
    rw [htext] at hchars ⊢
    have hbody : ∀ c ∈ digit :: word, Comparator.isBodyChar c = true := fun c hc =>
      Comparator.isBodyChar_of_isTextChar (hchars c hc)
    refine ⟨fun hmem => ?_, noLooseHyphen_of_digit hdigit (List.forall_mem_cons.mp hbody).2 _⟩
    rcases List.mem_append.mp hmem with hv | hmem
    · exact absurd (List.eq_of_mem_replicate hv) (by decide)
    · exact (isBlank_of_isBodyChar (hbody _ hmem)).2 rfl
  · obtain ⟨hne, hbar, hloose⟩ := clear_of_parseList? (parseRequirement?_cons hread)
    obtain ⟨gap, hgap, hspaces⟩ := Comparator.skipSpaces_spec part
    rw [hgap]
    refine ⟨fun hmem => ?_, hloose.append_left hne _⟩
    rcases List.mem_append.mp hmem with hspace | hmem
    · exact absurd (hspaces _ hspace) (by decide)
    · exact hbar hmem

end Characters

section Registry

variable {cs rest : List Char} {c : Char}

theorem isNonRegistry_eq_false_iff :
    isNonRegistry cs = false ↔
      cs ≠ [] ∧ cs ≠ ['*'] ∧ eqIgnoreCase cs "latest".toList = false ∧
        (∀ s ∈ nonRegistryStarts, ¬s.toList <+: cs) ∧ '/' ∉ cs := by
  simp only [isNonRegistry, Bool.or_eq_false_iff, List.isEmpty_eq_false_iff, beq_eq_false_iff_ne,
    List.any_eq_false, startsWith_iff, List.contains_eq_mem, decide_eq_false_iff_not, and_assoc]

/-- A text that starts with a digit or with a `v` is a place outside the registry
only if it has a slash. -/
theorem isNonRegistry_cons (hc : c.isDigit = true ∨ c = 'v') (hslash : '/' ∉ c :: rest) :
    isNonRegistry (c :: rest) = false := by
  have hother : c ≠ '*' ∧ c.toLower ≠ 'l' := by
    rcases hc with hdigit | rfl
    · obtain ⟨hchar, hsmall⟩ := digitChar_of_isDigit hdigit
      have hall : ∀ d < 10, Nat.digitChar d ≠ '*' ∧ (Nat.digitChar d).toLower ≠ 'l' := by decide
      rw [← hchar]
      exact hall _ hsmall
    · decide
  refine isNonRegistry_eq_false_iff.mpr ⟨List.cons_ne_nil _ _, ?_, ?_, ?_, hslash⟩
  · exact fun hstar => hother.1 (List.cons.inj hstar).1
  · refine beq_eq_false_iff_ne.mpr fun hsame => hother.2 ?_
    exact (List.cons.inj hsame).1
  · intro s hs hstart
    have hall : (nonRegistryStarts.all fun s =>
        s.toList.head?.any fun d => !d.isDigit && d != 'v') = true := by decide
    have hfirst := List.all_eq_true.mp hall s hs
    cases hlist : s.toList with
    | nil =>
        rw [hlist] at hfirst
        cases hfirst
    | cons d more =>
        rw [hlist] at hfirst hstart
        obtain ⟨behind, hboth⟩ := hstart
        obtain rfl : d = c := (List.cons.inj hboth).1
        have hd : (!d.isDigit && d != 'v') = true := hfirst
        rcases hc with hdigit | rfl
        · simp [hdigit] at hd
        · cases hd

end Registry

section Unchanged

variable {spec v : String} {cs body : List Char} {w : Version}

/-- The text of a version is looked up as it is. -/
theorem normalizeVersion_text (hproper : w.IsProper) : normalizeVersion w.text = some w.text := by
  obtain ⟨digit, word, htext, hdigit⟩ := w.exists_text_cons
  have hbody : ∀ c ∈ w.text.toList, Comparator.isBodyChar c = true := fun c hc =>
    Comparator.isBodyChar_of_isTextChar (hproper.isTextChar_of_mem c hc)
  have hforeign : ∀ c, Comparator.isBodyChar c = false → c ∉ w.text.toList := by
    intro c hc hmem
    rw [hbody c hmem] at hc
    cases hc
  have htrim : trim w.text.toList = w.text.toList :=
    (trimmed_of_forall fun c hc => (isBlank_of_isBodyChar (hbody c hc)).1).trim_eq
  have hbars : splitAt? "||".toList w.text.toList = none :=
    splitAt?_eq_none (hforeign '|' (by decide))
  have hhyphen : splitAt? " - ".toList w.text.toList = none :=
    splitAt?_eq_none (hforeign ' ' (by decide))
  have hpart : readPart w.text = w.text.toList := by
    rw [readPart_eq, firstAlternative, firstPiece_none hbars, htrim, firstPiece_none hhyphen, htrim]
  refine normalizeVersion_eq_some_iff.mpr ⟨?_, w, ?_, rfl⟩
  · have hslash := hforeign '/' (by decide)
    rw [htrim]
    rw [htext] at hslash ⊢
    exact isNonRegistry_cons (.inl hdigit) hslash
  · have hplain := named?_of_plain hproper 0
    rwa [List.replicate_zero, List.nil_append, ← hpart] at hplain

theorem normalizeVersion_congr {spec' : String} (htrim : trim spec.toList = trim spec'.toList) :
    normalizeVersion spec = normalizeVersion spec' := by
  simp only [normalizeVersion, htrim]

theorem normalizeVersion_blanks (spec : String) {lead tail : String} (hlead : Blank lead.toList)
    (htail : Blank tail.toList) :
    normalizeVersion (lead ++ spec ++ tail) = normalizeVersion spec := by
  apply normalizeVersion_congr
  rw [String.toList_append, String.toList_append, trim_append_blank htail, trim_blank_append hlead]

theorem head_replicate (hbody : ∀ c ∈ body.head?, isBlank c = false) (n : Nat) :
    ∀ c ∈ (List.replicate n 'v' ++ body).head?, isBlank c = false := by
  cases n with
  | zero => exact hbody
  | succ n =>
      rintro c ⟨⟩
      decide

theorem trim_replicate (hbody : ∀ c ∈ body.head?, isBlank c = false) (n : Nat) :
    trim (List.replicate n 'v' ++ body) = List.replicate n 'v' ++ trim body := by
  induction n with
  | zero => rfl
  | succ n ih =>
      rw [List.replicate_succ, List.cons_append, List.cons_append, ← ih,
        trim_cons (by decide) (head_replicate hbody n)]

theorem firstAlternative_replicate (hbody : ∀ c ∈ body.head?, isBlank c = false) (n : Nat) :
    firstAlternative (List.replicate n 'v' ++ body) =
      List.replicate n 'v' ++ firstAlternative body := by
  induction n with
  | zero => rfl
  | succ n ih =>
      rw [List.replicate_succ, List.cons_append, List.cons_append, ← ih, firstAlternative,
        firstPiece_cons (by decide) (head_replicate hbody n) (by decide) (by simp),
        firstPiece_cons (by decide) (firstPiece_trimmed _ _).head (by decide) (by simp)]
      rfl

/-- Letters `v` in front of a plain version do not change what is looked up. -/
theorem normalizeVersion_replicate {body : String} (hnormal : normalizeVersion body = some v)
    (hplain : IsPlain (readPart body)) (hbody : ∀ c ∈ body.toList.head?, isBlank c = false)
    (n : Nat) :
    normalizeVersion (String.ofList (List.replicate n 'v') ++ body) = some v := by
  obtain ⟨hregistry, w, hnamed, rfl⟩ := normalizeVersion_eq_some_iff.mp hnormal
  obtain ⟨m, w', hproper, hpart⟩ := hplain
  rw [hpart, named?_of_plain hproper m] at hnamed
  obtain rfl := Option.some.inj hnamed
  refine normalizeVersion_eq_some_iff.mpr ⟨?_, w', ?_, rfl⟩
  · rw [String.toList_append, String.toList_ofList, trim_replicate hbody]
    cases n with
    | zero => exact hregistry
    | succ n =>
        have hslash := (isNonRegistry_eq_false_iff.mp hregistry).2.2.2.2
        rw [List.replicate_succ, List.cons_append]
        refine isNonRegistry_cons (.inr rfl) ?_
        simp only [List.mem_cons, List.mem_append, List.mem_replicate, not_or]
        exact ⟨by decide, by simp, hslash⟩
  · rw [readPart_eq, String.toList_append, String.toList_ofList, firstAlternative_replicate hbody,
      ← readPart_eq, hpart, ← List.append_assoc, ← List.replicate_add]
    exact named?_of_plain hproper (n + m)

end Unchanged

section Alternatives

variable {spec v : String} {cs more : List Char} {w : Version}

/-- A start of a trimmed text without blanks and bars is one of what stands
before two bars. -/
theorem isPrefix_alternative {start : List Char} (hne : trim cs ≠ [])
    (hstart : ∀ c ∈ start, isBlank c = false ∧ c ≠ '|')
    (hleads : start <+: trim (cs ++ "||".toList ++ more)) : start <+: trim cs := by
  obtain ⟨lead, tail, hlead, htail, hcs⟩ := exists_trim cs
  have hwhole : trim (cs ++ "||".toList ++ more) =
      trim (trim cs ++ (tail ++ "||".toList ++ more)) := by
    nth_rewrite 1 [hcs]
    simp only [List.append_assoc]
    rw [trim_blank_append hlead]
  rw [hwhole] at hleads
  refine isPrefix_of_append (hleads.trans ((trim_trimmed cs).isPrefix_trim hne _).2) ?_
  intro c hc hmem
  obtain ⟨hblank, hbar⟩ := hstart c hmem
  cases tail with
  | nil => exact hbar (Option.some.inj hc).symm
  | cons d tail =>
      obtain rfl : d = c := Option.some.inj hc
      rw [htail d List.mem_cons_self] at hblank
      cases hblank

theorem isNonRegistry_alternative (hregistry : isNonRegistry (trim cs) = false) :
    isNonRegistry (trim (cs ++ "||".toList ++ more)) = false ↔ '/' ∉ more := by
  obtain ⟨hne, -, -, hstarts, hslash⟩ := isNonRegistry_eq_false_iff.mp hregistry
  have hmem : ∀ c, isBlank c = false →
      (c ∈ trim (cs ++ "||".toList ++ more) ↔ c ∈ cs ∨ c = '|' ∨ c ∈ more) := by
    intro c hc
    rw [mem_trim_iff hc]
    simp
  have hbar := (hmem '|' (by decide)).mpr (.inr (.inl rfl))
  rw [isNonRegistry_eq_false_iff]
  constructor
  · rintro ⟨-, -, -, -, hnone⟩ hmore
    exact hnone ((hmem '/' (by decide)).mpr (.inr (.inr hmore)))
  · intro hmore
    refine ⟨List.ne_nil_of_mem hbar, ?_, ?_, ?_, ?_⟩
    · intro hstar
      rw [hstar] at hbar
      simp at hbar
    · refine beq_eq_false_iff_ne.mpr fun hsame => ?_
      have hlower : '|' ∈ lowerAscii "latest".toList := by
        rw [← hsame]
        exact List.mem_map.mpr ⟨'|', hbar, by decide⟩
      exact absurd hlower (by decide)
    · intro start hmember hleads
      have hall : (nonRegistryStarts.all fun s =>
          s.toList.all fun c => !isBlank c && c != '|') = true := by decide
      refine hstarts start hmember (isPrefix_alternative hne (fun c hc => ?_) hleads)
      simpa using List.all_eq_true.mp (List.all_eq_true.mp hall start hmember) c hc
    · rw [hmem '/' (by decide), not_or, not_or, ← mem_trim_iff (by decide)]
      exact ⟨hslash, by decide, hmore⟩

/-- Two more bars behind a text do not change its first piece, unless the first
of them makes a pair with a bar at its end. -/
theorem firstPiece_alternative (hcs : "||".toList <:+: cs ∨ cs.getLast? ≠ some '|') :
    firstPiece "||".toList (cs ++ "||".toList ++ more) = firstPiece "||".toList cs := by
  have hne : "||".toList ≠ [] := by simp
  by_cases hinfix : "||".toList <:+: cs
  · obtain ⟨⟨before, rest⟩, hsplit⟩ := Option.isSome_iff_exists.mp (occursIn_iff.mpr hinfix)
    have hwhole := splitAt?_append_right hne hsplit ("||".toList ++ more)
    rw [← List.append_assoc] at hwhole
    rw [firstPiece_some hsplit, firstPiece_some hwhole]
  · have hlast := hcs.resolve_left hinfix
    have hwhole : splitAt? "||".toList (cs ++ "||".toList ++ more) = some (cs, more) := by
      refine (splitAt?_eq_some_iff hne).mpr ⟨rfl, fun hpair => ?_⟩
      rcases List.infix_concat_iff.mp hpair with hsuffix | hinside
      · obtain ⟨front, hfront⟩ := hsuffix
        have hsame : front ++ ['|'] ++ ['|'] = cs ++ ['|'] := by
          rw [List.append_assoc]
          exact hfront
        obtain ⟨rfl, -⟩ := List.append_inj' hsame rfl
        simp at hlast
      · exact hinfix hinside
    rw [firstPiece_some hwhole, firstPiece_none (splitAt?_eq_none_iff.mpr hinfix)]

/-- Two more bars behind a text that ends in a single bar are cut with it. -/
theorem firstPiece_bar {front : List Char} (hsingle : ¬"||".toList <:+: front ++ ['|']) :
    firstPiece "||".toList (front ++ ['|'] ++ "||".toList ++ more) = trim front := by
  have hne : "||".toList ≠ [] := by simp
  have hwhole : splitAt? "||".toList (front ++ ['|'] ++ "||".toList ++ more) =
      some (front, '|' :: more) :=
    (splitAt?_eq_some_iff hne).mpr ⟨by simp, hsingle⟩
  exact firstPiece_some hwhole

theorem bar_trimmed : Trimmed ['|'] := by
  have hbar : isBlank '|' = false := by decide
  exact trimmed_of_forall (by simp [hbar])

theorem trim_bar {front : List Char} (hne : trim front ≠ []) :
    ∃ tail, Blank tail ∧ trim (front ++ ['|']) = trim front ++ tail ++ ['|'] := by
  obtain ⟨lead, tail, hlead, htail, hfront⟩ := exists_trim front
  have hboth := (trim_trimmed front).between hne bar_trimmed (List.cons_ne_nil _ _) tail
  refine ⟨tail, htail, ?_⟩
  nth_rewrite 1 [hfront]
  rw [List.append_assoc, List.append_assoc, trim_blank_append hlead, ← List.append_assoc,
    hboth.trim_eq]

/-- A declaration that ends in a single bar names a version only if it is a
hyphen range, with the bar in its upper end. -/
theorem exists_range {front : List Char} (hsingle : ¬"||".toList <:+: front ++ ['|'])
    (hnamed : named? (firstAlternative (front ++ ['|'])) = some w) :
    ∃ lower gap tail, Blank tail ∧
      splitAt? " - ".toList (trim (front ++ ['|'])) = some (lower, gap ++ ['|']) ∧
      trim front ++ tail = lower ++ " - ".toList ++ gap := by
  have hbar := (named?_clear hnamed).1
  rw [firstAlternative, firstPiece_none (splitAt?_eq_none_iff.mpr hsingle)] at hbar
  cases hsplit : splitAt? " - ".toList (trim (front ++ ['|'])) with
  | none =>
      rw [firstPiece_none hsplit, mem_trim_iff (by decide), mem_trim_iff (by decide)] at hbar
      simp at hbar
  | some parts =>
      obtain ⟨lower, rest⟩ := parts
      have hrange := eq_of_splitAt? hsplit
      have hne : trim front ≠ [] := by
        intro hnone
        obtain ⟨lead, tail, hlead, htail, hfront⟩ := exists_trim front
        rw [hnone, List.append_nil] at hfront
        have hlength := congrArg List.length hrange
        rw [hfront, List.append_assoc, trim_blank_append hlead, trim_blank_append htail,
          bar_trimmed.trim_eq] at hlength
        simp at hlength
        omega
      obtain ⟨tail, htail, htrim⟩ := trim_bar hne
      rw [htrim] at hrange
      rcases List.eq_nil_or_concat' rest with rfl | ⟨gap, last, rfl⟩
      · have hlast := congrArg List.getLast? hrange
        simp at hlast
      · rw [← List.append_assoc] at hrange
        obtain ⟨hfront, hlast⟩ := List.append_inj' hrange rfl
        rw [← hlast]
        exact ⟨lower, gap, tail, htail, rfl, hfront⟩

/-- With nothing but blanks behind the hyphen the text before the bar names no
version: the hyphen is left at its end. -/
theorem named?_hyphen {front lower gap tail : List Char} (htail : Blank tail) (hgap : Blank gap)
    (hfirst : ¬" - ".toList <:+: lower ++ " - ".toList.dropLast)
    (hfront : trim front ++ tail = lower ++ " - ".toList ++ gap) :
    named? (firstPiece " - ".toList (trim front)) = none := by
  have hcut : trim front = lower ++ " -".toList := by
    have hspace : Blank (' ' :: gap) := List.forall_mem_cons.mpr ⟨by decide, hgap⟩
    have hhyphen : isBlank '-' = false := by decide
    refine eq_of_append_blank (trim_trimmed front).last (by simp [hhyphen]) htail hspace ?_
    rw [hfront]
    simp
  have hnone : splitAt? " - ".toList (trim front) = none := by
    rw [hcut]
    exact splitAt?_eq_none_iff.mpr hfirst
  rw [firstPiece_none hnone, (trim_trimmed front).trim_eq, hcut]
  by_contra hsome
  obtain ⟨w', hw'⟩ := Option.ne_none_iff_exists'.mp hsome
  obtain ⟨c, hc, hword⟩ := (named?_clear hw').2 (lower ++ [' ']) (by simp)
  have hspace : c = ' ' := by simpa using hc.symm
  rw [hspace] at hword
  exact absurd hword (by decide)

/-- With an upper end behind the hyphen the text before the bar has the same lower
end. -/
theorem firstPiece_hyphen {front lower gap tail : List Char} (htail : Blank tail)
    (hgap : ¬Blank gap) (hfirst : ¬" - ".toList <:+: lower ++ " - ".toList.dropLast)
    (hfront : trim front ++ tail = lower ++ " - ".toList ++ gap) :
    firstPiece " - ".toList (trim front) = trim lower := by
  obtain ⟨behind, hbehind, hends⟩ := exists_trimEnd gap
  have hcut : trim front = lower ++ " - ".toList ++ trimEnd gap := by
    refine eq_of_append_blank (trim_trimmed front).last ?_ htail hbehind ?_
    · intro c hc
      rw [List.getLast?_append] at hc
      cases hlast : (trimEnd gap).getLast? with
      | some d =>
          rw [hlast, Option.some_or] at hc
          exact getLast_trimEnd gap c (hlast.trans hc)
      | none =>
          rw [List.getLast?_eq_none_iff.mp hlast, List.nil_append] at hends
          exact absurd (hends ▸ hbehind) hgap
    · rw [hfront, List.append_assoc (lower ++ " - ".toList), ← hends]
  have hsome : splitAt? " - ".toList (trim front) = some (lower, trimEnd gap) :=
    (splitAt?_eq_some_iff (by simp)).mpr ⟨hcut, hfirst⟩
  exact firstPiece_some hsome

/-- Two more bars and an alternative change what a declaration names only if it
ends in a bar behind a bare hyphen, and then it names nothing. -/
theorem named?_alternative (hnamed : named? (firstAlternative cs) = some w) :
    named? (firstAlternative (cs ++ "||".toList ++ more)) = some w ↔ ¬EndsInBar cs := by
  by_cases hpair : "||".toList <:+: cs ∨ cs.getLast? ≠ some '|'
  · have hopen : ¬EndsInBar cs := fun hends =>
      hpair.elim hends.single fun hlast => hlast hends.last
    rw [firstAlternative, firstPiece_alternative hpair]
    exact ⟨fun _ => hopen, fun _ => hnamed⟩
  · obtain ⟨hsingle, hlast⟩ := not_or.mp hpair
    obtain ⟨front, rfl⟩ : ∃ front, cs = front ++ ['|'] :=
      List.getLast?_eq_some_iff.mp (not_not.mp hlast)
    obtain ⟨lower, gap, tail, htail, hsplit, hfront⟩ := exists_range hsingle hnamed
    obtain ⟨-, hfirst⟩ := (splitAt?_eq_some_iff (by simp)).mp hsplit
    have hlower : firstAlternative (front ++ ['|']) = trim lower := by
      rw [firstAlternative, firstPiece_none (splitAt?_eq_none_iff.mpr hsingle),
        firstPiece_some hsplit]
    have hends : EndsInBar (front ++ ['|']) ↔ Blank gap := by
      refine ⟨?_, fun hgap => ⟨by simp, hsingle, lower, gap, hsplit, hgap⟩⟩
      rintro ⟨-, -, lower', gap', hsplit', hgap'⟩
      rw [hsplit] at hsplit'
      obtain ⟨-, hsame⟩ := Prod.mk.inj (Option.some.inj hsplit')
      obtain ⟨rfl, -⟩ := List.append_inj' hsame rfl
      exact hgap'
    rw [hlower] at hnamed
    rw [firstAlternative, firstPiece_bar hsingle, hends]
    by_cases hgap : Blank gap
    · rw [named?_hyphen htail hgap hfirst hfront]
      simp [hgap]
    · rw [firstPiece_hyphen htail hgap hfirst hfront, hnamed]
      simp [hgap]

/-- What an alternative behind a declaration does to the version that is looked
up. -/
theorem normalizeVersion_alternative (hnormal : normalizeVersion spec = some v) (more : String) :
    normalizeVersion (spec ++ "||" ++ more) = some v ↔
      '/' ∉ more.toList ∧ ¬EndsInBar spec.toList := by
  obtain ⟨hregistry, w, hnamed, rfl⟩ := normalizeVersion_eq_some_iff.mp hnormal
  rw [readPart_eq] at hnamed
  rw [normalizeVersion_eq_some_iff, readPart_eq, String.toList_append, String.toList_append,
    isNonRegistry_alternative hregistry]
  refine and_congr_right fun _ => ?_
  rw [← named?_alternative hnamed]
  constructor
  · rintro ⟨w', hnamed', htext⟩
    rw [hnamed', (named?_isProper hnamed').eq_of_text (named?_isProper hnamed) htext]
  · exact fun hsame => ⟨w, hsame, rfl⟩

end Alternatives

/-- What is looked up for a declaration is the text of a version, with build
metadata only if the part that is read is a plain version, and is looked up as it
is. Blanks around the declaration and letters `v` in front of a plain version do
not change it. An alternative without slashes behind the declaration does so
exactly when the declaration ends in a bar behind a bare hyphen. -/
theorem looked_up_version_canonical {spec v : String} (hnormal : normalizeVersion spec = some v) :
    (∃ w : Version, w.IsProper ∧ v = w.text ∧
      (w.build ≠ [] → ∃ n, readPart spec = List.replicate n 'v' ++ w.text.toList)) ∧
    normalizeVersion v = some v ∧
    (∀ lead tail : String, Blank lead.toList → Blank tail.toList →
      normalizeVersion (lead ++ spec ++ tail) = some v) ∧
    (IsPlain (readPart spec) → ∀ lead body : String, spec = lead ++ body → Blank lead.toList →
      (∀ c ∈ body.toList.head?, isBlank c = false) → ∀ n,
        normalizeVersion (lead ++ String.ofList (List.replicate n 'v') ++ body) = some v) ∧
    ∀ more : String, normalizeVersion (spec ++ "||" ++ more) = some v ↔
      '/' ∉ more.toList ∧ ¬EndsInBar spec.toList := by
  obtain ⟨-, w, hnamed, rfl⟩ := normalizeVersion_eq_some_iff.mp hnormal
  have hproper := named?_isProper hnamed
  refine ⟨⟨w, hproper, rfl, named?_build hnamed⟩, normalizeVersion_text hproper, ?_, ?_,
    normalizeVersion_alternative hnormal⟩
  · intro lead tail hlead htail
    rw [normalizeVersion_blanks spec hlead htail, hnormal]
  · rintro hplain lead body rfl hlead hbody n
    have hblanks : ∀ text : String, trim (lead ++ text).toList = trim text.toList := fun text => by
      rw [String.toList_append, trim_blank_append hlead]
    rw [normalizeVersion_congr (hblanks body)] at hnormal
    rw [readPart, hblanks body] at hplain
    rw [String.append_assoc, normalizeVersion_congr (hblanks _)]
    exact normalizeVersion_replicate hnormal hplain hbody n

def decorated : String := " v1.2.3-rc.1+b7 - 2.0.0"

def decoratedVersion : Version := ⟨1, 2, 3, "rc.1".toList, "b7".toList⟩

theorem decorated_looked_up :
    normalizeVersion decorated = some "1.2.3-rc.1+b7" ∧
    normalizeVersion "1.2.3-rc.1+b7" = some "1.2.3-rc.1+b7" ∧
    normalizeVersion ("\t" ++ decorated ++ " \n") = some "1.2.3-rc.1+b7" ∧
    normalizeVersion " vvv1.2.3-rc.1+b7 - 2.0.0" = some "1.2.3-rc.1+b7" ∧
    normalizeVersion (decorated ++ "||" ++ " ^3") = some "1.2.3-rc.1+b7" := by
  have hnormal : normalizeVersion decorated = some "1.2.3-rc.1+b7" := by decide +kernel
  have hblank : isBlank '\t' = true ∧ isBlank ' ' = true ∧ isBlank '\n' = true := by decide
  have hletter : isBlank 'v' = false := by decide
  obtain ⟨-, hagain, hblanks, hletters, hmore⟩ := looked_up_version_canonical hnormal
  have hplain : IsPlain (readPart decorated) := by
    have hread : Version.parse? "1.2.3-rc.1+b7".toList = some decoratedVersion := by decide +kernel
    refine ⟨1, decoratedVersion, (Version.parse?_eq_some_iff.mp hread).1, by decide +kernel⟩
  refine ⟨hnormal, hagain, ?_, ?_, ?_⟩
  · exact hblanks "\t" " \n" (by simp [Blank, hblank]) (by simp [Blank, hblank])
  · exact hletters hplain " " "v1.2.3-rc.1+b7 - 2.0.0" (by decide)
      (by simp [Blank, hblank]) (by simp [hletter]) 2
  · exact (hmore " ^3").mpr ⟨by simp, fun hends => absurd hends.last (by decide)⟩

/-- A bare hyphen and a bar name the lower end of a range, and nothing once an
alternative follows. -/
theorem bare_hyphen_loses_version :
    normalizeVersion "1.0.0 - |" = some "1.0.0" ∧ '/' ∉ " 2.0.0".toList ∧
      normalizeVersion ("1.0.0 - |" ++ "||" ++ " 2.0.0") = none := by
  decide +kernel

end Declaration

end WebAudit
