import Mathlib.Data.List.TakeWhile
import WebAudit.Text.Basic

/-!
Cutting texts. Trimming leaves the part of a text between its outer blanks, a
cut at a mark leaves the part before the first such mark, and the two commute
because no mark is a blank. A text is found in another one at its first
occurrence. A text that is joined of lines is cut into them again.
-/

namespace WebAudit.Text

def Blank (cs : List Char) : Prop := ∀ c ∈ cs, isBlank c = true

structure Trimmed (cs : List Char) : Prop where
  head : ∀ c ∈ cs.head?, isBlank c = false
  last : ∀ c ∈ cs.getLast?, isBlank c = false

theorem isAlphanum_code {c : Char} (hc : c.isAlphanum = true) :
    48 ≤ c.toNat ∧ c.toNat ≤ 57 ∨ 65 ≤ c.toNat ∧ c.toNat ≤ 90 ∨
      97 ≤ c.toNat ∧ c.toNat ≤ 122 := by
  rcases Bool.or_eq_true_iff.mp hc with halpha | hdigit
  · rcases Bool.or_eq_true_iff.mp halpha with hupper | hlower
    · have hrange : c.val ≥ 'A'.val ∧ c.val ≤ 'Z'.val := of_decide_eq_true hupper
      exact .inr (.inl hrange)
    · obtain ⟨hlow, hhigh⟩ := Bool.and_eq_true_iff.mp hlower
      exact .inr (.inr ⟨of_decide_eq_true hlow, of_decide_eq_true hhigh⟩)
  · obtain ⟨hlow, hhigh⟩ := Bool.and_eq_true_iff.mp hdigit
    exact .inl ⟨of_decide_eq_true hlow, of_decide_eq_true hhigh⟩

theorem toLower_cases (c : Char) :
    c.toLower = c ∨ 97 ≤ c.toLower.toNat ∧ c.toLower.toNat ≤ 122 := by
  unfold Char.toLower
  split
  · rename_i hupper
    right
    have hA : 65 ≤ c.val.toNat := hupper.1
    have hZ : c.val.toNat ≤ 90 := hupper.2
    have hcode : (c.val + ('a'.val - 'A'.val)).toNat = c.val.toNat + 32 := by
      have hstep : ('a'.val - 'A'.val).toNat = 32 := rfl
      rw [UInt32.toNat_add, hstep]
      exact Nat.mod_eq_of_lt (by omega)
    unfold Char.toNat
    simp only [hcode]
    omega
  · exact .inl rfl

theorem digitChar_of_isDigit {c : Char} (hc : c.isDigit = true) :
    Nat.digitChar (c.toNat - '0'.toNat) = c ∧ c.toNat - '0'.toNat < 10 := by
  have hrange : 48 ≤ c.toNat ∧ c.toNat ≤ 57 := by
    have hboth := Bool.and_eq_true_iff.mp hc
    exact ⟨of_decide_eq_true hboth.1, of_decide_eq_true hboth.2⟩
  have hzero : '0'.toNat = 48 := rfl
  refine ⟨Char.toNat_inj.mp ?_, by omega⟩
  rw [Nat.toNat_digitChar_of_lt_ten (by omega)]
  omega

/-- A text ends in the same character behind any other one. -/
theorem getLast?_of_cons {x c : Char} {rest : List Char} (hlast : (x :: rest).getLast? = some c)
    (hx : x ≠ c) : rest.getLast? = some c := by
  rw [List.getLast?_cons] at hlast
  cases hrest : rest.getLast? with
  | none =>
      rw [hrest] at hlast
      exact absurd (Option.some.inj hlast) hx
  | some d => rwa [hrest] at hlast

theorem getLast?_of_append_cons {x c : Char} {front rest : List Char}
    (hlast : (front ++ x :: rest).getLast? = some c) (hx : x ≠ c) : rest.getLast? = some c := by
  rw [List.getLast?_append, List.getLast?_cons, Option.some_or, ← List.getLast?_cons] at hlast
  exact getLast?_of_cons hlast hx

section Trim

variable {cs lead core tail : List Char} {c : Char}

theorem Blank.not_mem (hlead : Blank lead) (hc : isBlank c = false) : c ∉ lead := by
  intro hmem
  rw [hlead c hmem] at hc
  cases hc

theorem trimmed_of_forall (hcore : ∀ c ∈ core, isBlank c = false) : Trimmed core :=
  ⟨fun c hc => hcore c (List.mem_of_mem_head? hc),
    fun c hc => hcore c (List.mem_of_mem_getLast? hc)⟩

theorem trimEnd_append_blank (htail : Blank tail) (cs : List Char) :
    trimEnd (cs ++ tail) = trimEnd cs := by
  have hreverse : ∀ c ∈ tail.reverse, isBlank c = true := fun c hc =>
    htail c (List.mem_reverse.mp hc)
  rw [trimEnd, List.reverse_append, List.dropWhile_append_of_pos hreverse]
  rfl

theorem trimEnd_append_cons (hc : isBlank c = false) (lead rest : List Char) :
    trimEnd (lead ++ c :: rest) = lead ++ c :: trimEnd rest := by
  have hcons : (c :: lead.reverse).dropWhile isBlank = c :: lead.reverse := by
    apply List.dropWhile_cons_of_neg
    simp [hc]
  unfold trimEnd
  rw [List.reverse_append, List.reverse_cons, List.append_assoc, List.singleton_append,
    List.dropWhile_append, hcons]
  split
  · rename_i hrest
    rw [List.isEmpty_iff.mp hrest]
    simp
  · simp

theorem trim_blank_append (hlead : Blank lead) (cs : List Char) : trim (lead ++ cs) = trim cs := by
  rw [trim, trimStart, List.dropWhile_append_of_pos hlead]
  rfl

theorem trim_append_blank (htail : Blank tail) (cs : List Char) : trim (cs ++ tail) = trim cs := by
  unfold trim trimStart
  rw [List.dropWhile_append]
  split
  · rename_i hempty
    rw [List.isEmpty_iff.mp hempty, List.dropWhile_eq_nil_iff.mpr htail]
  · exact trimEnd_append_blank htail _

theorem trimEnd_eq_self (hlast : ∀ c ∈ cs.getLast?, isBlank c = false) : trimEnd cs = cs := by
  have hend : cs.reverse.dropWhile isBlank = cs.reverse := by
    cases hreverse : cs.reverse with
    | nil => rfl
    | cons c rest =>
        have hc : c ∈ cs.getLast? := by
          rw [← List.head?_reverse, hreverse]
          rfl
        exact List.dropWhile_cons_of_neg (by simp [hlast c hc])
  rw [trimEnd, hend, List.reverse_reverse]

theorem Trimmed.trim_eq (hcore : Trimmed core) : trim core = core := by
  have hstart : core.dropWhile isBlank = core := by
    cases core with
    | nil => rfl
    | cons c rest => exact List.dropWhile_cons_of_neg (by simp [hcore.head c rfl])
  rw [trim, trimStart, hstart, trimEnd_eq_self hcore.last]

theorem Trimmed.lead_eq_nil (htrimmed : Trimmed cs) (hlead : Blank lead) (hstart : lead <+: cs) :
    lead = [] := by
  obtain ⟨rest, rfl⟩ := hstart
  cases lead with
  | nil => rfl
  | cons c more =>
      have hc := htrimmed.head c rfl
      rw [hlead c List.mem_cons_self] at hc
      cases hc

theorem Trimmed.tail_eq_nil (htrimmed : Trimmed cs) (htail : Blank tail) (hend : tail <:+ cs) :
    tail = [] := by
  obtain ⟨before, rfl⟩ := hend
  by_contra hne
  have hlast : tail.getLast hne ∈ (before ++ tail).getLast? := by
    rw [List.getLast?_append, List.getLast?_eq_some_getLast hne]
    rfl
  have hc := htrimmed.last _ hlast
  rw [htail _ (List.getLast_mem hne)] at hc
  cases hc

theorem exists_trimStart (cs : List Char) : ∃ lead, Blank lead ∧ cs = lead ++ trimStart cs := by
  refine ⟨cs.takeWhile isBlank, ?_, List.takeWhile_append_dropWhile.symm⟩
  intro c hc
  exact List.mem_takeWhile_imp hc

theorem exists_trimEnd (cs : List Char) : ∃ tail, Blank tail ∧ cs = trimEnd cs ++ tail := by
  obtain ⟨lead, hlead, hreverse⟩ := exists_trimStart cs.reverse
  refine ⟨lead.reverse, fun c hc => hlead c (List.mem_reverse.mp hc), ?_⟩
  have hcs := congrArg List.reverse hreverse
  rwa [List.reverse_reverse, List.reverse_append] at hcs

theorem exists_trim (cs : List Char) :
    ∃ lead tail, Blank lead ∧ Blank tail ∧ cs = lead ++ trim cs ++ tail := by
  obtain ⟨lead, hlead, hstart⟩ := exists_trimStart cs
  obtain ⟨tail, htail, hend⟩ := exists_trimEnd (trimStart cs)
  refine ⟨lead, tail, hlead, htail, ?_⟩
  rw [List.append_assoc, trim, ← hend, ← hstart]

theorem mem_of_mem_trim (hc : c ∈ trim cs) : c ∈ cs := by
  obtain ⟨lead, tail, -, -, hcs⟩ := exists_trim cs
  rw [hcs]
  simp [hc]

theorem mem_trim_iff (hc : isBlank c = false) : c ∈ trim cs ↔ c ∈ cs := by
  refine ⟨mem_of_mem_trim, fun hmem => ?_⟩
  obtain ⟨lead, tail, hlead, htail, hcs⟩ := exists_trim cs
  rw [hcs, List.mem_append, List.mem_append] at hmem
  rcases hmem with (hmem | hmem) | hmem
  · exact absurd hmem (hlead.not_mem hc)
  · exact hmem
  · exact absurd hmem (htail.not_mem hc)

theorem head_dropWhile {p : Char → Bool} (hc : c ∈ (cs.dropWhile p).head?) : p c = false := by
  have hhead := List.head?_dropWhile_not p cs
  rw [hc] at hhead
  simpa using hhead

theorem getLast_trimEnd (cs : List Char) : ∀ c ∈ (trimEnd cs).getLast?, isBlank c = false := by
  intro c hc
  rw [trimEnd, List.getLast?_reverse] at hc
  exact head_dropWhile hc

theorem trim_trimmed (cs : List Char) : Trimmed (trim cs) := by
  refine ⟨?_, getLast_trimEnd _⟩
  intro c hc
  obtain ⟨tail, -, hend⟩ := exists_trimEnd (trimStart cs)
  have hstart : c ∈ (trimStart cs).head? := by
    rw [hend, List.head?_append]
    simp [trim] at hc
    simp [hc]
  exact head_dropWhile hstart

/-- A text with blanks behind it tells what stands before them. -/
theorem eq_of_append_blank {a b s t : List Char} (ha : ∀ c ∈ a.getLast?, isBlank c = false)
    (hb : ∀ c ∈ b.getLast?, isBlank c = false) (hs : Blank s) (ht : Blank t)
    (hboth : a ++ s = b ++ t) : a = b := by
  rw [← trimEnd_eq_self ha, ← trimEnd_append_blank hs, hboth, trimEnd_append_blank ht,
    trimEnd_eq_self hb]

theorem Trimmed.between {first last : List Char} (hfirst : Trimmed first) (hne : first ≠ [])
    (hlast : Trimmed last) (hne' : last ≠ []) (middle : List Char) :
    Trimmed (first ++ middle ++ last) := by
  refine ⟨?_, ?_⟩
  · obtain ⟨d, more, rfl⟩ := List.exists_cons_of_ne_nil hne
    rintro c ⟨⟩
    exact hfirst.head d rfl
  · intro c hc
    have hend := List.getLast?_eq_some_getLast hne'
    rw [List.getLast?_append, hend, Option.some_or] at hc
    exact hlast.last c (hend.trans hc)

/-- A trimmed text stays in front when blanks behind it are cut off. -/
theorem Trimmed.isPrefix_trim (hcore : Trimmed core) (hne : core ≠ [])
    (rest : List Char) :
    core <+: trim (core ++ rest) ∧ trim (core ++ rest) <+: core ++ rest := by
  obtain ⟨lead, tail, hlead, htail, hcut⟩ := exists_trim (core ++ rest)
  obtain rfl : lead = [] := by
    cases lead with
    | nil => rfl
    | cons c lead =>
        obtain ⟨d, core, rfl⟩ := List.exists_cons_of_ne_nil hne
        have hd := hcore.head d rfl
        obtain rfl : d = c := (List.cons.inj hcut).1
        rw [hlead d List.mem_cons_self] at hd
        cases hd
  rw [List.nil_append] at hcut
  refine ⟨?_, ⟨tail, hcut.symm⟩⟩
  rcases List.append_eq_append_iff.mp hcut with ⟨more, hmore, -⟩ | ⟨blanks, hblanks, htails⟩
  · exact ⟨more, hmore.symm⟩
  · -- what would be cut off the text itself is blank, and it has no blanks at its end
    have hblank : Blank blanks := by
      intro c hc
      exact htail c (htails ▸ List.mem_append_left _ hc)
    obtain rfl := hcore.tail_eq_nil hblank ⟨_, hblanks.symm⟩
    exact ⟨[], by rw [List.append_nil] at hblanks ⊢; exact hblanks⟩

end Trim

section Cut

variable {a before cs rest lead : List Char} {mark : Char}

theorem cut_of_not_mem (hmark : mark ∉ a) : a.takeWhile (· != mark) = a := by
  apply List.takeWhile_eq_self_iff.mpr
  intro c hc
  simpa using ne_of_mem_of_not_mem hc hmark

theorem cut_append (hmark : mark ∉ a) (cs : List Char) :
    (a ++ cs).takeWhile (· != mark) = a ++ cs.takeWhile (· != mark) := by
  apply List.takeWhile_append_of_pos
  intro c hc
  simpa using ne_of_mem_of_not_mem hc hmark

theorem cut_mark (hmark : mark ∉ a) (rest : List Char) :
    (a ++ mark :: rest).takeWhile (· != mark) = a := by
  rw [cut_append hmark, List.takeWhile_cons_of_neg (by simp), List.append_nil]

theorem drop_mark (hmark : mark ∉ a) (rest : List Char) :
    (a ++ mark :: rest).dropWhile (· != mark) = mark :: rest := by
  rw [List.dropWhile_append_of_pos, List.dropWhile_cons_of_neg (by simp)]
  intro c hc
  simpa using ne_of_mem_of_not_mem hc hmark

theorem mark_not_mem_cut : mark ∉ cs.takeWhile (· != mark) := by
  intro hmem
  simpa using List.mem_takeWhile_imp hmem

/-- A cut at a mark leaves the text, or what stands before the mark. -/
theorem cut_cases (mark : Char) (cs : List Char) :
    mark ∉ cs ∧ cs.takeWhile (· != mark) = cs ∨
      ∃ rest, cs = cs.takeWhile (· != mark) ++ mark :: rest := by
  by_cases hmem : mark ∈ cs
  · right
    obtain ⟨before, rest, hcs, hbefore⟩ := List.eq_append_cons_of_mem hmem
    exact ⟨rest, by rw [hcs, cut_mark hbefore]⟩
  · exact .inl ⟨hmem, cut_of_not_mem hmem⟩

/-- Blanks around a text do not matter to what is left before a mark. -/
theorem trim_cut_trim (hmark : isBlank mark = false) (cs : List Char) :
    trim ((trim cs).takeWhile (· != mark)) = trim (cs.takeWhile (· != mark)) := by
  obtain ⟨lead, tail, hlead, htail, hcs⟩ := exists_trim cs
  have hcut : cs.takeWhile (· != mark) = lead ++ (trim cs ++ tail).takeWhile (· != mark) := by
    rw [← cut_append (hlead.not_mem hmark), ← List.append_assoc, ← hcs]
  rw [hcut, trim_blank_append hlead]
  rcases cut_cases mark (trim cs) with ⟨hnone, hself⟩ | ⟨rest, hfirst⟩
  · rw [cut_append hnone, cut_of_not_mem (htail.not_mem hmark), trim_append_blank htail, hself]
  · have hbefore : mark ∉ (trim cs).takeWhile (· != mark) := mark_not_mem_cut
    have hboth : trim cs ++ tail = (trim cs).takeWhile (· != mark) ++ mark :: (rest ++ tail) := by
      rw [← List.cons_append, ← List.append_assoc, ← hfirst]
    rw [hboth, cut_mark hbefore]

theorem after?_eq_some_iff : after? lead cs = some rest ↔ cs = lead ++ rest := by
  induction lead generalizing cs with
  | nil => simp [after?]
  | cons p ps ih =>
      cases cs with
      | nil => simp [after?]
      | cons c cs =>
          rw [after?]
          split
          · rename_i hsame
            simp [ih, beq_iff_eq.mp hsame]
          · rename_i hother
            have hne : ¬c = p := fun h => hother (by simp [h])
            simp [hne]

theorem startsWith_iff : startsWith lead cs = true ↔ lead <+: cs := by
  rw [startsWith, Option.isSome_iff_exists]
  constructor
  · rintro ⟨rest, hrest⟩
    exact ⟨rest, (after?_eq_some_iff.mp hrest).symm⟩
  · rintro ⟨rest, hrest⟩
    exact ⟨rest, after?_eq_some_iff.mpr hrest.symm⟩

theorem endsWith_iff : endsWith tail cs = true ↔ tail <:+ cs := by
  rw [endsWith, startsWith_iff, List.reverse_prefix]

theorem eq_of_splitAt? {needle : List Char} (hsplit : splitAt? needle cs = some (before, rest)) :
    cs = before ++ needle ++ rest := by
  induction cs generalizing before with
  | nil =>
      unfold splitAt? at hsplit
      split at hsplit
      · rename_i hempty
        cases hsplit
        simpa using hempty
      · cases hsplit
  | cons c cs ih =>
      unfold splitAt? at hsplit
      split at hsplit
      · rename_i hafter
        cases hsplit
        simpa using after?_eq_some_iff.mp hafter
      · obtain ⟨⟨before', rest'⟩, hsplit', hsame⟩ := Option.map_eq_some_iff.mp hsplit
        cases hsame
        simp [← ih hsplit']

/-- A needle is found behind a text that does not have its first character. -/
theorem splitAt?_append {needle : List Char} (hmark : mark ∉ before) (rest : List Char) :
    splitAt? (mark :: needle) (before ++ (mark :: needle) ++ rest) = some (before, rest) := by
  induction before with
  | nil =>
      have hafter := after?_eq_some_iff.mpr (rfl : mark :: needle ++ rest = _)
      rw [List.nil_append, List.cons_append, splitAt?]
      rw [List.cons_append] at hafter
      simp only [hafter]
  | cons c before ih =>
      obtain ⟨hne, hrest⟩ := List.ne_and_not_mem_of_not_mem_cons hmark
      rw [List.cons_append, List.cons_append, splitAt?, after?, if_neg (by simpa using hne)]
      simp only [ih hrest, Option.map_some]

theorem splitAt?_eq_none {needle : List Char} (hmark : mark ∉ cs) :
    splitAt? (mark :: needle) cs = none := by
  cases hsplit : splitAt? (mark :: needle) cs with
  | none => rfl
  | some parts =>
      obtain ⟨before, rest⟩ := parts
      rw [eq_of_splitAt? hsplit] at hmark
      simp at hmark

end Cut

section Search

variable {needle before cs rest lead tail : List Char}

theorem append_dropLast_isPrefix (before needle rest : List Char) :
    before ++ needle.dropLast <+: before ++ needle ++ rest := by
  rw [List.append_assoc]
  refine (List.prefix_append_right_inj before).mpr ?_
  exact (List.dropLast_prefix needle).trans (List.prefix_append _ _)

/-- A first occurrence that is not at the start would lie behind one that is. -/
theorem eq_nil_of_isPrefix (hne : needle ≠ []) (hstart : needle <+: before ++ needle ++ rest)
    (hfirst : ¬needle <:+: before ++ needle.dropLast) : before = [] := by
  by_contra hbefore
  have hpositive := List.length_pos_iff.mpr hbefore
  have hlength := List.length_pos_iff.mpr hne
  have hle : needle.length ≤ (before ++ needle.dropLast).length := by
    rw [List.length_append, List.length_dropLast]
    omega
  have hearly := append_dropLast_isPrefix before needle rest
  exact hfirst (List.prefix_of_prefix_length_le hstart hearly hle).isInfix

/-- A text is found at its first occurrence: it does not occur once more before
its own last character. -/
theorem splitAt?_eq_some_iff (hne : needle ≠ []) :
    splitAt? needle cs = some (before, rest) ↔
      cs = before ++ needle ++ rest ∧ ¬needle <:+: before ++ needle.dropLast := by
  have hlength := List.length_pos_iff.mpr hne
  induction cs generalizing before with
  | nil => simp [splitAt?, hne]
  | cons c cs ih =>
      unfold splitAt?
      split
      · rename_i rest' hafter
        have hstart := after?_eq_some_iff.mp hafter
        constructor
        · rintro ⟨⟩
          refine ⟨hstart, fun hinfix => ?_⟩
          have hle := hinfix.length_le
          simp only [List.nil_append, List.length_dropLast] at hle
          omega
        · rintro ⟨hcs, hfirst⟩
          have hleads : needle <+: before ++ needle ++ rest := hcs ▸ ⟨rest', hstart.symm⟩
          obtain rfl := eq_nil_of_isPrefix hne hleads hfirst
          rw [hcs, List.nil_append, List.append_cancel_left_eq] at hstart
          rw [hstart]
      · rename_i hafter
        have hstart : ¬needle <+: c :: cs := by
          rintro ⟨rest', hrest'⟩
          rw [after?_eq_some_iff.mpr hrest'.symm] at hafter
          cases hafter
        cases before with
        | nil =>
            simp only [Option.map_eq_some_iff, Prod.mk.injEq, reduceCtorEq, false_and, and_false,
              exists_false, false_iff, not_and]
            intro hcs
            exact absurd ⟨rest, hcs.symm⟩ hstart
        | cons d before =>
            simp only [Option.map_eq_some_iff, Prod.exists, Prod.mk.injEq, List.cons.injEq]
            constructor
            · rintro ⟨before', rest', hsplit, ⟨rfl, rfl⟩, rfl⟩
              obtain ⟨hcs, hfirst⟩ := ih.mp hsplit
              have hboth : c :: cs = c :: before' ++ needle ++ rest' := congrArg (c :: ·) hcs
              refine ⟨hboth, fun hinfix => ?_⟩
              rcases List.infix_cons_iff.mp hinfix with hleads | hlater
              · have hearly := append_dropLast_isPrefix (c :: before') needle rest'
                exact hstart (hleads.trans (hboth ▸ hearly))
              · exact hfirst hlater
            · rintro ⟨hboth, hfirst⟩
              obtain ⟨rfl, hcs⟩ := List.cons.inj hboth
              refine ⟨before, rest, ih.mpr ⟨hcs, fun hinfix => ?_⟩, ⟨rfl, rfl⟩, rfl⟩
              exact hfirst (List.infix_cons hinfix)

theorem occursIn_iff : occursIn needle cs = true ↔ needle <:+: cs := by
  constructor
  · intro hoccurs
    obtain ⟨⟨before, rest⟩, hsplit⟩ := Option.isSome_iff_exists.mp hoccurs
    exact ⟨before, rest, (eq_of_splitAt? hsplit).symm⟩
  · rw [occursIn]
    induction cs with
    | nil =>
        intro hinfix
        simp [splitAt?, List.eq_nil_of_infix_nil hinfix]
    | cons c cs ih =>
        intro hinfix
        unfold splitAt?
        split
        · rfl
        · rename_i hafter
          rw [Option.isSome_map]
          refine ih ((List.infix_cons_iff.mp hinfix).resolve_left ?_)
          rintro ⟨rest, hrest⟩
          rw [after?_eq_some_iff.mpr hrest.symm] at hafter
          cases hafter

theorem splitAt?_eq_none_iff : splitAt? needle cs = none ↔ ¬needle <:+: cs := by
  rw [← occursIn_iff, occursIn, Option.isSome_iff_ne_none, not_not]

/-- What stands behind a text does not matter to where another one is found in
it. -/
theorem splitAt?_append_right (hne : needle ≠ [])
    (hsplit : splitAt? needle cs = some (before, rest))
    (more : List Char) : splitAt? needle (cs ++ more) = some (before, rest ++ more) := by
  obtain ⟨rfl, hfirst⟩ := (splitAt?_eq_some_iff hne).mp hsplit
  exact (splitAt?_eq_some_iff hne).mpr ⟨List.append_assoc _ _ _, hfirst⟩

/-- A text that starts with no blank does not start among blanks. -/
theorem isInfix_blank_append (hlead : Blank lead) (hneedle : ∀ c ∈ needle, isBlank c = false)
    (hne : needle ≠ []) : needle <:+: lead ++ cs ↔ needle <:+: cs := by
  induction lead with
  | nil => rfl
  | cons d lead ih =>
      obtain ⟨hd, hlead⟩ := List.forall_mem_cons.mp hlead
      rw [List.cons_append, List.infix_cons_iff, ih hlead, or_iff_right]
      rintro ⟨rest, hrest⟩
      obtain ⟨c, needle, rfl⟩ := List.exists_cons_of_ne_nil hne
      have hc := hneedle c List.mem_cons_self
      rw [(List.cons.inj hrest).1, hd] at hc
      cases hc

theorem isInfix_append_blank (htail : Blank tail) (hneedle : ∀ c ∈ needle, isBlank c = false)
    (hne : needle ≠ []) : needle <:+: cs ++ tail ↔ needle <:+: cs := by
  have hback : needle <:+: cs ↔ needle.reverse <:+: cs.reverse := List.reverse_infix.symm
  rw [hback, ← List.reverse_infix, List.reverse_append]
  refine isInfix_blank_append (fun c hc => htail c (List.mem_reverse.mp hc)) ?_ (by simpa using hne)
  exact fun c hc => hneedle c (List.mem_reverse.mp hc)

/-- A text without a mark is on one side of the mark. -/
theorem isInfix_append_mark {a : List Char} (hmark : mark ∉ needle) :
    needle <:+: a ++ mark :: rest ↔ needle <:+: a ∨ needle <:+: rest := by
  constructor
  · rintro ⟨s, t, heq⟩
    rcases List.append_eq_append_iff.mp heq with ⟨u, rfl, -⟩ | ⟨u, hfront, hback⟩
    · exact .inl ⟨s, u, rfl⟩
    cases u with
    | nil => exact .inl ⟨s, [], by simpa using hfront⟩
    | cons c u =>
        obtain ⟨rfl, rfl⟩ := List.cons.inj hback
        rcases List.append_eq_append_iff.mp hfront with ⟨w, -, rfl⟩ | ⟨w, -, hneedle⟩
        · simp at hmark
        cases w with
        | nil =>
            rw [List.nil_append] at hneedle
            simp [← hneedle] at hmark
        | cons d w =>
            obtain ⟨-, rfl⟩ := List.cons.inj hneedle
            exact .inr ⟨w, t, rfl⟩
  · rintro (hleft | hright)
    · exact hleft.trans (List.prefix_append _ _).isInfix
    · exact hright.trans ((List.suffix_cons _ _).trans (List.suffix_append _ _)).isInfix

/-- A start of a text does not reach behind a place where a foreign character
stands. -/
theorem isPrefix_of_append {a : List Char} (hstart : needle <+: a ++ rest)
    (hforeign : ∀ c ∈ rest.head?, c ∉ needle) : needle <+: a := by
  obtain ⟨behind, hboth⟩ := hstart
  rcases List.append_eq_append_iff.mp hboth with ⟨more, ha, -⟩ | ⟨extra, rfl, hrest⟩
  · exact ⟨more, ha.symm⟩
  · cases extra with
    | nil => simp
    | cons c extra =>
        have hhead : c ∈ rest.head? := by rw [hrest]; rfl
        exact absurd (List.mem_append_right a List.mem_cons_self) (hforeign c hhead)

end Search

section Lines

theorem mem_intercalate {c : Char} {sep : List Char} {texts : List (List Char)}
    (hc : c ∈ sep.intercalate texts) : c ∈ sep ∨ ∃ text ∈ texts, c ∈ text := by
  induction texts with
  | nil => simp at hc
  | cons text more ih =>
      cases more with
      | nil =>
          rw [List.intercalate_singleton] at hc
          exact .inr ⟨text, List.mem_cons_self, hc⟩
      | cons next more =>
          rw [List.intercalate_cons_cons, List.append_assoc, List.mem_append, List.mem_append] at hc
          rcases hc with hc | hc | hc
          · exact .inr ⟨text, List.mem_cons_self, hc⟩
          · exact .inl hc
          · exact (ih hc).imp_right fun ⟨t, ht, hct⟩ => ⟨t, List.mem_cons_of_mem _ ht, hct⟩

theorem isInfix_intercalate {text sep : List Char} {texts : List (List Char)}
    (htext : text ∈ texts) :
    text <:+: sep.intercalate texts := by
  induction texts with
  | nil => cases htext
  | cons first more ih =>
      cases more with
      | nil =>
          obtain rfl := List.mem_singleton.mp htext
          rewrite [List.intercalate_singleton]
          exact List.infix_rfl
      | cons next more =>
          rw [List.intercalate_cons_cons]
          rcases List.mem_cons.mp htext with rfl | hmore
          · rw [List.append_assoc]
            exact (List.prefix_append _ _).isInfix
          · exact (ih hmore).trans (List.suffix_append _ _).isInfix

theorem linesFrom_break (acc cs : List Char) :
    linesFrom acc ('\n' :: cs) = (stripReturn acc).reverse :: linesFrom [] cs :=
  rfl

theorem linesFrom_cons {c : Char} (hc : c ≠ '\n') (acc cs : List Char) :
    linesFrom acc (c :: cs) = linesFrom (c :: acc) cs := by
  rw [linesFrom]
  exact hc

theorem linesFrom_append {line : List Char} (hline : '\n' ∉ line) (acc cs : List Char) :
    linesFrom acc (line ++ cs) = linesFrom (line.reverse ++ acc) cs := by
  induction line generalizing acc with
  | nil => rfl
  | cons c line ih =>
      obtain ⟨hne, hrest⟩ := List.ne_and_not_mem_of_not_mem_cons hline
      rw [List.cons_append, linesFrom_cons (Ne.symm hne), ih hrest]
      simp

theorem lines_of_unbroken {line : List Char} (hline : '\n' ∉ line) :
    lines line = if line.isEmpty then [] else [line] := by
  have hlines := linesFrom_append hline [] []
  rw [List.append_nil, List.append_nil] at hlines
  rw [lines, hlines, linesFrom, List.reverse_reverse, List.isEmpty_reverse]

/-- The first line of a text is what stands before the first line feed, without a
carriage return at its end. -/
theorem lines_append_break {line : List Char} (hline : '\n' ∉ line) (rest : List Char) :
    lines (line ++ '\n' :: rest) = (stripReturn line.reverse).reverse :: lines rest := by
  rw [lines, linesFrom_append hline, linesFrom_break, List.append_nil, lines]

/-- A line loses at most a carriage return at its end. -/
theorem stripReturn_cases (line : List Char) :
    (stripReturn line.reverse).reverse = line ∨
      line = (stripReturn line.reverse).reverse ++ ['\r'] := by
  unfold stripReturn
  split
  · rename_i rest hline
    right
    rw [← List.reverse_cons, ← hline, List.reverse_reverse]
  · left
    rw [List.reverse_reverse]

/-- Behind a line feed the lines of a text start anew. -/
theorem lines_append {front : List Char} (hfront : ∀ c ∈ front.getLast?, c = '\n')
    (rest : List Char) : lines (front ++ rest) = lines front ++ lines rest := by
  have hfrom : ∀ acc, front.getLast? = some '\n' →
      linesFrom acc (front ++ rest) = linesFrom acc front ++ lines rest := by
    clear hfront
    intro acc hlast
    induction front generalizing acc with
    | nil => cases hlast
    | cons c front ih =>
        by_cases hc : c = '\n'
        · subst hc
          rw [List.cons_append, linesFrom_break, linesFrom_break]
          cases front with
          | nil => rfl
          | cons d front =>
              rw [List.getLast?_cons_cons] at hlast
              rw [ih [] hlast, List.cons_append]
        · rw [List.cons_append, linesFrom_cons hc, linesFrom_cons hc]
          exact ih (c :: acc) (getLast?_of_cons hlast hc)
  cases hlast : front.getLast? with
  | none =>
      rw [List.getLast?_eq_none_iff.mp hlast]
      rfl
  | some c => exact hfrom [] (hfront c hlast ▸ hlast)

theorem linesFrom_ne_nil {acc : List Char} (hacc : acc ≠ []) (cs : List Char) :
    linesFrom acc cs ≠ [] := by
  induction cs generalizing acc with
  | nil => simp [linesFrom, hacc]
  | cons c cs ih =>
      by_cases hc : c = '\n'
      · rw [hc, linesFrom_break]
        exact List.cons_ne_nil _ _
      · rw [linesFrom_cons hc]
        exact ih (List.cons_ne_nil c acc)

/-- Every character of a text stands on a line. -/
theorem exists_line_from (acc : List Char) {cs : List Char} {i : Nat} (hi : i < cs.length) :
    ∃ line, (linesFrom acc cs)[(cs.take i).count '\n']? = some line := by
  induction cs generalizing acc i with
  | nil => cases hi
  | cons c cs ih =>
      by_cases hc : c = '\n'
      · subst hc
        rw [linesFrom_break]
        cases i with
        | zero => exact ⟨_, rfl⟩
        | succ i => simpa using ih [] (Nat.lt_of_succ_lt_succ hi)
      · rw [linesFrom_cons hc]
        cases i with
        | zero =>
            obtain ⟨first, rest, hlines⟩ :=
              List.exists_cons_of_ne_nil (linesFrom_ne_nil (List.cons_ne_nil c acc) cs)
            exact ⟨first, by simp [hlines]⟩
        | succ i =>
            rw [List.take_succ_cons, List.count_cons_of_ne hc]
            exact ih _ (Nat.lt_of_succ_lt_succ hi)

/-- A reader of lines to which neither a carriage return at the end of a line
nor an empty line matters reads the lines of a joined text. -/
theorem filterMap_lines_intercalate {α : Type} {read : List Char → Option α}
    (hreturn : ∀ line, read (line ++ ['\r']) = read line) (hempty : read [] = none)
    {texts : List (List Char)} (hbreak : ∀ line ∈ texts, '\n' ∉ line) :
    (lines (['\n'].intercalate texts)).filterMap read = texts.filterMap read := by
  have hstrip : ∀ line, read (stripReturn line.reverse).reverse = read line := by
    intro line
    rcases stripReturn_cases line with hsame | hline
    · rw [hsame]
    · exact (hreturn _).symm.trans (congrArg read hline.symm)
  induction texts with
  | nil => rfl
  | cons line more ih =>
      have hline := hbreak line List.mem_cons_self
      cases more with
      | nil =>
          have hlines := linesFrom_append hline [] []
          rw [List.append_nil, List.append_nil] at hlines
          rw [List.intercalate_singleton, lines, hlines, linesFrom]
          split
          · rename_i hnil
            obtain rfl : line = [] := by simpa using hnil
            simp [hempty]
          · rw [List.reverse_reverse]
      | cons next more =>
          have hrest := ih fun line h => hbreak line (List.mem_cons_of_mem _ h)
          have hlines := linesFrom_append hline [] ('\n' :: ['\n'].intercalate (next :: more))
          rw [linesFrom_break, List.append_nil] at hlines
          rw [List.intercalate_cons_cons, List.append_assoc, List.singleton_append, lines, hlines]
          rw [lines] at hrest
          simp only [List.filterMap_cons, hstrip, hrest]

end Lines

end WebAudit.Text
