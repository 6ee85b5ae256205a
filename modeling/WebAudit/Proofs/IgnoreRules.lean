import Mathlib.Data.List.Basic
import WebAudit.Ignore.Rule
import WebAudit.Proofs.GlobEndings

/-!
Rules of ignore files and the lines that they are read off. Of several rules the
last one that matches a path decides, so rules behind others go before them. A
line is negated exactly when it starts with an exclamation mark; blanks at its
end do not matter to that. A line that ends in a plain character matches only
paths that end in it.
-/

namespace WebAudit

section

variable (rules more : List IgnoreRule) (path : List UInt8) (isDirectory : Bool)

theorem decidingRule?_append :
    decidingRule? (rules ++ more) path isDirectory =
      (decidingRule? more path isDirectory).or (decidingRule? rules path isDirectory) := by
  rw [decidingRule?, List.reverse_append, List.find?_append]
  rfl

theorem decidingRule?_eq_none_iff :
    decidingRule? rules path isDirectory = none ↔
      ∀ r ∈ rules, r.accepts path isDirectory = false := by
  simp [decidingRule?]

theorem mem_of_decidingRule? {r : IgnoreRule}
    (hdecides : decidingRule? rules path isDirectory = some r) : r ∈ rules :=
  List.mem_reverse.mp (List.mem_of_find?_eq_some hdecides)

/-- Rules that do not match a path can be left out behind others. -/
theorem ignores_append_of_none (hmore : decidingRule? more path isDirectory = none) :
    ignores (rules ++ more) path isDirectory = ignores rules path isDirectory := by
  rw [ignores, decidingRule?_append, hmore, Option.none_or, ignores]

theorem ignores_append_of_some {r : IgnoreRule}
    (hmore : decidingRule? more path isDirectory = some r) :
    ignores (rules ++ more) path isDirectory = !r.negated := by
  rw [ignores, decidingRule?_append, hmore, Option.some_or, Option.any_some]

end

namespace IgnoreRule

def of? (line : List Char) : Option IgnoreRule := (ofLine line).toOption.bind id

/-- The marks of a line and the text between them. -/
def marked (line : List Char) : Marked := takeTrailing (takeLeading (trimLine line))

theorem ofLine_eq (line : List Char) :
    ofLine line =
      if line.head? == some '#' || (trimLine line).isEmpty then .ok none
      else (Glob.parse true (globText (marked line))).map fun glob =>
        some ⟨glob, (marked line).negated, (marked line).directoriesOnly⟩ := by
  unfold ofLine
  cases line.head? == some '#' with
  | true => rfl
  | false =>
      cases hempty : (trimLine line).isEmpty with
      | true => simp [hempty]
      | false =>
          simp only [hempty, Bool.or_false, Bool.false_eq_true, if_false]
          rw [← marked]
          cases Glob.parse true (globText (marked line)) <;> rfl

theorem of?_eq_some_iff (line : List Char) (rule : IgnoreRule) :
    of? line = some rule ↔
      line.head? ≠ some '#' ∧ trimLine line ≠ [] ∧
        ∃ glob, Glob.parse true (globText (marked line)) = .ok glob ∧
          ⟨glob, (marked line).negated, (marked line).directoriesOnly⟩ = rule := by
  rw [of?, ofLine_eq]
  split
  · rename_i hnone
    rw [Bool.or_eq_true_iff, beq_iff_eq, List.isEmpty_iff] at hnone
    constructor
    · intro hrule
      cases hrule
    · rintro ⟨hcomment, hempty, -⟩
      exact absurd hnone (not_or.mpr ⟨hcomment, hempty⟩)
  · rename_i hsome
    rw [Bool.or_eq_true_iff, beq_iff_eq, List.isEmpty_iff, not_or] at hsome
    rw [← and_assoc, and_iff_right hsome]
    cases Glob.parse true (globText (marked line)) with
    | error e => simp [Except.map, Except.toOption]
    | ok glob => simp [Except.map, Except.toOption]

/-- Lines that are the same without the blanks at their ends have the same rule. -/
theorem of?_congr {line line' : List Char} (htrim : trimLine line = trimLine line')
    (hcomment : (line.head? == some '#') = (line'.head? == some '#')) : of? line = of? line' := by
  rw [of?, of?, ofLine_eq, ofLine_eq, marked, marked, htrim, hcomment]

theorem trimLine_isPrefix (line : List Char) : trimLine line <+: line := by
  unfold trimLine
  split
  · exact List.prefix_rfl
  · obtain ⟨tail, -, hline⟩ := Text.exists_trimEnd line
    exact ⟨tail, hline.symm⟩

theorem takeTrailing_negated (m : Marked) : (takeTrailing m).negated = m.negated := by
  unfold takeTrailing
  split <;> rfl

theorem takeLeading_negated (line : List Char) :
    (takeLeading line).negated = (line.head? == some '!') := by
  unfold takeLeading
  split
  · rfl
  · rfl
  · split
    rename_i negated rest hpair
    have hnegated : negated = (line.head? == some '!') := by
      split at hpair
      · obtain ⟨rfl, -⟩ := Prod.mk.inj hpair
        rfl
      · rename_i hother
        obtain ⟨rfl, -⟩ := Prod.mk.inj hpair
        cases line with
        | nil => rfl
        | cons c more =>
            have hc : c ≠ '!' := fun hc => hother more (hc ▸ rfl)
            simp [hc]
    split <;> exact hnegated

theorem negated_eq {line : List Char} {rule : IgnoreRule} (hrule : of? line = some rule) :
    rule.negated = (line.head? == some '!') := by
  obtain ⟨-, hne, glob, -, rfl⟩ := (of?_eq_some_iff line rule).mp hrule
  have hhead : (trimLine line).head? = line.head? := by
    obtain ⟨tail, htail⟩ := trimLine_isPrefix line
    obtain ⟨c, rest, hcons⟩ := List.exists_cons_of_ne_nil hne
    rw [hcons] at htail ⊢
    rw [← htail]
    rfl
  change (marked line).negated = _
  rw [marked, takeTrailing_negated, takeLeading_negated, hhead]

section

variable {c : Char}

theorem takeLeading_getLast? {line : List Char} (hlast : line.getLast? = some c) (hbang : '!' ≠ c)
    (hslash : '/' ≠ c) : (takeLeading line).text.getLast? = some c := by
  unfold takeLeading
  split
  · rwa [List.getLast?_cons_cons] at hlast
  · rwa [List.getLast?_cons_cons] at hlast
  · split
    rename_i negated rest hpair
    have hrest : rest.getLast? = some c := by
      split at hpair
      · obtain ⟨-, rfl⟩ := Prod.mk.inj hpair
        exact Text.getLast?_of_cons hlast hbang
      · obtain ⟨-, rfl⟩ := Prod.mk.inj hpair
        exact hlast
    split
    · exact Text.getLast?_of_cons hrest hslash
    · exact hrest

theorem takeTrailing_eq_self {m : Marked} (hlast : m.text.getLast? = some c) (hslash : '/' ≠ c) :
    takeTrailing m = m := by
  have hhead : m.text.reverse.head? = some c := by rw [List.head?_reverse, hlast]
  unfold takeTrailing
  split
  · rename_i hreverse
    rw [hreverse] at hhead
    exact absurd (Option.some.inj hhead) hslash
  · rename_i hreverse
    rw [hreverse] at hhead
    exact absurd (Option.some.inj hhead) hslash
  · rfl

theorem globText_getLast? {m : Marked} (hlast : m.text.getLast? = some c) (hstar : '*' ≠ c) :
    (globText m).getLast? = some c := by
  have htext : ∀ lead : List Char, (lead ++ m.text).getLast? = some c := by
    intro lead
    rw [List.getLast?_append, hlast, Option.some_or]
  have hends : ∀ text : List Char, text.getLast? = some c →
      Text.endsWith "/**".toList text = false := by
    intro text htext
    rw [Bool.eq_false_iff, Ne, Text.endsWith_iff]
    rintro ⟨front, rfl⟩
    rw [List.getLast?_append] at htext
    exact hstar (Option.some.inj htext)
  unfold globText
  dsimp only
  split
  · rw [hends _ (htext _)]
    exact htext _
  · rw [hends _ hlast]
    exact hlast

/-- A line that ends in a plain character matches only paths that end in it. -/
theorem isSuffix_of_accepts {line : List Char} {rule : IgnoreRule} {path : List UInt8}
    {isDirectory : Bool} (hc : Glob.IsPlainEnd c) (hbang : '!' ≠ c)
    (hlast : (trimLine line).getLast? = some c) (hrule : of? line = some rule)
    (haccepts : rule.accepts path isDirectory) : Text.utf8Bytes c <:+ path := by
  obtain ⟨-, -, glob, hglob, rfl⟩ := (of?_eq_some_iff line rule).mp hrule
  have hslash := hc.ne (x := '/') (by simp)
  have hleading := takeLeading_getLast? hlast hbang hslash
  have hmarked : (marked line).text.getLast? = some c := by
    rwa [marked, takeTrailing_eq_self hleading hslash]
  have htext := globText_getLast? hmarked (hc.ne (by simp))
  obtain ⟨ts, htokens⟩ := Glob.tokens_of_parse hc htext hglob
  exact Glob.isSuffix_of_accepts htokens (Bool.and_eq_true_iff.mp haccepts).2

end

end IgnoreRule

end WebAudit
