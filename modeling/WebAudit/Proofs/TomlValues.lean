import WebAudit.Proofs.QuotedText
import WebAudit.Toml.Document

/-!
Values read back. A text, a whole number of at most 63 bits, a Boolean and a list
of texts that are written at the end of a line are read as what they were. So is
a finite float whose own text reads back: it has a point, so it is no integer.
-/

namespace WebAudit.Toml

section Words

/-- Texts that go on after a value: with the end of a line, the end of an item or
the end of a list. -/
def Ends (rest : List Char) : Prop :=
  ∀ c tail, rest = c :: tail → c = '\n' ∨ c = ',' ∨ c = ']'

theorem Ends.noMark {rest : List Char} (hrest : Ends rest) : NoMark rest := by
  intro c tail heq
  rcases hrest c tail heq with rfl | rfl | rfl <;> decide

theorem ends_cons {c : Char} (rest : List Char) (hc : c = '\n' ∨ c = ',' ∨ c = ']') :
    Ends (c :: rest) := by
  intro d tail heq
  rwa [← (List.cons.inj heq).1]

/-- A word is taken up to where it ends. -/
theorem takeWord_append {word rest : List Char} (hword : ∀ c ∈ word, isWordChar c = true)
    (hrest : Ends rest) : takeWord (word ++ rest) = (word, rest) := by
  have hstop : rest.takeWhile isWordChar = [] ∧ rest.dropWhile isWordChar = rest := by
    cases hcase : rest with
    | nil => exact ⟨rfl, rfl⟩
    | cons c tail => rcases hrest c tail hcase with rfl | rfl | rfl <;> exact ⟨rfl, rfl⟩
  have hspace : ∀ tail, rest ≠ ' ' :: tail := by
    intro tail heq
    rcases hrest _ _ heq with h | h | h <;> cases h
  unfold takeWord
  rw [List.takeWhile_append_of_pos hword, List.dropWhile_append_of_pos hword, hstop.1, hstop.2,
    List.append_nil]
  dsimp only
  split
  · rename_i heq _
    exact absurd rfl (hspace _)
  · rfl

theorem digits?_of_isDigit {ds : List Char} (hdigits : ∀ c ∈ ds, c.isDigit = true)
    (hne : ds ≠ []) : digits? Char.isDigit ds = some ds := by
  induction ds with
  | nil => exact absurd rfl hne
  | cons c ds ih =>
      obtain ⟨hc, hds⟩ := List.forall_mem_cons.mp hdigits
      cases ds with
      | nil => simp [digits?, hc]
      | cons d ds =>
          have hd : d ≠ '_' := by
            rintro rfl
            exact absurd (hds '_' List.mem_cons_self) (by decide)
          rw [digits?]
          · rw [if_pos hc, ih hds (List.cons_ne_nil _ _)]
            rfl
          · simp
          · intro more heq
            exact hd (List.cons.inj heq).1

/-- Digits have nothing between them but underscores. -/
theorem isDigit_of_digits? {isDigit : Char → Bool} {cs ds : List Char}
    (hdigits : digits? isDigit cs = some ds) : ∀ c ∈ cs, isDigit c = true ∨ c = '_' := by
  fun_induction digits? isDigit cs generalizing ds with
  | case1 => cases hdigits
  | case2 c hc => simp [hc]
  | case3 => cases hdigits
  | case4 c rest hc ih =>
      obtain ⟨more, hmore, -⟩ := Option.map_eq_some_iff.mp hdigits
      exact List.forall_mem_cons.mpr ⟨Or.inl hc, List.forall_mem_cons.mpr ⟨Or.inr rfl, ih hmore⟩⟩
  | case5 => cases hdigits
  | case6 c rest _ _ hc ih =>
      obtain ⟨more, hmore, -⟩ := Option.map_eq_some_iff.mp hdigits
      exact List.forall_mem_cons.mpr ⟨Or.inl hc, ih hmore⟩
  | case7 => cases hdigits

theorem hexDigit?_digitChar : ∀ d < 10, hexDigit? (Nat.digitChar d) = some d := by decide

/-- The last digit of a number of several digits. -/
theorem toDigits_of_le {n : Nat} (hn : 10 ≤ n) :
    Nat.toDigits 10 n = Nat.toDigits 10 (n / 10) ++ [Nat.digitChar (n % 10)] := by
  have hlast : n % 10 < 10 := Nat.mod_lt n (by decide)
  have hsplit := Nat.toDigits_append_toDigits (by decide : 1 < 10) (by omega : 0 < n / 10) hlast
  rw [Nat.div_add_mod, Nat.toDigits_of_lt_base hlast] at hsplit
  exact hsplit.symm

/-- The digits of a number spell it. -/
theorem valueInBase_toDigits (n : Nat) : valueInBase 10 (Nat.toDigits 10 n) = n := by
  induction n using Nat.strongRecOn with
  | ind n ih =>
      by_cases hsmall : n < 10
      · rw [Nat.toDigits_of_lt_base hsmall]
        simp [valueInBase, hexDigit?_digitChar n hsmall]
      · have hlast : n % 10 < 10 := Nat.mod_lt n (by decide)
        have hvalue := ih (n / 10) (by omega)
        rw [toDigits_of_le (by omega)]
        simp only [valueInBase, List.foldl_append, List.foldl_cons, List.foldl_nil] at hvalue ⊢
        rw [hvalue, hexDigit?_digitChar _ hlast, Option.getD_some]
        omega

theorem digitChar_ne_zero : ∀ d < 10, 0 < d → Nat.digitChar d ≠ '0' := by decide

/-- Only zero starts with the digit zero. -/
theorem exists_toDigits {n : Nat} (hpositive : 0 < n) :
    ∃ c tail, Nat.toDigits 10 n = c :: tail ∧ c ≠ '0' := by
  induction n using Nat.strongRecOn with
  | ind n ih =>
      by_cases hsmall : n < 10
      · exact ⟨_, [], Nat.toDigits_of_lt_base hsmall, digitChar_ne_zero n hsmall hpositive⟩
      · obtain ⟨c, tail, hfirst, hc⟩ := ih (n / 10) (by omega) (by omega)
        exact ⟨c, tail ++ [Nat.digitChar (n % 10)],
          by rw [toDigits_of_le (by omega), hfirst]; rfl, hc⟩

theorem isDigit_toDigits (n : Nat) : ∀ c ∈ Nat.toDigits 10 n, c.isDigit = true :=
  fun _ hc => Nat.isDigit_of_mem_toDigits (by decide) (by decide) hc

theorem wholeDigits?_toDigits (n : Nat) :
    wholeDigits? (Nat.toDigits 10 n) = some (Nat.toDigits 10 n) := by
  rcases Nat.eq_zero_or_pos n with rfl | hpositive
  · rfl
  · obtain ⟨c, tail, hdigits, hc⟩ := exists_toDigits hpositive
    have hread := digits?_of_isDigit (isDigit_toDigits n) (by simp [hdigits])
    rw [hdigits] at hread ⊢
    unfold wholeDigits?
    split
    · rename_i heq
      exact absurd (List.cons.inj heq).1 hc
    · exact hread

/-- A sign is not a digit. -/
theorem splitSign_of_isDigit {c : Char} (hc : c.isDigit = true) (tail : List Char) :
    splitSign (c :: tail) = (false, c :: tail) := by
  unfold splitSign
  split
  · rename_i heq
    obtain rfl := (List.cons.inj heq).1
    exact absurd hc (by decide)
  · rename_i heq
    obtain rfl := (List.cons.inj heq).1
    exact absurd hc (by decide)
  · rfl

theorem inRange?_natCast {n : Nat} (hn : n < Nat.pow 2 63) :
    inRange? (n : Int) = some (n : Int) := by
  have hnat : Nat.pow 2 63 = 9223372036854775808 := rfl
  have hint : Int.pow 2 63 = 9223372036854775808 := by decide
  rw [hnat] at hn
  have hlow : -(9223372036854775808 : Int) ≤ n := by omega
  have hhigh : (n : Int) < 9223372036854775808 := by omega
  rw [inRange?, hint, decide_eq_true hlow, decide_eq_true hhigh]
  rfl

/-- A number without the letter of a base is a decimal one. -/
theorem integer?_of_chars {cs : List Char}
    (hchars : ∀ c ∈ cs, c.isDigit = true ∨ c = '.' ∨ c = '-') :
    integer? cs = (wholeDigits? (splitSign cs).2).bind fun ds =>
      inRange? (if (splitSign cs).1 then -(valueInBase 10 ds : Int) else valueInBase 10 ds) := by
  have hbase : ∀ letter rest, ¬ (letter.isDigit = true ∨ letter = '.' ∨ letter = '-') →
      cs ≠ '0' :: letter :: rest := by
    rintro letter rest hletter rfl
    exact hletter (hchars letter (by simp))
  rw [integer?.eq_4 cs (fun rest => hbase 'x' rest (by decide))
    (fun rest => hbase 'o' rest (by decide)) (fun rest => hbase 'b' rest (by decide))]

/-- Digits are read as a decimal number. -/
theorem integer?_of_isDigit {ds : List Char} (hdigit : ∀ c ∈ ds, c.isDigit = true)
    (hwhole : wholeDigits? ds = some ds) : integer? ds = inRange? (valueInBase 10 ds) := by
  have hsign : splitSign ds = (false, ds) := by
    cases ds with
    | nil => rfl
    | cons c tail => exact splitSign_of_isDigit (hdigit c List.mem_cons_self) tail
  rw [integer?_of_chars fun c hc => Or.inl (hdigit c hc), hsign]
  dsimp only
  rw [hwhole, Option.bind_some, if_neg Bool.false_ne_true]

/-- The digits of a number of at most 63 bits are an integer. -/
theorem integer?_toDigits {n : Nat} (hn : n < Nat.pow 2 63) :
    integer? (Nat.toDigits 10 n) = some (n : Int) := by
  rw [integer?_of_isDigit (isDigit_toDigits n) (wholeDigits?_toDigits n), valueInBase_toDigits,
    inRange?_natCast hn]

end Words

section Floats

open Number

theorem mem_positional {ds : List Char} (hds : ∀ c ∈ ds, c.isDigit = true) (point : Int) :
    ∀ c ∈ positional ds point false, c.isDigit = true ∨ c = '.' := by
  intro c hc
  unfold positional at hc
  dsimp only at hc
  split at hc
  · simp only [List.mem_cons, List.mem_append, List.mem_replicate] at hc
    rcases hc with rfl | rfl | ⟨-, rfl⟩ | hc
    · exact Or.inl (by decide)
    · exact Or.inr rfl
    · exact Or.inl (by decide)
    · exact Or.inl (hds c hc)
  split at hc
  · simp only [List.mem_cons, List.mem_append] at hc
    rcases hc with hc | rfl | hc
    · exact Or.inl (hds c (List.mem_of_mem_take hc))
    · exact Or.inr rfl
    · exact Or.inl (hds c (List.mem_of_mem_drop hc))
  · simp only [Bool.false_eq_true, if_false, List.append_nil, List.mem_append,
      List.mem_replicate] at hc
    rcases hc with hc | ⟨-, rfl⟩
    · exact Or.inl (hds c hc)
    · exact Or.inl (by decide)

theorem mem_plainText (negative : Bool) (m : Nat) (e : Int) :
    ∀ c ∈ (plainText .double (.finite negative m e)).toList,
      c.isDigit = true ∨ c = '.' ∨ c = '-' := by
  intro c hc
  simp only [plainText, String.toList_ofList] at hc
  have hbody : ∀ c ∈ (if m == 0 then ['0'] else
      positional (Nat.toDigits 10 (shortestDigits .double m e).1)
        ((Nat.toDigits 10 (shortestDigits .double m e).1).length +
          (shortestDigits .double m e).2) false), c.isDigit = true ∨ c = '.' := by
    split
    · simp
    · exact mem_positional (isDigit_toDigits _) _
  cases negative with
  | false => exact (hbody c hc).imp_right Or.inl
  | true =>
      rcases List.mem_cons.mp hc with rfl | hc
      · exact Or.inr (Or.inr rfl)
      · exact (hbody c hc).imp_right Or.inl

/-- The text of a finite float has a point, and digits and perhaps a sign besides. -/
theorem floatText_finite (negative : Bool) (m : Nat) (e : Int) :
    '.' ∈ (floatText (.finite negative m e)).toList ∧
      ∀ c ∈ (floatText (.finite negative m e)).toList,
        c.isDigit = true ∨ c = '.' ∨ c = '-' := by
  have hplain := mem_plainText negative m e
  unfold floatText
  dsimp only
  split
  · rename_i hpoint
    exact ⟨by simpa using hpoint, hplain⟩
  · rw [String.toList_append]
    refine ⟨List.mem_append_right _ (by decide), fun c hc => ?_⟩
    rcases List.mem_append.mp hc with hc | hc
    · exact hplain c hc
    · have hzero : c = '.' ∨ c = '0' := by simpa using hc
      rcases hzero with rfl | rfl
      · exact Or.inr (Or.inl rfl)
      · exact Or.inl (by decide)

/-- A number with a point is no integer. -/
theorem integer?_eq_none_of_point {cs : List Char} (hpoint : '.' ∈ cs)
    (hchars : ∀ c ∈ cs, c.isDigit = true ∨ c = '.' ∨ c = '-') : integer? cs = none := by
  have hbody : '.' ∈ (splitSign cs).2 := by
    unfold splitSign
    split
    · exact List.mem_of_ne_of_mem (by decide) hpoint
    · exact List.mem_of_ne_of_mem (by decide) hpoint
    · exact hpoint
  have hwhole : wholeDigits? (splitSign cs).2 = none := by
    have hdigits : digits? Char.isDigit (splitSign cs).2 = none := by
      rw [Option.eq_none_iff_forall_ne_some]
      intro ds hds
      rcases isDigit_of_digits? hds '.' hbody with h | h <;> exact absurd h (by decide)
    unfold wholeDigits?
    split
    · rfl
    · exact hdigits
  rw [integer?_of_chars hchars, hwhole, Option.bind_none]

end Floats

section Values

/-- What a word is read as. -/
theorem value?_word {word rest : List Char} {v : Value} (hne : word ≠ [])
    (hword : ∀ c ∈ word, isWordChar c = true) (hrest : Ends rest)
    (hscalar : scalar? word = some v) (fuel depth : Nat) :
    value? (fuel + 1) depth (word ++ rest) = some (v, rest) := by
  obtain ⟨c, tail, rfl⟩ := List.exists_cons_of_ne_nil hne
  have hc := hword c List.mem_cons_self
  have hquoted : readQuoted? (c :: tail ++ rest) = none := by
    have hopen : openQuotes? (c :: tail ++ rest) = none := by
      rw [List.cons_append]
      unfold openQuotes?
      split
      all_goals first
        | rfl
        | (rename_i heq
           obtain rfl := (List.cons.inj heq).1
           exact absurd hc (by decide))
    rw [readQuoted?, hopen]
    rfl
  have hword' := takeWord_append hword hrest
  rw [List.cons_append] at hquoted hword' ⊢
  unfold value?
  split
  · rename_i heq
    obtain rfl := (List.cons.inj heq).1
    exact absurd hc (by decide)
  · rename_i heq
    obtain rfl := (List.cons.inj heq).1
    exact absurd hc (by decide)
  · rw [hquoted]
    dsimp only
    rw [hword', hscalar]
    rfl

/-- What a quoted text is read as. -/
theorem value?_quote (s : List Char) {rest : List Char} (hrest : NoMark rest) (fuel depth : Nat) :
    value? (fuel + 1) depth (quote s ++ rest) = some (.string (String.ofList s), rest) := by
  have hread := readQuoted?_quote s hrest
  unfold value?
  split
  · rename_i heq
    rw [heq] at hread
    cases hread
  · rename_i heq
    rw [heq] at hread
    cases hread
  · rw [hread]

/-- Characters of a kind without blanks are no blanks. -/
theorem isSpace_eq_false {kind : Char → Bool} (hblank : kind ' ' = false)
    (htab : kind '\t' = false) {c : Char} (hc : kind c = true) : isSpace c = false := by
  cases hspace : isSpace c with
  | false => rfl
  | true =>
      simp only [isSpace, Bool.or_eq_true, beq_iff_eq] at hspace
      rcases hspace with rfl | rfl
      · rw [hblank] at hc
        cases hc
      · rw [htab] at hc
        cases hc

structure Value.IsLegible (v : Value) : Prop where
  reads : ∀ rest, topValue? (v.text.toList ++ '\n' :: rest) = some (v, '\n' :: rest)
  starts : ∃ c tail, v.text.toList = c :: tail ∧ isSpace c = false
  unified : '\r' ∉ v.text.toList

theorem ends_line (rest : List Char) : Ends ('\n' :: rest) := ends_cons rest (Or.inl rfl)

/-- A word is legible if it is read as the value that it is for. -/
theorem Value.isLegible_of_word {v : Value} (hne : v.text.toList ≠ [])
    (hword : ∀ c ∈ v.text.toList, isWordChar c = true)
    (hscalar : scalar? v.text.toList = some v) : v.IsLegible where
  reads rest := value?_word hne hword (ends_line rest) hscalar _ _
  starts := by
    obtain ⟨c, tail, htext⟩ := List.exists_cons_of_ne_nil hne
    exact ⟨c, tail, htext, isSpace_eq_false rfl rfl (hword c (by simp [htext]))⟩
  unified hmem := absurd (hword _ hmem) (by decide)

theorem Value.boolean_isLegible (b : Bool) : (Value.boolean b).IsLegible := by
  cases b with
  | false => exact isLegible_of_word (by decide) (List.all_eq_true.mp rfl) rfl
  | true => exact isLegible_of_word (by decide) (List.all_eq_true.mp rfl) rfl

theorem isWordChar_of_isDigit {c : Char} (hc : c.isDigit = true) : isWordChar c = true := by
  simp [isWordChar, Char.isAlphanum, hc]

/-- Whole numbers of at most 63 bits are legible. -/
theorem Value.natural_isLegible {n : Nat} (hn : n < Nat.pow 2 63) :
    (Value.integer n).IsLegible := by
  have htext : (Value.integer n).text.toList = Nat.toDigits 10 n := by
    rw [Value.text]
    exact Nat.toList_repr
  have hdigit := isDigit_toDigits n
  have hne : Nat.toDigits 10 n ≠ [] := by
    rcases Nat.eq_zero_or_pos n with rfl | hpositive
    · decide
    · obtain ⟨c, tail, hdigits, -⟩ := exists_toDigits hpositive
      simp [hdigits]
  have hletters : ∀ word : List Char, (∃ c ∈ word, c.isDigit = false) →
      Nat.toDigits 10 n ≠ word := by
    rintro word ⟨c, hc, hletter⟩ rfl
    rw [hdigit c hc] at hletter
    cases hletter
  apply isLegible_of_word
  · rwa [htext]
  · intro c hc
    rw [htext] at hc
    exact isWordChar_of_isDigit (hdigit c hc)
  · rw [htext, scalar?, if_neg, if_neg, integer?_toDigits hn]
    · simpa using hletters "false".toList ⟨'f', by decide, by decide⟩
    · simpa using hletters "true".toList ⟨'t', by decide, by decide⟩

/-- A finite float is legible if its text reads back. -/
theorem Value.float_isLegible (negative : Bool) (m : Nat) (e : Int)
    (hread : float? (floatText (.finite negative m e)).toList = some (.finite negative m e)) :
    (Value.float (.finite negative m e)).IsLegible := by
  obtain ⟨hpoint, hchars⟩ := floatText_finite negative m e
  have htext : (Value.float (.finite negative m e)).text = floatText (.finite negative m e) := by
    rw [Value.text]
  have hpointless : ∀ word : List Char, '.' ∉ word →
      (floatText (.finite negative m e)).toList ≠ word := by
    rintro word hnone rfl
    exact hnone hpoint
  apply isLegible_of_word
  · rw [htext]
    exact List.ne_nil_of_mem hpoint
  · intro c hc
    rw [htext] at hc
    rcases hchars c hc with h | rfl | rfl
    · exact isWordChar_of_isDigit h
    · decide
    · decide
  · rw [htext, scalar?, if_neg, if_neg, integer?_eq_none_of_point hpoint hchars, hread]
    · simpa using hpointless "false".toList (by decide)
    · simpa using hpointless "true".toList (by decide)

theorem Value.string_text (s : String) : (Value.string s).text.toList = quote s.toList := by
  rw [Value.text, String.toList_ofList]

theorem Value.string_isLegible (s : String) : (Value.string s).IsLegible where
  reads rest := by
    rw [string_text]
    have hread := value?_quote s.toList (ends_line rest).noMark
    rw [String.ofList_toList] at hread
    exact hread _ _
  starts := by
    rw [string_text]
    obtain ⟨c, tail, hquote, hc⟩ := exists_quote s.toList
    refine ⟨c, tail, hquote, ?_⟩
    rcases hc with rfl | rfl <;> decide
  unified := by
    rw [string_text]
    exact return_not_mem_quote s.toList

end Values

section Lists

/-- Anything but a blank, a line end and a comment is no filler. -/
theorem skipFiller_cons {c : Char} (rest : List Char)
    (hc : isSpace c = false ∧ c ≠ '\n' ∧ c ≠ '#') :
    skipFiller false (c :: rest) = some (c :: rest) := by
  obtain ⟨hspace, hline, hcomment⟩ := hc
  rw [skipFiller]
  simp [hspace, hline, hcomment]

theorem skipFiller_quote (s rest : List Char) :
    skipFiller false (quote s ++ rest) = some (quote s ++ rest) := by
  obtain ⟨c, tail, hquote, hc⟩ := exists_quote s
  rw [hquote, List.cons_append]
  apply skipFiller_cons
  rcases hc with rfl | rfl <;> decide

theorem items?_congr {cs cs' : List Char} (hfiller : skipFiller false cs = skipFiller false cs')
    {fuel depth : Nat} : items? (fuel + 1) depth cs = items? (fuel + 1) depth cs' := by
  rw [items?, items?, hfiller]

/-- An item that is a text, with what follows it. -/
theorem items?_quote (fuel depth : Nat) (s : List Char) {rest : List Char} (hrest : NoMark rest) :
    items? (fuel + 2) depth (quote s ++ rest) =
      match skipFiller false rest with
      | some (',' :: rest) =>
        (items? (fuel + 1) depth rest).map fun (items, rest) =>
          (.string (String.ofList s) :: items, rest)
      | some (']' :: rest) => some ([.string (String.ofList s)], rest)
      | _ => none := by
  obtain ⟨c, tail, hquote, hc⟩ := exists_quote s
  have hvalue := value?_quote s hrest fuel depth
  have hfiller := skipFiller_quote s rest
  rw [items?, hfiller]
  rw [hquote, List.cons_append] at hvalue ⊢
  split
  · rename_i heq
    obtain rfl := (List.cons.inj (Option.some.inj heq)).1
    rcases hc with h | h <;> cases h
  · rename_i heq
    obtain rfl := Option.some.inj heq
    rewrite [hvalue]
    rfl
  · rename_i heq
    cases heq

theorem items?_quote_comma (fuel depth : Nat) (s rest : List Char) :
    items? (fuel + 2) depth (quote s ++ ',' :: rest) =
      (items? (fuel + 1) depth rest).map fun (items, rest) =>
        (.string (String.ofList s) :: items, rest) := by
  rw [items?_quote _ _ _ (ends_cons rest (Or.inr (Or.inl rfl))).noMark,
    skipFiller_cons rest (by decide)]
  rfl

theorem items?_quote_close (fuel depth : Nat) (s rest : List Char) :
    items? (fuel + 2) depth (quote s ++ ']' :: rest) =
      some ([.string (String.ofList s)], rest) := by
  rw [items?_quote _ _ _ (ends_cons rest (Or.inr (Or.inr rfl))).noMark,
    skipFiller_cons rest (by decide)]
  rfl

/-- A bracket opens a list. -/
theorem topValue?_of_items {cs rest : List Char} {items : List Value}
    (hitems : ∀ fuel, cs.length ≤ fuel → ∀ depth,
      items? (fuel + 1) depth cs = some (items, rest)) :
    topValue? ('[' :: cs) = some (.array items, rest) := by
  have hopen : topValue? ('[' :: cs) =
      (items? (2 * (cs.length + 1) + 1) (depthLimit.pred - 1) cs).map fun (items, rest) =>
        (.array items, rest) := rfl
  rw [hopen, hitems _ (by omega)]
  rfl

/-- Items on lines of their own are read one after the other. -/
theorem items?_itemLines (texts : List String) (depth : Nat) (rest : List Char) {fuel : Nat}
    (hfuel : texts.length ≤ fuel) :
    items? (fuel + 1) depth
        ((Value.itemLines (texts.map .string)).toList ++ '\n' :: ']' :: rest) =
      some (texts.map .string, rest) := by
  induction texts generalizing fuel with
  | nil => simp [Value.itemLines, items?, skipFiller, isSpace]
  | cons s texts ih =>
      obtain ⟨fuel, rfl⟩ : ∃ k, fuel = k + 1 := ⟨fuel - 1, by simp at hfuel; omega⟩
      have hlater := ih (Nat.le_of_succ_le_succ hfuel)
      have htext : (Value.itemLines ((s :: texts).map .string)).toList ++ '\n' :: ']' :: rest =
          "\n    ".toList ++ (quote s.toList ++ ',' ::
            ((Value.itemLines (texts.map .string)).toList ++ '\n' :: ']' :: rest)) := by
        rw [List.map_cons, Value.itemLines]
        simp [String.toList_append, Value.string_text]
      have hindent : ∀ cs, skipFiller false ("\n    ".toList ++ cs) = skipFiller false cs :=
        fun _ => rfl
      rw [htext, items?_congr (hindent _), items?_quote_comma, hlater, String.ofList_toList]
      rfl

theorem length_itemLines (vs : List Value) : vs.length ≤ (Value.itemLines vs).toList.length := by
  induction vs with
  | nil => exact Nat.zero_le _
  | cons v vs ih =>
      rw [Value.itemLines]
      simp only [String.toList_append, List.length_append, List.length_cons]
      have hcomma : ",".toList.length = 1 := rfl
      omega

theorem return_not_mem_itemLines (texts : List String) :
    '\r' ∉ (Value.itemLines (texts.map .string)).toList := by
  induction texts with
  | nil => simp [Value.itemLines]
  | cons s texts ih =>
      rw [List.map_cons, Value.itemLines]
      simp [String.toList_append, (Value.string_isLegible s).unified, ih]

/-- A list of texts is legible. -/
theorem Value.texts_isLegible (texts : List String) :
    (Value.array (texts.map .string)).IsLegible := by
  -- Only a list of two or more is written on several lines.
  match texts with
  | [] =>
      refine ⟨fun rest => ?_, ⟨'[', [']'], by simp [Value.text], rfl⟩, by simp [Value.text]⟩
      rw [List.map_nil, Value.text]
      rfl
  | [s] =>
      have htext : (Value.array ([s].map .string)).text.toList =
          '[' :: (quote s.toList ++ [']']) := by
        rw [List.map_cons, List.map_nil, Value.text]
        simp [String.toList_append, string_text]
      refine ⟨fun rest => ?_, ⟨'[', _, htext, rfl⟩, ?_⟩
      · rw [htext, List.cons_append, List.append_assoc]
        refine topValue?_of_items fun fuel hfuel depth => ?_
        obtain ⟨fuel, rfl⟩ : ∃ k, fuel = k + 1 := ⟨fuel - 1, by simp at hfuel; omega⟩
        have hclose := items?_quote_close fuel depth s.toList ('\n' :: rest)
        rw [String.ofList_toList] at hclose
        exact hclose
      · rw [htext]
        simp [return_not_mem_quote]
  | s :: t :: texts =>
      have htext : (Value.array ((s :: t :: texts).map .string)).text.toList =
          '[' :: ((Value.itemLines ((s :: t :: texts).map .string)).toList ++ ['\n', ']']) := by
        rw [List.map_cons, List.map_cons, Value.text]
        · simp [String.toList_append]
        · simp
        · simp
      refine ⟨fun rest => ?_, ⟨'[', _, htext, rfl⟩, ?_⟩
      · rw [htext, List.cons_append, List.append_assoc]
        refine topValue?_of_items fun fuel hfuel depth => ?_
        have hlength := length_itemLines ((s :: t :: texts).map Value.string)
        rw [List.length_map] at hlength
        rw [List.length_append] at hfuel
        exact items?_itemLines (s :: t :: texts) depth ('\n' :: rest) (by omega)
      · have hlines := return_not_mem_itemLines (s :: t :: texts)
        rw [htext]
        simpa using hlines

end Lists

end WebAudit.Toml
