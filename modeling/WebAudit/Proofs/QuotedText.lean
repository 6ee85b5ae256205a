import WebAudit.Toml.Quoted

/-!
Quoted texts read back. Whatever a text holds, the form that is chosen for it is
read as the text again. Between the marks each character is written as itself
or as an escape, and a reader that has seen up to two marks takes them for a part
of the text as soon as anything but a mark follows; so the marks at the end are
found although the text may hold marks as well.
-/

namespace WebAudit.Toml

/-- Texts that do not go on with a quotation mark. -/
def NoMark (rest : List Char) : Prop := ∀ c tail, rest = c :: tail → c ≠ '"' ∧ c ≠ '\''

theorem NoMark.head_ne_mark {rest tail : List Char} {c : Char} (hrest : NoMark rest)
    (heq : rest = c :: tail) (q : Quoting) : c ≠ q.mark := by
  obtain ⟨hdouble, hsingle⟩ := hrest c tail heq
  cases q with
  | basic | blockBasic => exact hdouble
  | literal | blockLiteral => exact hsingle

section Reading

/-- The most marks that a reader takes for a part of the text: none outside of a
block, which ends at the first one. -/
def Quoting.spare (q : Quoting) : Nat := if q.isBlock then 2 else 0

/-- Whether characters are read as one character after marks that may still be
the end. -/
def Stands (q : Quoting) (written : List Char) (c : Char) : Prop :=
  ∀ pending ≤ q.spare, ∀ rest,
    quotedBody q (.plain pending false) (written ++ rest) =
      andThen (List.replicate pending q.mark ++ [c]) (quotedBody q (.plain 0 false) rest)

@[simp]
theorem andThen_some (cs content rest : List Char) :
    andThen cs (some (content, rest)) = some (cs ++ content, rest) := rfl

theorem andThen_andThen (cs ds : List Char) (read : Option (List Char × List Char)) :
    andThen cs (andThen ds read) = andThen (cs ++ ds) read := by
  cases read <;> simp [andThen]

/-- Escapes are read between double marks alone. -/
theorem mark_of_hasEscapes {q : Quoting} (hescapes : q.hasEscapes = true) : q.mark = '"' := by
  cases q with
  | basic | blockBasic => rfl
  | literal | blockLiteral => cases hescapes

theorem spare_lt_three (q : Quoting) : q.spare < 3 := by
  cases q <;> decide

theorem isBlock_of_lt_spare {q : Quoting} {n : Nat} (hlt : n < q.spare) :
    q.isBlock = true ∧ n < 2 := by
  cases q <;> simp_all [Quoting.spare, Quoting.isBlock]

/-- A character that is no mark and starts no escape stands for itself. -/
theorem stands_self {q : Quoting} {c : Char} (hmark : c ≠ q.mark)
    (hslash : q.hasEscapes = true → c ≠ '\\')
    (hplain : isPlain c = true ∨ (q.isBlock = true ∧ c = '\n')) : Stands q [c] c := by
  intro pending hpending rest
  have hfew : ¬ 3 ≤ pending := by
    have := spare_lt_three q
    omega
  have hescape : (q.hasEscapes && c == '\\') = false := by
    cases hq : q.hasEscapes with
    | false => rfl
    | true => simpa using hslash hq
  have hallowed : (isPlain c || (q.isBlock && c == '\n')) = true := by simpa using hplain
  rw [List.singleton_append, quotedBody]
  simp [hmark, hfew, hescape, hallowed, andThen_andThen]

/-- A backslash goes on as the escape after it. -/
theorem quotedBody_backslash {q : Quoting} (hescapes : q.hasEscapes = true) {pending : Nat}
    (hpending : pending ≤ q.spare) (rest : List Char) :
    quotedBody q (.plain pending false) ('\\' :: rest) =
      andThen (List.replicate pending q.mark) (quotedBody q .escape rest) := by
  have hfew : ¬ 3 ≤ pending := by
    have := spare_lt_three q
    omega
  have hmark : ('\\' == q.mark) = false := by cases q <;> rfl
  rw [quotedBody]
  simp [hmark, hfew, hescapes]

theorem stands_shortEscape {q : Quoting} (hescapes : q.hasEscapes = true) {letter c : Char}
    (hshort : shortEscape? letter = some c) : Stands q ['\\', letter] c := by
  intro pending hpending rest
  rw [List.cons_append, quotedBody_backslash hescapes hpending, List.singleton_append, quotedBody]
  simp only [hshort, andThen_andThen]

end Reading

section CodeEscapes

theorem hexDigit?_upperHexDigit : ∀ d < 16, hexDigit? (upperHexDigit d) = some d := by decide

theorem ofCode?_toNat (c : Char) : ofCode? c.toNat = some c := by
  have hvalid : c.toNat.isValidChar := c.valid
  rw [ofCode?, if_pos hvalid, Char.ofNat_toNat]

theorem stands_codeEscape {q : Quoting} (hescapes : q.hasEscapes = true) {c : Char}
    (hsmall : c.toNat < 65536) : Stands q (codeEscape c) c := by
  intro pending hpending rest
  have hdigits : 16 * (16 * (16 * (c.toNat / 4096 % 16) + c.toNat / 256 % 16) +
      c.toNat / 16 % 16) + c.toNat % 16 = c.toNat := by omega
  have hhex : ∀ n, hexDigit? (upperHexDigit (n % 16)) = some (n % 16) :=
    fun n => hexDigit?_upperHexDigit _ (Nat.mod_lt n (by decide))
  simp only [codeEscape, List.map_cons, List.map_nil, List.cons_append, List.nil_append]
  rw [quotedBody_backslash hescapes hpending]
  simp [quotedBody, shortEscape?, hhex, hdigits, ofCode?_toNat, andThen_andThen]

/-- Characters that are not plain are control characters. -/
theorem toNat_lt_of_not_isPlain {c : Char} (hplain : isPlain c = false) : c.toNat < 128 := by
  simp only [isPlain, Bool.or_eq_false_iff, Bool.and_eq_false_iff, decide_eq_false_iff_not,
    bne_eq_false_iff_eq] at hplain
  have hspace : ' '.toNat = 32 := rfl
  omega

/-- Between double quotes a character is written so that it stands for itself. -/
theorem stands_writeChar {q : Quoting} (hescapes : q.hasEscapes = true) {c : Char} (hc : c ≠ '"') :
    Stands q (writeChar q.isBlock c) c := by
  have hmark : c ≠ q.mark := by rwa [mark_of_hasEscapes hescapes]
  unfold writeChar
  split
  · exact stands_shortEscape hescapes rfl
  · exact stands_shortEscape hescapes rfl
  · split
    · rename_i hblock
      exact stands_self hmark (fun _ => by decide) (Or.inr ⟨hblock, rfl⟩)
    · exact stands_shortEscape hescapes rfl
  · exact stands_shortEscape hescapes rfl
  · exact stands_shortEscape hescapes rfl
  · exact stands_shortEscape hescapes rfl
  · rename_i hslash
    split
    · rename_i hplain
      exact stands_self hmark (fun _ => hslash) (Or.inl hplain)
    · rename_i hplain
      have hsmall := toNat_lt_of_not_isPlain (Bool.not_eq_true _ ▸ hplain)
      exact stands_codeEscape hescapes (by omega)

end CodeEscapes

section Bodies

variable {q : Quoting} {rest : List Char}

/-- The marks at the end are found after marks that belong to the text. -/
theorem quotedBody_marks (hrest : NoMark rest) {pending : Nat} (hpending : pending ≤ q.spare) :
    quotedBody q (.plain pending false) (q.marks ++ rest) =
      some (List.replicate pending q.mark, rest) := by
  unfold Quoting.marks
  cases hblock : q.isBlock with
  | false =>
      obtain rfl : pending = 0 := by simpa [Quoting.spare, hblock] using hpending
      simp [quotedBody, hblock]
  | true =>
      have hle : pending ≤ 2 := by simpa [Quoting.spare, hblock] using hpending
      have hend : ∀ k, 3 ≤ k → k ≤ 4 → quotedBody q (.plain k false) rest =
          some (List.replicate (k - 3) q.mark, rest) := by
        intro k hk _
        cases hcase : rest with
        | nil => simp [quotedBody, hblock, hk]
        | cons c tail => simp [quotedBody, hrest.head_ne_mark hcase q, hk]
      rcases (by omega : pending = 0 ∨ pending = 1 ∨ pending = 2) with rfl | rfl | rfl
      · simp [quotedBody, hblock, hend, List.replicate]
      · simp [quotedBody, hblock, hend, List.replicate]
      · simp [quotedBody, hblock, List.replicate]

/-- A mark within a block may be the end. -/
theorem quotedBody_mark (hblock : q.isBlock = true) {pending : Nat} (hpending : pending < 2)
    (rest : List Char) :
    quotedBody q (.plain pending false) (q.mark :: rest) =
      quotedBody q (.plain (pending + 1) false) rest := by
  have hfew : (pending == 4) = false := by
    rw [beq_eq_false_iff_ne]
    omega
  simp [quotedBody, hblock, hfew]

/-- What is written with escapes reads back. -/
theorem quotedBody_writeEscaped (hescapes : q.hasEscapes = true) (hrest : NoMark rest)
    (cs : List Char) {pending : Nat} (hpending : pending ≤ q.spare) :
    quotedBody q (.plain pending false) (writeEscaped q.isBlock pending cs ++ (q.marks ++ rest)) =
      some (List.replicate pending q.mark ++ cs, rest) := by
  have hmark := mark_of_hasEscapes hescapes
  -- The induction is on the text, with any number of marks before it that the
  -- reader holds back.
  induction cs generalizing pending with
  | nil => rw [writeEscaped, List.nil_append, quotedBody_marks hrest hpending, List.append_nil]
  | cons c cs ih =>
      have hstands : ∀ {written}, Stands q written c →
          quotedBody q (.plain pending false)
              ((written ++ writeEscaped q.isBlock 0 cs) ++ (q.marks ++ rest)) =
            some (List.replicate pending q.mark ++ c :: cs, rest) := by
        intro written hwritten
        rw [List.append_assoc, hwritten pending hpending, ih (Nat.zero_le _), andThen_some]
        simp
      rw [writeEscaped]
      by_cases hquote : c = '"'
      · subst hquote
        rw [if_pos (by rfl)]
        split
        · rename_i hfew
          obtain ⟨hblock, hless⟩ : q.isBlock = true ∧ pending < 2 := by simpa using hfew
          have hnext : pending + 1 ≤ q.spare := by
            simp only [Quoting.spare, hblock, if_true]
            omega
          rw [List.cons_append, ← hmark, quotedBody_mark hblock hless, ih hnext,
            List.replicate_succ']
          simp
        · exact @hstands ['\\', '"'] (stands_shortEscape hescapes rfl)
      · rw [if_neg (by simpa using hquote)]
        exact hstands (stands_writeChar hescapes hquote)

theorem le_longestRunFrom (mark : Char) (run : Nat) (cs : List Char) :
    run ≤ longestRunFrom mark run cs := by
  induction cs generalizing run with
  | nil => exact Nat.le_refl run
  | cons c cs ih =>
      rw [longestRunFrom]
      split
      · exact Nat.le_of_succ_le (ih (run + 1))
      · exact Nat.le_max_left run _

/-- What stands as it is reads back, if no run of marks in it is the end. -/
theorem quotedBody_raw (hescapes : q.hasEscapes = false) (hrest : NoMark rest) (cs : List Char)
    (hplain : ∀ c ∈ cs, isPlain c = true ∨ (q.isBlock = true ∧ c = '\n'))
    {pending : Nat} (hrun : longestRunFrom q.mark pending cs ≤ q.spare) :
    quotedBody q (.plain pending false) (cs ++ (q.marks ++ rest)) =
      some (List.replicate pending q.mark ++ cs, rest) := by
  induction cs generalizing pending with
  | nil =>
      rw [longestRunFrom] at hrun
      rw [List.nil_append, quotedBody_marks hrest hrun, List.append_nil]
  | cons c cs ih =>
      obtain ⟨hc, hcs⟩ := List.forall_mem_cons.mp hplain
      rw [longestRunFrom] at hrun
      by_cases hmark : c = q.mark
      · subst hmark
        rw [if_pos (by simp)] at hrun
        have hlonger := le_longestRunFrom q.mark (pending + 1) cs
        obtain ⟨hblock, hless⟩ := isBlock_of_lt_spare (Nat.le_trans hlonger hrun)
        rw [List.cons_append, quotedBody_mark hblock hless, ih hcs hrun, List.replicate_succ']
        simp
      · rw [if_neg (by simpa using hmark)] at hrun
        have hstands := stands_self hmark (by simp [hescapes]) hc
        rw [← List.singleton_append, List.append_assoc, hstands pending (by omega),
          ih hcs (by omega), andThen_some]
        simp

end Bodies

section Opening

/-- A mark that is not followed by two more opens a text of one line. -/
theorem openQuotes?_line {q : Quoting} (hline : q.isBlock = false) {body : List Char}
    (hbody : ∀ tail, body ≠ q.mark :: q.mark :: tail) :
    openQuotes? (q.marks ++ body) = some (q, body) := by
  cases q with
  | basic =>
      change openQuotes? ('"' :: body) = _
      unfold openQuotes?
      split <;> simp_all [Quoting.mark]
  | literal =>
      change openQuotes? ('\'' :: body) = _
      unfold openQuotes?
      split <;> simp_all [Quoting.mark]
  | blockBasic | blockLiteral => cases hline

/-- Three marks open a block, with or without a line end that is left out. -/
theorem openQuotes?_block {q : Quoting} (hblock : q.isBlock = true) (body : List Char) :
    openQuotes? (q.marks ++ '\n' :: body) = some (q, body) ∧
      ((∀ tail, body ≠ '\n' :: tail) → openQuotes? (q.marks ++ body) = some (q, body)) := by
  cases q with
  | basic | literal => cases hblock
  | blockBasic =>
      refine ⟨rfl, fun hbody => ?_⟩
      change openQuotes? ('"' :: '"' :: '"' :: body) = _
      simp [openQuotes?]
  | blockLiteral =>
      refine ⟨rfl, fun hbody => ?_⟩
      change openQuotes? ('\'' :: '\'' :: '\'' :: body) = _
      simp [openQuotes?]

end Opening

/-- A text whose form has no escapes stands in it as it is. -/
theorem preferredQuoting_raw {cs : List Char} (hescapes : (preferredQuoting cs).hasEscapes = false) :
    (∀ c ∈ cs, isPlain c = true ∨ ((preferredQuoting cs).isBlock = true ∧ c = '\n')) ∧
      longestRun (preferredQuoting cs).mark cs ≤ (preferredQuoting cs).spare := by
  have hcoded : cs.any needsEscape = false → ∀ c ∈ cs, isPlain c = true ∨ c = '\n' := by
    intro hnone c hc
    have hneeds := List.any_eq_false.mp hnone c hc
    cases hplain : isPlain c with
    | true => exact Or.inl rfl
    | false => exact Or.inr (by simpa [needsEscape, hplain] using hneeds)
  revert hescapes
  simp only [preferredQuoting]
  split
  · simp [Quoting.hasEscapes]
  split
  · rename_i hliteral
    simp only [Bool.and_eq_true, Bool.not_eq_true', beq_iff_eq, List.contains_eq_mem,
      decide_eq_false_iff_not] at hliteral
    obtain ⟨⟨hnone, hsingle⟩, hbroken⟩ := hliteral
    refine fun _ => ⟨fun c hc => Or.inl ?_, Nat.le_of_eq hsingle⟩
    rcases hcoded hnone c hc with hplain | rfl
    · exact hplain
    · exact absurd hc hbroken
  split
  · simp [Quoting.hasEscapes]
  split
  · rename_i hblock
    simp only [Bool.and_eq_true, Bool.not_eq_true', decide_eq_true_eq] at hblock
    obtain ⟨hnone, hsingle⟩ := hblock
    refine fun _ => ⟨fun c hc => ?_, hsingle⟩
    exact (hcoded hnone c hc).imp_right fun hc => ⟨rfl, hc⟩
  split
  · simp [Quoting.hasEscapes]
  · simp [Quoting.hasEscapes]

/-- A character is written with a line end or a double mark at the start only if
it is one. -/
theorem exists_writeChar (block : Bool) (c : Char) :
    ∃ first tail, writeChar block c = first :: tail ∧ (first = '\n' → c = '\n') ∧
      (first = '"' → c = '"') := by
  unfold writeChar
  split
  · exact ⟨_, _, rfl, by decide, by decide⟩
  · exact ⟨_, _, rfl, by decide, by decide⟩
  · cases block <;> exact ⟨_, _, rfl, by decide, by decide⟩
  · exact ⟨_, _, rfl, by decide, by decide⟩
  · exact ⟨_, _, rfl, by decide, by decide⟩
  · exact ⟨_, _, rfl, by decide, by decide⟩
  · split
    · exact ⟨_, _, rfl, id, id⟩
    · exact ⟨_, _, rfl, fun h => absurd h (by decide), fun h => absurd h (by decide)⟩

/-- What is written with escapes starts with a line end only if the text does,
and on one line it does not start with a mark. -/
theorem exists_writeEscaped (block : Bool) (c : Char) (cs : List Char) :
    ∃ first tail, writeEscaped block 0 (c :: cs) = first :: tail ∧ (first = '\n' → c = '\n') ∧
      (block = false → first ≠ '"') := by
  rw [writeEscaped]
  by_cases hquote : c = '"'
  · subst hquote
    cases block with
    | false => exact ⟨_, _, rfl, fun h => absurd h (by decide), fun _ => by decide⟩
    | true => exact ⟨_, _, rfl, fun h => absurd h (by decide), fun h => absurd h (by decide)⟩
  · obtain ⟨first, tail, hwritten, hline, hmark⟩ := exists_writeChar block c
    rw [if_neg (by simpa using hquote), hwritten]
    exact ⟨first, _, rfl, hline, fun _ hfirst => hquote (hmark hfirst)⟩

def quotedText (q : Quoting) (cs : List Char) : List Char :=
  if q.hasEscapes then writeEscaped q.isBlock 0 cs else cs

theorem quote_append {q : Quoting} {cs : List Char} (hq : preferredQuoting cs = q)
    (rest : List Char) :
    quote cs ++ rest = q.marks ++
      ((if q.isBlock && cs.contains '\n' then ['\n'] else []) ++
        (quotedText q cs ++ (q.marks ++ rest))) := by
  simp [quote, hq, quotedText, List.append_assoc]

theorem quotedText_nil (q : Quoting) : quotedText q [] = [] := by
  unfold quotedText
  split <;> rfl

theorem quotedBody_quotedText {q : Quoting} {cs rest : List Char} (hq : preferredQuoting cs = q)
    (hrest : NoMark rest) :
    quotedBody q (.plain 0 false) (quotedText q cs ++ (q.marks ++ rest)) = some (cs, rest) := by
  unfold quotedText
  cases hescapes : q.hasEscapes with
  | true => simpa using quotedBody_writeEscaped hescapes hrest cs (Nat.zero_le q.spare)
  | false =>
      subst hq
      obtain ⟨hplain, hrun⟩ := preferredQuoting_raw hescapes
      simpa using quotedBody_raw hescapes hrest cs hplain hrun

/-- On one line, no two marks come right after the first one. -/
theorem quotedText_line_ne {q : Quoting} {cs rest : List Char} (hq : preferredQuoting cs = q)
    (hline : q.isBlock = false) (hrest : NoMark rest) (tail : List Char) :
    quotedText q cs ++ (q.marks ++ rest) ≠ q.mark :: q.mark :: tail := by
  have hmarks : q.marks = [q.mark] := by simp [Quoting.marks, hline]
  intro heq
  cases cs with
  | nil =>
      rw [quotedText_nil, hmarks] at heq
      exact hrest.head_ne_mark (List.cons.inj heq).2 q rfl
  | cons c cs =>
      cases hescapes : q.hasEscapes with
      | true =>
          obtain ⟨first, more, hwritten, -, hfirst⟩ := exists_writeEscaped q.isBlock c cs
          rw [quotedText, if_pos hescapes, hwritten] at heq
          exact hfirst hline ((List.cons.inj heq).1.trans (mark_of_hasEscapes hescapes))
      | false =>
          rw [quotedText, if_neg (by simp [hescapes])] at heq
          have hc : c = q.mark := (List.cons.inj heq).1
          subst hq
          have hrun := (preferredQuoting_raw hescapes).2
          rw [longestRun, longestRunFrom, if_pos (by simpa using hc)] at hrun
          have hlonger := Nat.le_trans (le_longestRunFrom _ _ cs) hrun
          rw [(isBlock_of_lt_spare hlonger).1] at hline
          cases hline

/-- A block without line ends does not start with one. -/
theorem quotedText_block_ne {q : Quoting} {cs rest : List Char} (hblock : q.isBlock = true)
    (hunbroken : '\n' ∉ cs) (tail : List Char) :
    quotedText q cs ++ (q.marks ++ rest) ≠ '\n' :: tail := by
  intro heq
  cases cs with
  | nil =>
      rw [quotedText_nil] at heq
      cases q <;> simp_all [Quoting.marks, Quoting.mark, Quoting.isBlock, List.replicate]
  | cons c cs =>
      have hc : '\n' ≠ c := fun h => hunbroken (h ▸ List.mem_cons_self)
      unfold quotedText at heq
      split at heq
      · obtain ⟨first, more, hwritten, hline, -⟩ := exists_writeEscaped q.isBlock c cs
        rw [hwritten] at heq
        exact hc (hline (List.cons.inj heq).1).symm
      · exact hc (List.cons.inj heq).1.symm

theorem exists_quote (cs : List Char) :
    ∃ c tail, quote cs = c :: tail ∧ (c = '"' ∨ c = '\'') := by
  unfold quote
  cases preferredQuoting cs with
  | basic | blockBasic => exact ⟨'"', _, rfl, Or.inl rfl⟩
  | literal | blockLiteral => exact ⟨'\'', _, rfl, Or.inr rfl⟩

theorem return_not_mem_writeChar (block : Bool) (c : Char) : '\r' ∉ writeChar block c := by
  have hhex : ∀ n < 16, '\r' ≠ upperHexDigit n := by decide
  unfold writeChar
  split
  · decide
  · decide
  · cases block <;> decide
  · decide
  · decide
  · decide
  · split
    · rename_i hreturn _ _
      simpa using fun h => hreturn h.symm
    · simp only [codeEscape, List.map_cons, List.map_nil, List.mem_cons, List.not_mem_nil,
        or_false, not_or]
      exact ⟨by decide, by decide, hhex _ (Nat.mod_lt _ (by decide)),
        hhex _ (Nat.mod_lt _ (by decide)), hhex _ (Nat.mod_lt _ (by decide)),
        hhex _ (Nat.mod_lt _ (by decide))⟩

theorem return_not_mem_writeEscaped (block : Bool) (run : Nat) (cs : List Char) :
    '\r' ∉ writeEscaped block run cs := by
  induction cs generalizing run with
  | nil => simp [writeEscaped]
  | cons c cs ih =>
      rw [writeEscaped]
      split
      · rename_i hquote
        obtain rfl : c = '"' := by simpa using hquote
        split
        · simpa using ih _
        · simpa using ih _
      · rw [List.mem_append, not_or]
        exact ⟨return_not_mem_writeChar block c, ih 0⟩

/-- A carriage return is always written as an escape. -/
theorem return_not_mem_quote (cs : List Char) : '\r' ∉ quote cs := by
  have hmarks : ∀ q : Quoting, '\r' ∉ q.marks := by intro q; cases q <;> decide
  have htext : '\r' ∉ quotedText (preferredQuoting cs) cs := by
    unfold quotedText
    split
    · exact return_not_mem_writeEscaped _ _ cs
    · rename_i hescapes
      intro hmem
      rcases (preferredQuoting_raw (by simpa using hescapes)).1 _ hmem with h | ⟨-, h⟩
      · exact absurd h (by decide)
      · exact absurd h (by decide)
  rw [← List.append_nil (quote cs), quote_append rfl]
  simp only [List.mem_append, not_or]
  refine ⟨hmarks _, ?_, htext, hmarks _, List.not_mem_nil⟩
  split <;> decide

/-- The quoted form of a text reads back as the text. -/
theorem readQuoted?_quote (cs : List Char) {rest : List Char} (hrest : NoMark rest) :
    readQuoted? (quote cs ++ rest) = some (cs, rest) := by
  obtain ⟨q, hq⟩ : ∃ q, preferredQuoting cs = q := ⟨_, rfl⟩
  have hbody := quotedBody_quotedText hq hrest
  have hopen : openQuotes? (quote cs ++ rest) =
      some (q, quotedText q cs ++ (q.marks ++ rest)) := by
    rw [quote_append hq]
    cases hblock : q.isBlock with
    | false =>
        exact openQuotes?_line hblock (quotedText_line_ne hq hblock hrest)
    | true =>
        obtain ⟨hbroken, hwhole⟩ := openQuotes?_block hblock (quotedText q cs ++ (q.marks ++ rest))
        split
        · exact hbroken
        · rename_i hnone
          have hunbroken : '\n' ∉ cs := by simpa using hnone
          exact hwhole (quotedText_block_ne hblock hunbroken)
  rw [readQuoted?, hopen]
  exact hbody

end WebAudit.Toml
