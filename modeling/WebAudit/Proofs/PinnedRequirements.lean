import WebAudit.Dependency.Requirements
import WebAudit.Proofs.TextCuts

/-!
Which requirements are looked up. A requirement is what a line holds before a
comment and a marker. It is looked up when two equals signs stand in it with
something before and something behind them, up to a bracket and up to a comma.
Every requirement of the form `name[extras]==version` is looked up under this
name and version. Others are looked up too: those in whose name or version marks
or blanks are left, and those that go on behind the version or have no closed
bracket. They are exactly the ones for which it is wrong that only pins are looked
up.
-/

namespace WebAudit

namespace Text

def markRanges : List (Nat × Nat) :=
  [(9, 13), (32, 33), (35, 35), (44, 44), (59, 62), (91, 91), (126, 126), (0x85, 0x85),
    (0xA0, 0xA0), (0x1680, 0x1680), (0x2000, 0x200A), (0x2028, 0x2029), (0x202F, 0x202F),
    (0x205F, 0x205F), (0x3000, 0x3000)]

def IsMark (c : Char) : Prop := isBlank c = true ∨ c ∈ "<>=!~,;#[".toList

instance : DecidablePred IsMark := fun _ => inferInstanceAs (Decidable (_ ∨ _))

theorem IsMark.exists_range {c : Char} (hmark : IsMark c) :
    ∃ r ∈ markRanges, r.1 ≤ c.toNat ∧ c.toNat ≤ r.2 := by
  rcases hmark with hblank | hmem
  · simp only [isBlank, Bool.or_eq_true, Bool.and_eq_true, decide_eq_true_eq, beq_iff_eq]
      at hblank
    simp only [markRanges, List.mem_cons, List.not_mem_nil, or_false, exists_eq_or_imp,
      exists_eq_left]
    omega
  · have hall : "<>=!~,;#[".toList.all (fun c => markRanges.any fun r =>
        decide (r.1 ≤ c.toNat ∧ c.toNat ≤ r.2)) = true := by
      decide
    simpa only [List.any_eq_true, decide_eq_true_eq] using List.all_eq_true.mp hall c hmem

/-- No range of small letters meets a blank or a mark. -/
theorem lowerRanges_clear : ∀ r ∈ lowerRanges, ∀ b ∈ markRanges,
    (r.2.1 : Int) + r.2.2.2 < b.1 ∨ (b.2 : Int) < r.1 + r.2.2.2 := by
  decide +kernel

theorem toNat_ofNat_cases (n : Nat) : (Char.ofNat n).toNat = n ∨ (Char.ofNat n).toNat = 0 := by
  by_cases hvalid : n.isValidChar
  · have hchar : Char.ofNat n = Char.ofNatAux n hvalid := dif_pos hvalid
    rw [hchar]
    exact .inl rfl
  · have hchar : Char.ofNat n = Char.ofNat 0 := dif_neg hvalid
    rw [hchar]
    exact .inr rfl

theorem toLower_eq_of_isMark {c : Char} (hmark : IsMark c.toLower) : c.toLower = c := by
  rcases toLower_cases c with hsame | hletter
  · exact hsame
  · obtain ⟨b, hb, hlow, hhigh⟩ := hmark.exists_range
    have hletters : ∀ b ∈ markRanges, b.2 < 97 ∨ 122 < b.1 := by decide
    have hclear := hletters b hb
    omega

theorem lowerChar_eq_of_isMark {c : Char} (hmark : IsMark (lowerChar c)) : lowerChar c = c := by
  unfold lowerChar at hmark ⊢
  dsimp only at hmark ⊢
  split at hmark
  · rename_i hascii
    rw [if_pos hascii]
    exact toLower_eq_of_isMark hmark
  · rename_i hwide
    rw [if_neg hwide]
    split at hmark
    · rename_i low high step delta hfind
      have hmem := List.mem_of_find?_eq_some hfind
      have hrange := List.find?_some hfind
      simp only [Bool.and_eq_true, decide_eq_true_eq, beq_iff_eq] at hrange
      obtain ⟨b, hb, hlow, hhigh⟩ := hmark.exists_range
      have hclear := lowerRanges_clear _ hmem b hb
      have hzero : ∀ b ∈ markRanges, 0 < b.1 := by decide
      have hpositive := hzero b hb
      -- the code of the small letter is in its range, or zero if there is no such character
      have hcode := toNat_ofNat_cases ((c.toNat : Int) + delta).toNat
      dsimp only at hclear
      omega
    · rfl

theorem mem_of_mem_lowerFrom {c : Char} (hmark : IsMark c) {before cs : List Char}
    (hc : c ∈ lowerFrom before cs) : c ∈ cs := by
  induction cs generalizing before with
  | nil => simp [lowerFrom] at hc
  | cons d rest ih =>
      rw [lowerFrom, List.mem_append] at hc
      rcases hc with himage | hrest
      · have hall : ['i', Char.ofNat 0x307, Char.ofNat 0x3C2, Char.ofNat 0x3C3].all
            (fun c => !decide (IsMark c)) = true := by
          decide
        have hspecial : ∀ c ∈ ['i', Char.ofNat 0x307, Char.ofNat 0x3C2, Char.ofNat 0x3C3],
            ¬IsMark c := by
          intro c hc
          simpa using List.all_eq_true.mp hall c hc
        split at himage
        · exact absurd hmark (hspecial c (List.mem_of_mem_take (i := 2) himage))
        · split at himage
          · refine absurd hmark (hspecial c (List.mem_of_mem_drop (i := 2) ?_))
            rw [List.mem_singleton] at himage
            subst himage
            split <;> simp
          · rw [List.mem_singleton] at himage
            subst himage
            rw [lowerChar_eq_of_isMark hmark]
            exact List.mem_cons_self
      · exact List.mem_cons_of_mem d (ih hrest)

theorem lower_ne_nil {cs : List Char} (hcs : cs ≠ []) : lower cs ≠ [] := by
  cases cs with
  | nil => exact absurd rfl hcs
  | cons c rest =>
      rw [lower, lowerFrom]
      intro hnil
      have himage := (List.append_eq_nil_iff.mp hnil).1
      repeat' split at himage
      all_goals cases himage

end Text

namespace Requirements

open Text

def requirement (line : List Char) : List Char :=
  trim ((line.takeWhile (· != '#')).takeWhile (· != ';'))

def nameOf (before : List Char) : List Char := trim (before.takeWhile (· != '['))

def extrasOf (before : List Char) : List Char := trim (before.dropWhile (· != '['))

def versionOf (rest : List Char) : List Char := trim (rest.takeWhile (· != ','))

structure IsToken (marks : String) (cs : List Char) : Prop where
  ne_nil : cs ≠ []
  clear : ∀ c ∈ cs, isBlank c = false ∧ c ∉ marks.toList

def IsExtras (cs : List Char) : Prop :=
  cs = [] ∨ ∃ words, cs = '[' :: (words ++ [']']) ∧ ∀ c ∈ words, c ∉ "[]=".toList

structure IsPin (text name version : List Char) : Prop where
  name_isToken : IsToken "<>=!~,;#[" name
  version_isToken : IsToken "=,;#" version
  written : ∃ gap extras gap' gap'', Blank gap ∧ IsExtras extras ∧ Blank gap' ∧ Blank gap'' ∧
    text = name ++ gap ++ extras ++ gap' ++ "==".toList ++ (gap'' ++ version)

/-- The dependency that is looked up under a name and a version. -/
def pinned (manifest : Path) (name version : List Char) : Dependency where
  name := String.ofList (lower name)
  version := String.ofList version
  ecosystem := .pypi
  manifest := manifest
  isDev := false
  unsupported := false

/-- How a requirement with two equals signs may be no pin, given what stands
before and behind them. -/
inductive Strays (before rest : List Char) : Prop
  | inName (c : Char) : c ∈ nameOf before → isBlank c = true ∨ c ∈ "<>=!~,".toList →
      Strays before rest
  | inExtras : ¬IsExtras (extrasOf before) → Strays before rest
  | inVersion (c : Char) : c ∈ versionOf rest → isBlank c = true ∨ c = '=' → Strays before rest
  | behindVersion : ',' ∈ rest → Strays before rest

section Line

variable {manifest : Path} {line : List Char} {d : Dependency}

theorem requirement_eq (line : List Char) :
    trim ((trim (line.takeWhile (· != '#'))).takeWhile (· != ';')) = requirement line :=
  trim_cut_trim (by decide) _

/-- Whether a line holds no requirement: it is empty but for a comment, or it
starts as an option, an address or a path does. -/
def isPassedOver (line : List Char) : Bool :=
  let body := trim (line.takeWhile (· != '#'))
  body.isEmpty || skippedStarts.any fun s => startsWith s.toList body

theorem split_some {text before rest : List Char}
    (hsplit : splitAt? "==".toList text = some (before, rest)) :
    split text = (trim before, versionOf rest, (versionOf rest).isEmpty) := by
  simp only [split, hsplit, versionOf]

theorem split_none {text : List Char} (hsplit : splitAt? "==".toList text = none) :
    split text = (trim (text.takeWhile fun c => !isSpecifierStart c),
      trim (text.dropWhile fun c => !isSpecifierStart c), true) := by
  simp only [split, hsplit]

theorem parseLine?_passedOver (hpassed : isPassedOver line = true) :
    parseLine? manifest line = none :=
  if_pos hpassed

/-- What a line declares, told by the parts of its requirement. -/
theorem parseLine?_eq (hpassed : isPassedOver line = false) :
    parseLine? manifest line =
      if (nameOf (split (requirement line)).1).isEmpty then none
      else
        some
          { name := String.ofList (lower (nameOf (split (requirement line)).1))
            version :=
              if (split (requirement line)).2.1.isEmpty then "*"
              else String.ofList (split (requirement line)).2.1
            ecosystem := .pypi
            manifest := manifest
            isDev := false
            unsupported := (split (requirement line)).2.2 } := by
  rw [← requirement_eq]
  exact if_neg (Bool.eq_false_iff.mp hpassed)

/-- A requirement is looked up when two equals signs stand in it with something
before and behind them. -/
theorem supported_iff :
    parseLine? manifest line = some d ∧ d.unsupported = false ↔
      isPassedOver line = false ∧ ∃ before rest,
        splitAt? "==".toList (requirement line) = some (before, rest) ∧
        nameOf before ≠ [] ∧ versionOf rest ≠ [] ∧
        d = pinned manifest (nameOf before) (versionOf rest) := by
  cases hpassed : isPassedOver line with
  | true => simp [parseLine?_passedOver hpassed]
  | false =>
      rw [parseLine?_eq hpassed]
      cases hsplit : splitAt? "==".toList (requirement line) with
      | none =>
          rw [split_none hsplit]
          constructor
          · rintro ⟨hd, hsupported⟩
            split at hd
            · cases hd
            · obtain rfl := Option.some.inj hd
              cases hsupported
          · rintro ⟨-, before, rest, hsplit', -⟩
            cases hsplit'
      | some parts =>
          obtain ⟨before, rest⟩ := parts
          have hname : nameOf (trim before) = nameOf before := trim_cut_trim (by decide) before
          rw [split_some hsplit]
          simp only [hname]
          constructor
          · rintro ⟨hd, hsupported⟩
            split at hd
            · cases hd
            · rename_i hne
              obtain rfl := Option.some.inj hd
              have hversion : (versionOf rest).isEmpty = false := hsupported
              refine ⟨trivial, before, rest, rfl, by simpa using hne, by simpa using hversion, ?_⟩
              simp [pinned, hversion]
          · rintro ⟨-, before', rest', hsplit', hne, hversion, rfl⟩
            cases hsplit'
            have hversion : (versionOf rest).isEmpty = false := by simpa using hversion
            refine ⟨?_, rfl⟩
            rw [if_neg (by simpa using hne)]
            simp [pinned, hversion]

theorem requirement_trimmed (line : List Char) : Trimmed (requirement line) := trim_trimmed _

theorem requirement_clear {c : Char} (hc : c ∈ requirement line) : c ≠ '#' ∧ c ≠ ';' := by
  have hcut := mem_of_mem_trim hc
  have hline := (List.takeWhile_sublist _).subset hcut
  constructor
  · rintro rfl
    exact mark_not_mem_cut hline
  · rintro rfl
    exact mark_not_mem_cut hcut

end Line

section Form

variable {text name version before rest : List Char}

theorem nameMarks_eq : "<>=!~,;#[".toList = "<>=!~,".toList ++ ";#[".toList := rfl

theorem IsToken.trimmed {marks : String} {cs : List Char} (htoken : IsToken marks cs) :
    Trimmed cs :=
  trimmed_of_forall fun c hc => (htoken.clear c hc).1

theorem IsToken.not_mem {marks : String} {cs : List Char} (htoken : IsToken marks cs) {c : Char}
    (hc : c ∈ marks.toList) : c ∉ cs := fun hmem => (htoken.clear c hmem).2 hc

theorem IsExtras.equals_not_mem {cs : List Char} (hextras : IsExtras cs) : '=' ∉ cs := by
  rcases hextras with rfl | ⟨words, rfl, hwords⟩
  · exact List.not_mem_nil
  · have hclear : '=' ∉ words := fun hmem => hwords '=' hmem (by decide)
    simp [hclear]

theorem bracketed_trimmed (words : List Char) : Trimmed ('[' :: (words ++ [']'])) := by
  refine ⟨?_, ?_⟩
  · rintro c ⟨⟩
    rfl
  · intro c hc
    rw [← List.cons_append, List.getLast?_append] at hc
    cases hc
    rfl

/-- A name and its extras are what the cuts at a bracket leave. -/
theorem parts_of_form (hname : IsToken "<>=!~,;#[" name) {gap extras gap' : List Char}
    (hgap : Blank gap) (hextras : IsExtras extras) (hgap' : Blank gap') :
    nameOf (name ++ gap ++ extras ++ gap') = name ∧
      extrasOf (name ++ gap ++ extras ++ gap') = extras := by
  have hbracket : '[' ∉ name ++ gap := by
    rw [List.mem_append, not_or]
    exact ⟨hname.not_mem (by decide), hgap.not_mem (by decide)⟩
  rcases hextras with rfl | ⟨words, rfl, -⟩
  · have hnone : '[' ∉ name ++ gap ++ gap' := by
      rw [List.mem_append, not_or]
      exact ⟨hbracket, hgap'.not_mem (by decide)⟩
    have hdrop : (name ++ gap ++ gap').dropWhile (· != '[') = [] := by
      apply List.dropWhile_eq_nil_iff.mpr
      intro c hc
      simpa using ne_of_mem_of_not_mem hc hnone
    rw [List.append_nil, nameOf, extrasOf, cut_of_not_mem hnone, hdrop, trim_append_blank hgap',
      trim_append_blank hgap, hname.trimmed.trim_eq]
    exact ⟨rfl, rfl⟩
  · rw [List.append_assoc, List.cons_append, nameOf, extrasOf, cut_mark hbracket,
      drop_mark hbracket, trim_append_blank hgap, hname.trimmed.trim_eq, ← List.cons_append,
      trim_append_blank hgap', (bracketed_trimmed words).trim_eq]
    exact ⟨rfl, rfl⟩

theorem versionOf_append {marks : String} (hversion : IsToken marks version)
    (hmark : ',' ∈ marks.toList) {gap : List Char} (hgap : Blank gap) :
    versionOf (gap ++ version) = version := by
  have hcomma : ',' ∉ gap ++ version := by
    rw [List.mem_append, not_or]
    exact ⟨hgap.not_mem (by decide), hversion.not_mem hmark⟩
  rw [versionOf, cut_of_not_mem hcomma, trim_blank_append hgap, hversion.trimmed.trim_eq]

/-- A pin is cut into its parts. -/
theorem IsPin.exists_split (hpin : IsPin text name version) :
    ∃ before rest, splitAt? "==".toList text = some (before, rest) ∧ nameOf before = name ∧
      IsExtras (extrasOf before) ∧ versionOf rest = version ∧ ',' ∉ rest := by
  obtain ⟨hname, hversion, gap, extras, gap', gap'', hgap, hextras, hgap', hgap'', rfl⟩ := hpin
  have hequals : '=' ∉ name ++ gap ++ extras ++ gap' := by
    simp only [List.mem_append, not_or]
    exact ⟨⟨⟨hname.not_mem (by decide), hgap.not_mem (by decide)⟩, hextras.equals_not_mem⟩,
      hgap'.not_mem (by decide)⟩
  obtain ⟨hnameOf, hextrasOf⟩ := parts_of_form hname hgap hextras hgap'
  refine ⟨_, _, splitAt?_append hequals _, hnameOf, by rwa [hextrasOf],
    versionOf_append hversion (by decide) hgap'', ?_⟩
  rw [List.mem_append, not_or]
  exact ⟨hgap''.not_mem (by decide), hversion.not_mem (by decide)⟩

theorem IsPin.not_strays (hpin : IsPin text name version)
    (hsplit : splitAt? "==".toList text = some (before, rest)) : ¬Strays before rest := by
  obtain ⟨before', rest', hsplit', rfl, hextras, rfl, hcomma⟩ := hpin.exists_split
  obtain ⟨rfl, rfl⟩ := Prod.mk.inj (Option.some.inj (hsplit.symm.trans hsplit'))
  intro hstrays
  cases hstrays with
  | inName c hc hbad =>
      obtain ⟨hblank, hmark⟩ := hpin.name_isToken.clear c hc
      rcases hbad with hbad | hbad
      · rw [hbad] at hblank
        cases hblank
      · rw [nameMarks_eq, List.mem_append, not_or] at hmark
        exact hmark.1 hbad
  | inExtras hbad => exact hbad hextras
  | inVersion c hc hbad =>
      obtain ⟨hblank, hmark⟩ := hpin.version_isToken.clear c hc
      rcases hbad with hbad | rfl
      · rw [hbad] at hblank
        cases hblank
      · exact hmark (by decide)
  | behindVersion hbad => exact hcomma hbad

theorem nameOf_clear (hsplit : splitAt? "==".toList text = some (before, rest))
    (hclear : ∀ c ∈ text, c ≠ '#' ∧ c ≠ ';') : ∀ c ∈ nameOf before, c ∉ ";#[".toList := by
  intro c hc
  have hcut := mem_of_mem_trim hc
  have hbracket : c ≠ '[' := by
    rintro rfl
    exact mark_not_mem_cut hcut
  have htext : c ∈ text := by
    rw [eq_of_splitAt? hsplit, List.append_assoc]
    exact List.mem_append_left _ ((List.takeWhile_sublist _).subset hcut)
  obtain ⟨hhash, hsemicolon⟩ := hclear c htext
  have hmarks : ";#[".toList = [';', '#', '['] := rfl
  simp [hmarks, hsemicolon, hhash, hbracket]

theorem versionOf_clear (hsplit : splitAt? "==".toList text = some (before, rest))
    (hclear : ∀ c ∈ text, c ≠ '#' ∧ c ≠ ';') : ∀ c ∈ versionOf rest, c ∉ ",;#".toList := by
  intro c hc
  have hcut := mem_of_mem_trim hc
  have hcomma : c ≠ ',' := by
    rintro rfl
    exact mark_not_mem_cut hcut
  have htext : c ∈ text := by
    rw [eq_of_splitAt? hsplit]
    exact List.mem_append_right _ ((List.takeWhile_sublist _).subset hcut)
  obtain ⟨hhash, hsemicolon⟩ := hclear c htext
  have hmarks : ",;#".toList = [',', ';', '#'] := rfl
  simp [hmarks, hcomma, hsemicolon, hhash]

/-- What does not stray is a pin. -/
theorem isPin_of_not_strays (htrimmed : Trimmed text)
    (hclear : ∀ c ∈ text, c ≠ '#' ∧ c ≠ ';')
    (hsplit : splitAt? "==".toList text = some (before, rest)) (hname : nameOf before ≠ [])
    (hversion : versionOf rest ≠ []) (hstrays : ¬Strays before rest) :
    IsPin text (nameOf before) (versionOf rest) := by
  have hcomma : ',' ∉ rest := fun hmem => hstrays (.behindVersion hmem)
  have hextras : IsExtras (extrasOf before) := by
    by_contra hbad
    exact hstrays (.inExtras hbad)
  obtain ⟨lead, gap, hlead, hgap, hnameCut⟩ := exists_trim (before.takeWhile (· != '['))
  obtain ⟨lead', gap', hlead', hgap', hextrasCut⟩ := exists_trim (before.dropWhile (· != '['))
  obtain ⟨gap'', tail, hgap'', htail, hrest⟩ := exists_trim (rest.takeWhile (· != ','))
  change _ = lead ++ nameOf before ++ gap at hnameCut
  change _ = lead' ++ extrasOf before ++ gap' at hextrasCut
  change _ = gap'' ++ versionOf rest ++ tail at hrest
  rw [cut_of_not_mem hcomma] at hrest
  have hbefore : before = (lead ++ nameOf before ++ gap) ++ (lead' ++ extrasOf before ++ gap') := by
    rw [← hnameCut, ← hextrasCut, List.takeWhile_append_dropWhile]
  have htext : text = before ++ "==".toList ++ rest := eq_of_splitAt? hsplit
  -- the outer blanks are those of the text, which has none, and a bracket is no blank
  obtain rfl : lead = [] := by
    have hstart : lead <+: before.takeWhile (· != '[') :=
      ⟨nameOf before ++ gap, by rw [hnameCut, List.append_assoc]⟩
    have hfirst : before <+: text := ⟨_, by rw [htext, List.append_assoc]⟩
    have hcut : before.takeWhile (· != '[') <+: before := List.takeWhile_prefix _
    exact htrimmed.lead_eq_nil hlead ((hstart.trans hcut).trans hfirst)
  obtain rfl : tail = [] := by
    have hend : tail <:+ rest := ⟨_, hrest.symm⟩
    have hlast : rest <:+ text := ⟨_, htext.symm⟩
    exact htrimmed.tail_eq_nil htail (hend.trans hlast)
  obtain rfl : lead' = [] := by
    cases lead' with
    | nil => rfl
    | cons c more =>
        have hhead : c ∈ (before.dropWhile (· != '[')).head? := by
          rw [hextrasCut]
          rfl
        have hbracket : c = '[' := by simpa using head_dropWhile hhead
        have hblank := hlead' c List.mem_cons_self
        rw [hbracket] at hblank
        cases hblank
  refine ⟨⟨hname, ?_⟩, ⟨hversion, ?_⟩, gap, extrasOf before, gap', gap'', hgap, hextras, hgap',
    hgap'', ?_⟩
  · intro c hc
    refine ⟨?_, ?_⟩
    · by_contra hblank
      exact hstrays (.inName c hc (.inl (by simpa using hblank)))
    · have hmarks : c ∉ "<>=!~,".toList := fun hmark => hstrays (.inName c hc (.inr hmark))
      rw [nameMarks_eq, List.mem_append, not_or]
      exact ⟨hmarks, nameOf_clear hsplit hclear c hc⟩
  · intro c hc
    refine ⟨?_, ?_⟩
    · by_contra hblank
      exact hstrays (.inVersion c hc (.inl (by simpa using hblank)))
    · have hequals : c ≠ '=' := fun hequals => hstrays (.inVersion c hc (.inr hequals))
      have hall : "=,;#".toList = '=' :: ",;#".toList := rfl
      rw [hall, List.mem_cons, not_or]
      exact ⟨hequals, versionOf_clear hsplit hclear c hc⟩
  · have hbehind : gap'' ++ versionOf rest = rest := by
      rw [List.append_nil] at hrest
      exact hrest.symm
    have hahead : nameOf before ++ gap ++ extrasOf before ++ gap' = before := by
      rw [List.nil_append, List.nil_append, ← List.append_assoc] at hbefore
      exact hbefore.symm
    rw [hbehind, hahead]
    exact htext

/-- A requirement that is looked up is a pin exactly when it does not stray. -/
theorem isPin_iff_not_strays {line : List Char}
    (hsplit : splitAt? "==".toList (requirement line) = some (before, rest))
    (hname : nameOf before ≠ []) (hversion : versionOf rest ≠ []) :
    IsPin (requirement line) (nameOf before) (versionOf rest) ↔ ¬Strays before rest :=
  ⟨fun hpin => hpin.not_strays hsplit,
    isPin_of_not_strays (requirement_trimmed line) (fun _ hc => requirement_clear hc) hsplit hname
      hversion⟩

theorem IsToken.lower (hname : IsToken "<>=!~,;#[" name) : IsToken "<>=!~,;#[" (lower name) := by
  refine ⟨lower_ne_nil hname.ne_nil, ?_⟩
  intro c hc
  by_contra hbad
  have hmark : IsMark c := by
    rw [not_and_or, Bool.not_eq_false, not_not] at hbad
    exact hbad
  have hclear := hname.clear c (mem_of_mem_lowerFrom hmark hc)
  exact hbad hclear

end Form

section Document

variable (content : String) (manifest : Path)

/-- Only pins are looked up: each line whose dependency is supported is of the
form `name[extras]==version`, with the name, but for case, and the version of the
dependency. -/
def OnlyPins : Prop :=
  ∀ line ∈ lines content.toList, ∀ d, parseLine? manifest line = some d → d.unsupported = false →
    IsToken "<>=!~,;#[" d.name.toList ∧ IsToken "=,;#" d.version.toList ∧
      ∃ name, d.name = String.ofList (lower name) ∧ IsPin (requirement line) name d.version.toList

theorem parseLine?_of_isPin {line name version : List Char} (hpassed : isPassedOver line = false)
    (hpin : IsPin (requirement line) name version) :
    parseLine? manifest line = some (pinned manifest name version) := by
  obtain ⟨before, rest, hsplit, rfl, -, rfl, -⟩ := hpin.exists_split
  have hsupported : parseLine? manifest line = some (pinned manifest _ _) ∧ _ :=
    supported_iff.mpr ⟨hpassed, before, rest, hsplit, hpin.name_isToken.ne_nil,
      hpin.version_isToken.ne_nil, rfl⟩
  exact hsupported.1

/-- The cuts keep their own marks out of whatever is looked up. -/
theorem clear_of_supported {line : List Char} {d : Dependency}
    (hd : parseLine? manifest line = some d) (hsupported : d.unsupported = false) :
    (d.name.toList ≠ [] ∧ ∀ c ∈ d.name.toList, c ∉ ";#[".toList) ∧
      d.version.toList ≠ [] ∧ ∀ c ∈ d.version.toList, c ∉ ",;#".toList := by
  obtain ⟨-, before, rest, hsplit, hname, hversion, rfl⟩ := supported_iff.mp ⟨hd, hsupported⟩
  have hclear : ∀ c ∈ requirement line, c ≠ '#' ∧ c ≠ ';' := fun _ hc => requirement_clear hc
  simp only [pinned, String.toList_ofList]
  refine ⟨⟨lower_ne_nil hname, ?_⟩, hversion, versionOf_clear hsplit hclear⟩
  intro c hc hmark
  have hlisted : c ∈ "<>=!~,;#[".toList := by
    rw [nameMarks_eq]
    exact List.mem_append_right _ hmark
  have hmem := mem_of_mem_lowerFrom (.inr hlisted) hc
  exact nameOf_clear hsplit hclear c hmem hmark

theorem onlyPins_iff :
    OnlyPins content manifest ↔
      ∀ line ∈ lines content.toList, isPassedOver line = false →
        ∀ before rest, splitAt? "==".toList (requirement line) = some (before, rest) →
          nameOf before ≠ [] → versionOf rest ≠ [] → ¬Strays before rest := by
  constructor
  · intro honly line hline hpassed before rest hsplit hname hversion
    obtain ⟨hd, hsupported⟩ :=
      supported_iff.mpr ⟨hpassed, before, rest, hsplit, hname, hversion, rfl⟩
    obtain ⟨-, -, name, -, hpin⟩ := honly line hline _ hd hsupported
    exact hpin.not_strays hsplit
  · intro hnone line hline d hd hsupported
    obtain ⟨hpassed, before, rest, hsplit, hname, hversion, rfl⟩ :=
      supported_iff.mp ⟨hd, hsupported⟩
    have hpin := (isPin_iff_not_strays hsplit hname hversion).mpr
      (hnone line hline hpassed before rest hsplit hname hversion)
    simp only [pinned, String.toList_ofList]
    exact ⟨hpin.name_isToken.lower, hpin.version_isToken, nameOf before, rfl, hpin⟩

/-- Whatever is looked up has a name and a version without the marks that the
text is cut at. A pin is looked up under its name and its version. Nothing else is
looked up exactly when no requirement with two equals signs strays from the form of
a pin. -/
theorem lookups_exact :
    (∀ d ∈ parse content manifest, d.unsupported = false →
      (d.name.toList ≠ [] ∧ ∀ c ∈ d.name.toList, c ∉ ";#[".toList) ∧
        d.version.toList ≠ [] ∧ ∀ c ∈ d.version.toList, c ∉ ",;#".toList) ∧
    (∀ line ∈ lines content.toList, isPassedOver line = false →
      ∀ name version, IsPin (requirement line) name version →
        parseLine? manifest line = some (pinned manifest name version)) ∧
    (OnlyPins content manifest ↔
      ∀ line ∈ lines content.toList, isPassedOver line = false →
        ∀ before rest, splitAt? "==".toList (requirement line) = some (before, rest) →
          nameOf before ≠ [] → versionOf rest ≠ [] → ¬Strays before rest) := by
  refine ⟨?_, ?_, onlyPins_iff content manifest⟩
  · intro d hd hsupported
    obtain ⟨line, -, hline⟩ := List.mem_filterMap.mp hd
    exact clear_of_supported manifest hline hsupported
  · intro line _ hpassed name version hpin
    exact parseLine?_of_isPin manifest hpassed hpin

end Document

/-- Of a range that ends in two equals signs, the first bound stays in the name. -/
theorem range_looked_up_as_name : ¬OnlyPins "flask>=2.0,==2.1\n" ⟨"requirements.txt"⟩ := by
  intro honly
  have hline : "flask>=2.0,==2.1".toList ∈ lines "flask>=2.0,==2.1\n".toList := by decide +kernel
  have hparse : parseLine? ⟨"requirements.txt"⟩ "flask>=2.0,==2.1".toList =
      some ⟨"flask>=2.0,", "2.1", .pypi, ⟨"requirements.txt"⟩, false, false⟩ := by
    decide +kernel
  obtain ⟨hname, -, -⟩ := honly _ hline _ hparse rfl
  exact hname.not_mem (c := '>') (by decide) (by decide)

end Requirements

end WebAudit
