import WebAudit.Proofs.PinnedRequirements

/-!
Written requirement lists. A list is written line by line: pins, names without a
version, empty lines and comments, and lines that hold no requirement, with
extras, markers, comments and blanks wherever they may stand. Reading such a list
gives its pins in their order, and a name without a version as a requirement that
is not looked up. Neither an extra nor a marker gets into a name or a version.
-/

namespace WebAudit

namespace Text

theorem lowerFrom_eq_lowerAscii {cs : List Char} (hcs : ∀ c ∈ cs, c.toNat < 0x80)
    (before : List Char) : lowerFrom before cs = lowerAscii cs := by
  induction cs generalizing before with
  | nil => rfl
  | cons c rest ih =>
      have hc := hcs c List.mem_cons_self
      have hdot : (c.toNat == 0x130) = false := by
        rw [beq_eq_false_iff_ne]
        omega
      have hsigma : (c.toNat == 0x3A3) = false := by
        rw [beq_eq_false_iff_ne]
        omega
      have hchar : lowerChar c = c.toLower := if_pos hc
      rw [lowerFrom, ih fun c h => hcs c (List.mem_cons_of_mem _ h)]
      simp only [hdot, hsigma, hchar, lowerAscii, List.map_cons]
      rfl

theorem isUpper_or_toLower_eq (c : Char) : c.isUpper = true ∨ c.toLower = c := by
  unfold Char.toLower
  split
  · rename_i hupper
    left
    exact decide_eq_true hupper
  · exact .inr rfl

end Text

namespace Requirements

open Text

def isWordChar (c : Char) : Bool := c.isAlphanum || c == '.' || c == '_' || c == '-'

structure Gap where
  text : List Char
  blank : Blank text
  unbroken : '\n' ∉ text

structure Free (marks : String) where
  text : List Char
  clear : ∀ c ∈ marks.toList, c ∉ text

structure Name where
  text : List Char
  start : ∃ c ∈ text.head?, c.isAlphanum = true
  chars : ∀ c ∈ text, isWordChar c = true ∧ c.isUpper = false

structure Version where
  text : List Char
  isToken : IsToken ",;#" text
  start : text.head? ≠ some '='

structure Extra where
  before : Gap
  word : List Char
  ne_nil : word ≠ []
  chars : ∀ c ∈ word, isWordChar c = true
  behind : Gap

structure Title where
  lead : Gap
  name : Name
  written : List Char
  lowered : lowerAscii written = name.text
  gap : Gap
  extras : Option (List Extra)
  behind : Gap

structure Ending where
  gap : Gap
  marker : Option (Free "\n#")
  comment : Option (Free "\n")

inductive Line where
  | pin (title : Title) (gap : Gap) (version : Version) (ending : Ending)
  | bare (title : Title) (ending : Ending)
  | empty (gap : Gap) (comment : Option (Free "\n"))
  | other (gap : Gap) (start : String) (rest : Free "\n")
      (known : start ∈ ["-", "/", ".", "http://", "https://"])

def Extra.render (extra : Extra) : List Char :=
  extra.before.text ++ extra.word ++ extra.behind.text

def brackets : Option (List Extra) → List Char
  | none => []
  | some extras => '[' :: ([','].intercalate (extras.map Extra.render) ++ [']'])

def Title.text (title : Title) : List Char :=
  title.written ++ title.gap.text ++ brackets title.extras ++ title.behind.text

def marked {marks : String} (mark : Char) : Option (Free marks) → List Char
  | none => []
  | some free => mark :: free.text

def Ending.render (ending : Ending) : List Char :=
  ending.gap.text ++ marked ';' ending.marker ++ marked '#' ending.comment

def pinText (title : Title) (gap : Gap) (version : Version) : List Char :=
  title.text ++ "==".toList ++ (gap.text ++ version.text)

def Line.render : Line → List Char
  | .pin title gap version ending =>
      title.lead.text ++ pinText title gap version ++ ending.render
  | .bare title ending => title.lead.text ++ title.text ++ ending.render
  | .empty gap comment => gap.text ++ marked '#' comment
  | .other gap start rest _ => gap.text ++ (start.toList ++ rest.text)

/-- The dependency that a line stands for. -/
def Line.dependency? (manifest : Path) : Line → Option Dependency
  | .pin title _ version _ =>
      some
        { name := String.ofList title.name.text
          version := String.ofList version.text
          ecosystem := .pypi
          manifest := manifest
          isDev := false
          unsupported := false }
  | .bare title _ =>
      some
        { name := String.ofList title.name.text
          version := "*"
          ecosystem := .pypi
          manifest := manifest
          isDev := false
          unsupported := true }
  | .empty .. => none
  | .other .. => none

section Words

variable {c : Char}

theorem isWordChar_code (hc : isWordChar c = true) :
    48 ≤ c.toNat ∧ c.toNat ≤ 57 ∨ 65 ≤ c.toNat ∧ c.toNat ≤ 90 ∨ 97 ≤ c.toNat ∧ c.toNat ≤ 122 ∨
      c.toNat = 45 ∨ c.toNat = 46 ∨ c.toNat = 95 := by
  simp only [isWordChar, Bool.or_eq_true, beq_iff_eq] at hc
  rcases hc with ((halnum | rfl) | rfl) | rfl
  · have hcode := isAlphanum_code halnum
    omega
  · decide
  · decide
  · decide

theorem not_isMark_of_isWordChar (hc : isWordChar c = true) : ¬IsMark c := by
  intro hmark
  obtain ⟨r, hr, hlow, hhigh⟩ := hmark.exists_range
  have hcode := isWordChar_code hc
  have hclear : ∀ r ∈ markRanges, (r.2 < 45 ∨ 46 < r.1) ∧ (r.2 < 48 ∨ 57 < r.1) ∧
      (r.2 < 65 ∨ 90 < r.1) ∧ (r.2 < 95 ∨ 95 < r.1) ∧ (r.2 < 97 ∨ 122 < r.1) := by
    decide
  have hrange := hclear r hr
  omega

theorem isToken_of_isWordChar {word : List Char} (hne : word ≠ [])
    (hword : ∀ c ∈ word, isWordChar c = true) : IsToken "<>=!~,;#[" word := by
  refine ⟨hne, ?_⟩
  intro c hc
  have hmark := not_isMark_of_isWordChar (hword c hc)
  rw [IsMark, not_or, Bool.not_eq_true] at hmark
  exact hmark

theorem isAlphanum_of_isUpper (hc : c.isUpper = true) : c.isAlphanum = true := by
  have halpha : c.isAlpha = true := Bool.or_eq_true_iff.mpr (.inl hc)
  exact Bool.or_eq_true_iff.mpr (.inl halpha)

theorem isWordChar_of_toLower (hc : isWordChar c.toLower = true) : isWordChar c = true := by
  rcases isUpper_or_toLower_eq c with hupper | hsame
  · simp [isWordChar, isAlphanum_of_isUpper hupper]
  · rwa [hsame] at hc

theorem isAlphanum_of_toLower (hc : c.toLower.isAlphanum = true) : c.isAlphanum = true := by
  rcases isUpper_or_toLower_eq c with hupper | hsame
  · exact isAlphanum_of_isUpper hupper
  · rwa [hsame] at hc

end Words

section Title

variable (title : Title)

theorem Title.written_isWordChar : ∀ c ∈ title.written, isWordChar c = true := by
  intro c hc
  have hlower : c.toLower ∈ title.name.text := by
    rw [← title.lowered]
    exact List.mem_map_of_mem hc
  exact isWordChar_of_toLower (title.name.chars _ hlower).1

theorem Title.written_start : ∃ c rest, title.written = c :: rest ∧ c.isAlphanum = true := by
  obtain ⟨d, hd, hstart⟩ := title.name.start
  rw [← title.lowered] at hd
  cases hwritten : title.written with
  | nil => simp [hwritten, lowerAscii] at hd
  | cons c rest =>
      obtain rfl : c.toLower = d := by simpa [hwritten, lowerAscii] using hd
      exact ⟨c, rest, rfl, isAlphanum_of_toLower hstart⟩

theorem Title.written_isToken : IsToken "<>=!~,;#[" title.written := by
  obtain ⟨c, rest, hwritten, -⟩ := title.written_start
  refine isToken_of_isWordChar ?_ title.written_isWordChar
  rw [hwritten]
  exact List.cons_ne_nil c rest

theorem Title.lower_written : lower title.written = title.name.text := by
  have hascii : ∀ c ∈ title.written, c.toNat < 0x80 := by
    intro c hc
    have hcode := isWordChar_code (title.written_isWordChar c hc)
    omega
  rw [lower, lowerFrom_eq_lowerAscii hascii, title.lowered]

end Title

section Parts

variable {c mark : Char} {marks : String}

def isExtraChar (c : Char) : Bool := isWordChar c || isBlank c && c != '\n' || c == ','

def isTitleChar (c : Char) : Bool := isExtraChar c || c == '[' || c == ']'

theorem Gap.isExtraChar {gap : Gap} (hc : c ∈ gap.text) : isExtraChar c = true := by
  have hblank := gap.blank c hc
  have hbreak : c ≠ '\n' := ne_of_mem_of_not_mem hc gap.unbroken
  simp [Requirements.isExtraChar, hblank, hbreak]

theorem isExtraChar_of_isWordChar (hc : isWordChar c = true) : isExtraChar c = true := by
  simp [isExtraChar, hc]

theorem isTitleChar_of_isExtraChar (hc : isExtraChar c = true) : isTitleChar c = true := by
  simp [isTitleChar, hc]

theorem isExtraChar_of_mem_extras {extras : List Extra}
    (hc : c ∈ [','].intercalate (extras.map Extra.render)) : isExtraChar c = true := by
  rcases mem_intercalate hc with hcomma | ⟨text, htext, hct⟩
  · rw [List.mem_singleton.mp hcomma]
    decide
  · obtain ⟨extra, -, rfl⟩ := List.mem_map.mp htext
    simp only [Extra.render, List.mem_append] at hct
    rcases hct with (hbefore | hword) | hbehind
    · exact Gap.isExtraChar hbefore
    · exact isExtraChar_of_isWordChar (extra.chars c hword)
    · exact Gap.isExtraChar hbehind

theorem brackets_isExtras (extras : Option (List Extra)) : IsExtras (brackets extras) := by
  cases extras with
  | none => exact .inl rfl
  | some extras =>
      refine .inr ⟨_, rfl, ?_⟩
      intro c hc hmark
      have hall : "[]=".toList.all (fun c => !isExtraChar c) = true := by decide
      have hclear := List.all_eq_true.mp hall c hmark
      rw [isExtraChar_of_mem_extras hc] at hclear
      cases hclear

theorem Title.isTitleChar_of_mem {title : Title} (hc : c ∈ title.text) : isTitleChar c = true := by
  simp only [Title.text, List.mem_append] at hc
  rcases hc with ((hwritten | hgap) | hextras) | hbehind
  · exact isTitleChar_of_isExtraChar
      (isExtraChar_of_isWordChar (title.written_isWordChar c hwritten))
  · exact isTitleChar_of_isExtraChar (Gap.isExtraChar hgap)
  · cases hsome : title.extras with
    | none => simp [hsome, brackets] at hextras
    | some extras =>
        simp only [hsome, brackets, List.mem_cons, List.mem_append, List.not_mem_nil, or_false]
          at hextras
        rcases hextras with rfl | hextras | rfl
        · decide
        · exact isTitleChar_of_isExtraChar (isExtraChar_of_mem_extras hextras)
        · decide
  · exact isTitleChar_of_isExtraChar (Gap.isExtraChar hbehind)

theorem Title.not_mem {title : Title} (hc : isTitleChar c = false) : c ∉ title.text := by
  intro hmem
  rw [Title.isTitleChar_of_mem hmem] at hc
  cases hc

theorem marked_not_mem {text : Option (Free marks)} (hne : c ≠ mark) (hc : c ∈ marks.toList) :
    c ∉ marked mark text := by
  cases text with
  | none => exact List.not_mem_nil
  | some free => exact List.not_mem_cons_of_ne_of_not_mem hne (free.clear c hc)

theorem cut_marked {a : List Char} (ha : mark ∉ a) (text : Option (Free marks)) :
    (a ++ marked mark text).takeWhile (· != mark) = a := by
  cases text with
  | none =>
      rw [marked, List.append_nil]
      exact cut_of_not_mem ha
  | some free => exact cut_mark ha free.text

end Parts

section Stops

variable {cs more : List Char}

/-- Whether a text goes on with neither a word nor a colon. -/
def Stops (cs : List Char) : Prop := ∀ c ∈ cs.head?, isWordChar c = false ∧ c ≠ ':'

theorem Stops.append (hcs : Stops cs) (hmore : Stops more) : Stops (cs ++ more) := by
  cases cs with
  | nil => exact hmore
  | cons c cs => exact hcs

theorem Gap.stops (gap : Gap) : Stops gap.text := by
  intro c hc
  have hblank := gap.blank c (List.mem_of_mem_head? hc)
  refine ⟨?_, ?_⟩
  · by_contra hword
    exact not_isMark_of_isWordChar (by simpa using hword) (.inl hblank)
  · rintro rfl
    cases hblank

theorem brackets_stops (extras : Option (List Extra)) : Stops (brackets extras) := by
  cases extras with
  | none => simp [Stops, brackets]
  | some extras =>
      rintro c ⟨⟩
      decide

theorem marked_stops {marks : String} (text : Option (Free marks)) : Stops (marked ';' text) := by
  cases text with
  | none => simp [Stops, marked]
  | some free =>
      rintro c ⟨⟩
      decide

/-- A word that stops is not the start of an address. -/
theorem Stops.not_address (hcs : Stops cs) {word scheme : List Char}
    (hword : ∀ c ∈ word, isWordChar c = true) (hscheme : ∀ c ∈ scheme, isWordChar c = true) :
    ¬scheme ++ "://".toList <+: word ++ cs := by
  rintro ⟨address, haddress⟩
  have hrest : cs.dropWhile isWordChar = cs := by
    cases cs with
    | nil => rfl
    | cons c cs => exact List.dropWhile_cons_of_neg (by simp [(hcs c rfl).1])
  have hdrop := congrArg (List.dropWhile isWordChar) haddress
  rw [List.append_assoc, List.dropWhile_append_of_pos hscheme, List.dropWhile_append_of_pos hword,
    hrest] at hdrop
  have hcolon : ':' ∈ cs.head? := by
    rw [← hdrop]
    rfl
  exact (hcs ':' hcolon).2 rfl

end Stops

section Reading

variable (manifest : Path) (title : Title) (ending : Ending)

theorem Ending.cut_render {a : List Char} (hhash : '#' ∉ a) :
    (a ++ ending.render).takeWhile (· != '#') =
      a ++ ending.gap.text ++ marked ';' ending.marker := by
  have hbefore : '#' ∉ a ++ ending.gap.text ++ marked ';' ending.marker := by
    simp only [List.mem_append, not_or]
    exact ⟨⟨hhash, ending.gap.blank.not_mem (by decide)⟩, marked_not_mem (by decide) (by decide)⟩
  rw [Ending.render, ← List.append_assoc, ← List.append_assoc]
  exact cut_marked hbefore ending.comment

/-- What stands before a marker and a comment is the requirement. -/
theorem Ending.requirement_append {lead text : List Char} (hlead : Blank lead)
    (hhash : '#' ∉ text) (hsemicolon : ';' ∉ text) :
    requirement (lead ++ text ++ ending.render) = trim text := by
  have hhash' : '#' ∉ lead ++ text := by
    rw [List.mem_append, not_or]
    exact ⟨hlead.not_mem (by decide), hhash⟩
  have hsemicolon' : ';' ∉ lead ++ text ++ ending.gap.text := by
    simp only [List.mem_append, not_or]
    exact ⟨⟨hlead.not_mem (by decide), hsemicolon⟩, ending.gap.blank.not_mem (by decide)⟩
  rw [requirement, ending.cut_render hhash', cut_marked hsemicolon',
    trim_append_blank ending.gap.blank, trim_blank_append hlead]

theorem Title.not_skipped {rest : List Char} (hrest : Stops rest) {start : String}
    (hstart : start ∈ skippedStarts) : ¬start.toList <+: title.written ++ rest := by
  obtain ⟨c, more, hwritten, hchar⟩ := title.written_start
  have hfirst : ∀ mark : Char, mark.isAlphanum = false → ¬[mark] <+: title.written ++ rest := by
    rintro mark hmark ⟨behind, hbehind⟩
    rw [hwritten] at hbehind
    obtain rfl : mark = c := (List.cons.inj hbehind).1
    rw [hchar] at hmark
    cases hmark
  simp only [skippedStarts, List.mem_cons, List.not_mem_nil, or_false] at hstart
  rcases hstart with rfl | rfl | rfl | rfl | rfl
  · exact hfirst '-' (by decide)
  · have hscheme : ∀ c ∈ "http".toList, isWordChar c = true := List.all_eq_true.mp (by decide)
    exact hrest.not_address title.written_isWordChar hscheme
  · have hscheme : ∀ c ∈ "https".toList, isWordChar c = true := List.all_eq_true.mp (by decide)
    exact hrest.not_address title.written_isWordChar hscheme
  · exact hfirst '/' (by decide)
  · exact hfirst '.' (by decide)

/-- A line that starts with a name is not passed over. -/
theorem Title.isPassedOver_eq_false {rest : List Char} (hrest : Stops rest) (hhash : '#' ∉ rest) :
    isPassedOver (title.lead.text ++ (title.written ++ rest) ++ ending.render) = false := by
  have htoken := title.written_isToken
  have hhash' : '#' ∉ title.lead.text ++ (title.written ++ rest) := by
    simp only [List.mem_append, not_or]
    exact ⟨title.lead.blank.not_mem (by decide), htoken.not_mem (by decide), hhash⟩
  let behind := rest ++ (ending.gap.text ++ marked ';' ending.marker)
  have hbehind : Stops behind := hrest.append (ending.gap.stops.append (marked_stops ending.marker))
  have hbody : trim ((title.lead.text ++ (title.written ++ rest) ++ ending.render).takeWhile
      (· != '#')) = trim (title.written ++ behind) := by
    rw [ending.cut_render hhash', List.append_assoc, List.append_assoc,
      trim_blank_append title.lead.blank, List.append_assoc]
  obtain ⟨hstart, hwhole⟩ := htoken.trimmed.isPrefix_trim htoken.ne_nil behind
  rw [isPassedOver]
  simp only [hbody, Bool.or_eq_false_iff, List.any_eq_false, List.isEmpty_eq_false_iff]
  refine ⟨?_, ?_⟩
  · intro hnil
    rw [hnil] at hstart
    exact htoken.ne_nil (List.prefix_nil.mp hstart)
  · intro start hmem hstarts
    exact title.not_skipped hbehind hmem ((startsWith_iff.mp hstarts).trans hwhole)

theorem Title.nameOf_text : nameOf title.text = title.written :=
  (parts_of_form title.written_isToken title.gap.blank (brackets_isExtras title.extras)
    title.behind.blank).1

theorem Title.exists_text : ∃ rest, title.text = title.written ++ rest ∧ Stops rest :=
  ⟨title.gap.text ++ (brackets title.extras ++ title.behind.text),
    by rw [Title.text, List.append_assoc, List.append_assoc],
    title.gap.stops.append ((brackets_stops title.extras).append title.behind.stops)⟩

theorem pinText_clear (gap : Gap) (version : Version) :
    '#' ∉ pinText title gap version ∧ ';' ∉ pinText title gap version := by
  have hclear : ∀ c, isTitleChar c = false → c ∉ "==".toList → isBlank c = false →
      c ∈ ",;#".toList → c ∉ pinText title gap version := by
    intro c htitle hsign hblank hmark
    simp only [pinText, List.mem_append, not_or]
    exact ⟨⟨Title.not_mem htitle, hsign⟩, gap.blank.not_mem hblank, version.isToken.not_mem hmark⟩
  exact ⟨hclear '#' (by decide) (by decide) (by decide) (by decide),
    hclear ';' (by decide) (by decide) (by decide) (by decide)⟩

theorem pinText_eq (gap : Gap) (version : Version) :
    ∃ middle, pinText title gap version = title.written ++ middle ++ version.text ∧
      Stops (middle ++ version.text) := by
  obtain ⟨rest, htext, hstops⟩ := title.exists_text
  refine ⟨rest ++ ("==".toList ++ gap.text), ?_, ?_⟩
  · simp only [pinText, htext, List.append_assoc]
  · rw [List.append_assoc]
    refine hstops.append ?_
    rintro c ⟨⟩
    decide

theorem isPassedOver_pin (gap : Gap) (version : Version) :
    isPassedOver (Line.pin title gap version ending).render = false := by
  obtain ⟨middle, hpin, hstops⟩ := pinText_eq title gap version
  obtain ⟨hhash, -⟩ := pinText_clear title gap version
  rw [hpin, List.append_assoc, List.mem_append, not_or] at hhash
  rw [Line.render, hpin, List.append_assoc title.written]
  exact title.isPassedOver_eq_false ending hstops hhash.2

theorem requirement_pin (gap : Gap) (version : Version) :
    requirement (Line.pin title gap version ending).render = pinText title gap version := by
  have htrimmed : Trimmed (pinText title gap version) := by
    obtain ⟨middle, hpin, -⟩ := pinText_eq title gap version
    rw [hpin]
    exact title.written_isToken.trimmed.between title.written_isToken.ne_nil
      version.isToken.trimmed version.isToken.ne_nil middle
  obtain ⟨hhash, hsemicolon⟩ := pinText_clear title gap version
  exact (ending.requirement_append title.lead.blank hhash hsemicolon).trans htrimmed.trim_eq

theorem parseLine?_pin (gap : Gap) (version : Version) :
    parseLine? manifest (Line.pin title gap version ending).render =
      (Line.pin title gap version ending).dependency? manifest := by
  have hsplit : splitAt? "==".toList (requirement (Line.pin title gap version ending).render) =
      some (title.text, gap.text ++ version.text) := by
    rw [requirement_pin]
    exact splitAt?_append (Title.not_mem (by decide)) _
  have hname := title.nameOf_text
  have hversion := versionOf_append version.isToken (by decide) gap.blank
  obtain ⟨hread, -⟩ := supported_iff.mpr ⟨isPassedOver_pin title ending gap version, title.text,
    gap.text ++ version.text, hsplit, by rw [hname]; exact title.written_isToken.ne_nil,
    by rw [hversion]; exact version.isToken.ne_nil, rfl⟩
  rw [hread, hname, hversion, pinned, title.lower_written]
  rfl

theorem not_isSpecifierStart {c : Char} (hc : isTitleChar c = true) :
    (!isSpecifierStart c) = true := by
  cases hstart : isSpecifierStart c with
  | false => rfl
  | true =>
      simp only [isSpecifierStart, Bool.or_eq_true, beq_iff_eq] at hstart
      rcases hstart with (((rfl | rfl) | rfl) | rfl) | rfl <;> exact absurd hc (by decide)

theorem parseLine?_bare :
    parseLine? manifest (Line.bare title ending).render =
      (Line.bare title ending).dependency? manifest := by
  obtain ⟨rest, htext, hstops⟩ := title.exists_text
  have hhash : '#' ∉ title.text := Title.not_mem (by decide)
  have hpassed : isPassedOver (Line.bare title ending).render = false := by
    rw [Line.render, htext]
    rw [htext, List.mem_append, not_or] at hhash
    exact title.isPassedOver_eq_false ending hstops hhash.2
  have hrequirement : requirement (Line.bare title ending).render = trim title.text :=
    ending.requirement_append title.lead.blank hhash (Title.not_mem (by decide))
  have hequals : '=' ∉ trim title.text := fun hmem =>
    Title.not_mem (by decide) (mem_of_mem_trim hmem)
  have hspecifier : ∀ c ∈ trim title.text, (!isSpecifierStart c) = true := fun c hc =>
    not_isSpecifierStart (Title.isTitleChar_of_mem (mem_of_mem_trim hc))
  have hsplit : split (requirement (Line.bare title ending).render) =
      (trim (trim title.text), [], true) := by
    rw [hrequirement, split_none (splitAt?_eq_none hequals),
      List.takeWhile_eq_self_iff.mpr hspecifier, List.dropWhile_eq_nil_iff.mpr hspecifier]
    rfl
  have hname : nameOf (trim (trim title.text)) = title.written :=
    (trim_cut_trim (by decide) _).trans ((trim_cut_trim (by decide) _).trans title.nameOf_text)
  have hne : title.written.isEmpty = false :=
    List.isEmpty_eq_false_iff.mpr title.written_isToken.ne_nil
  rw [parseLine?_eq hpassed, hsplit, hname, hne, title.lower_written]
  rfl

theorem parseLine?_empty (gap : Gap) (comment : Option (Free "\n")) :
    parseLine? manifest (Line.empty gap comment).render = none := by
  apply parseLine?_passedOver
  have hbody : trim ((Line.empty gap comment).render.takeWhile (· != '#')) = [] := by
    rw [Line.render, cut_marked (gap.blank.not_mem (by decide)), ← List.nil_append gap.text,
      trim_append_blank gap.blank]
    rfl
  simp [isPassedOver, hbody]

theorem start_of_known {start : String} (known : start ∈ ["-", "/", ".", "http://", "https://"]) :
    start ∈ skippedStarts ∧ IsToken "#\n" start.toList := by
  have hall : ["-", "/", ".", "http://", "https://"].all (fun start =>
      decide (start ∈ skippedStarts) && !start.toList.isEmpty && start.toList.all fun c =>
        !isBlank c && !decide (c ∈ "#\n".toList)) = true := by
    decide
  have hstart := List.all_eq_true.mp hall start known
  simp only [Bool.and_eq_true, decide_eq_true_eq, List.all_eq_true, Bool.not_eq_true',
    decide_eq_false_iff_not, List.isEmpty_eq_false_iff] at hstart
  exact ⟨hstart.1.1, hstart.1.2, hstart.2⟩

theorem parseLine?_other (gap : Gap) (start : String) (rest : Free "\n")
    (known : start ∈ ["-", "/", ".", "http://", "https://"]) :
    parseLine? manifest (Line.other gap start rest known).render = none := by
  apply parseLine?_passedOver
  obtain ⟨hskipped, htoken⟩ := start_of_known known
  have hhash : '#' ∉ gap.text ++ start.toList := by
    rw [List.mem_append, not_or]
    exact ⟨gap.blank.not_mem (by decide), htoken.not_mem (by decide)⟩
  have hbody : trim ((Line.other gap start rest known).render.takeWhile (· != '#')) =
      trim (start.toList ++ rest.text.takeWhile (· != '#')) := by
    rw [Line.render, ← List.append_assoc, cut_append hhash, List.append_assoc,
      trim_blank_append gap.blank]
  have hstarts : startsWith start.toList
      (trim (start.toList ++ rest.text.takeWhile (· != '#'))) = true :=
    startsWith_iff.mpr (htoken.trimmed.isPrefix_trim htoken.ne_nil _).1
  rw [isPassedOver]
  simp only [hbody, Bool.or_eq_true, List.any_eq_true]
  exact .inr ⟨start, hskipped, hstarts⟩

theorem parseLine?_render (line : Line) :
    parseLine? manifest line.render = line.dependency? manifest := by
  cases line with
  | pin title gap version ending => exact parseLine?_pin manifest title ending gap version
  | bare title ending => exact parseLine?_bare manifest title ending
  | empty gap comment => exact parseLine?_empty manifest gap comment
  | other gap start rest known => exact parseLine?_other manifest gap start rest known

theorem Line.unbroken (line : Line) : '\n' ∉ line.render := by
  have htitle : ∀ title : Title, '\n' ∉ title.text := fun _ => Title.not_mem (by decide)
  have hending : ∀ ending : Ending, '\n' ∉ ending.render := by
    intro ending
    simp only [Ending.render, List.mem_append, not_or]
    exact ⟨⟨ending.gap.unbroken, marked_not_mem (by decide) (by decide)⟩,
      marked_not_mem (by decide) (by decide)⟩
  cases line with
  | pin title gap version ending =>
      have hversion : '\n' ∉ version.text := fun hmem => by
        cases (version.isToken.clear _ hmem).1
      simp only [Line.render, pinText, List.mem_append, not_or]
      exact ⟨⟨title.lead.unbroken, ⟨htitle title, by decide⟩, gap.unbroken, hversion⟩,
        hending ending⟩
  | bare title ending =>
      simp only [Line.render, List.mem_append, not_or]
      exact ⟨⟨title.lead.unbroken, htitle title⟩, hending ending⟩
  | empty gap comment =>
      simp only [Line.render, List.mem_append, not_or]
      exact ⟨gap.unbroken, marked_not_mem (by decide) (by decide)⟩
  | other gap start rest known =>
      simp only [Line.render, List.mem_append, not_or]
      exact ⟨gap.unbroken, (start_of_known known).2.not_mem (by decide),
        rest.clear _ (by decide)⟩

/-- A carriage return at the end of a line is a blank or part of a comment. -/
theorem parseLine?_return (line : List Char) :
    parseLine? manifest (line ++ ['\r']) = parseLine? manifest line := by
  have hbody : trim ((line ++ ['\r']).takeWhile (· != '#')) =
      trim (line.takeWhile (· != '#')) := by
    rcases cut_cases '#' line with ⟨hnone, hself⟩ | ⟨rest, hfirst⟩
    · have hreturn : Blank ['\r'] := by
        intro c hc
        rw [List.mem_singleton.mp hc]
        rfl
      rw [cut_append hnone, hself]
      exact trim_append_blank hreturn line
    · have hwhole : line ++ ['\r'] = line.takeWhile (· != '#') ++ '#' :: (rest ++ ['\r']) := by
        rw [← List.cons_append, ← List.append_assoc, ← hfirst]
      rw [hwhole, cut_mark mark_not_mem_cut]
  unfold parseLine?
  rw [hbody]

end Reading

def write (entries : List Line) : String :=
  String.ofList (['\n'].intercalate (entries.map Line.render))

/-- Reading a written list gives the dependencies that its lines stand for, in
their order. -/
theorem written_list_reads_back (entries : List Line) (manifest : Path) :
    parse (write entries) manifest = entries.filterMap (Line.dependency? manifest) := by
  have hbreak : ∀ text ∈ entries.map Line.render, '\n' ∉ text := by
    intro text htext
    obtain ⟨line, -, rfl⟩ := List.mem_map.mp htext
    exact line.unbroken
  rw [parse, write, String.toList_ofList,
    filterMap_lines_intercalate (parseLine?_return manifest) rfl hbreak, List.filterMap_map]
  congr 1
  funext line
  exact parseLine?_render manifest line

/-- A pin and a name without a version among lines that hold neither. Both have
equals signs in their markers. -/
def decorated : List Line :=
  let none : Gap := ⟨[], by simp [Blank], by simp⟩
  let space : Gap := ⟨[' '], by simp [Blank, isBlank], by simp⟩
  [.empty none (some ⟨" web stack".toList, by simp⟩),
    .pin
      { lead := space
        name := ⟨"django".toList, by simp, by simp [isWordChar]⟩
        written := "Django".toList
        lowered := rfl
        gap := none
        extras := some
          [⟨none, "argon2".toList, by simp, by simp [isWordChar], none⟩,
            ⟨space, "bcrypt".toList, by simp, by simp [isWordChar], none⟩]
        behind := space }
      space ⟨"3.2.0".toList, ⟨by simp, by simp [isBlank]⟩, by simp⟩
      ⟨space, some ⟨" python_version == '3.8' ".toList, by simp⟩, some ⟨" LTS".toList, by simp⟩⟩,
    .other none "-" ⟨"r other.txt".toList, by simp⟩ (by simp),
    .bare
      { lead := none
        name := ⟨"uvloop".toList, by simp, by simp [isWordChar]⟩
        written := "UvLoop".toList
        lowered := rfl
        gap := none
        extras := .none
        behind := none }
      ⟨space, some ⟨" sys_platform == 'linux'".toList, by simp⟩, .none⟩,
    .other space "https://" ⟨"example.org/pkg.whl#egg==1".toList, by simp⟩ (by simp)]

example : write decorated =
    "# web stack\n Django[argon2, bcrypt] == 3.2.0 ; python_version == '3.8' # LTS\n" ++
      "-r other.txt\nUvLoop ; sys_platform == 'linux'\n https://example.org/pkg.whl#egg==1" := by
  decide +kernel

theorem decorated_reads_back : parse (write decorated) ⟨"requirements.txt"⟩ =
    [⟨"django", "3.2.0", .pypi, ⟨"requirements.txt"⟩, false, false⟩,
      ⟨"uvloop", "*", .pypi, ⟨"requirements.txt"⟩, false, true⟩] := by
  rw [written_list_reads_back]
  rfl

end Requirements

end WebAudit
