import Mathlib.Data.List.Basic
import WebAudit.Finding.Basic

/-!
What the identifier of a finding tells. It is a digest of category, kind, place
and line with bars between them, and it is kept up to date through everything
that can be done to a finding. Findings with the same key have the same text
under the digest. The converse needs the parts to be readable off the text, and
a bar inside a part is written like one between parts. Two findings with
different keys share their text exactly when a bar in the kind of one stands for
a bar in front of the place of the other, or when the place of one without a line
ends like the place and line of the other.
-/

namespace WebAudit

namespace Text

/-- The bytes of a character are those of the standard encoding. -/
theorem utf8Bytes_eq (c : Char) : utf8Bytes c = String.utf8EncodeChar c := by
  have hcode : c.val.toNat < 0x110000 := by
    have hvalid := c.valid
    simp only [UInt32.isValidChar, Nat.isValidChar] at hvalid
    omega
  have htoNat : c.toNat = c.val.toNat := rfl
  unfold utf8Bytes String.utf8EncodeChar
  rw [htoNat]
  generalize c.val.toNat = n at hcode
  dsimp only [Nat.toUInt8]
  -- the leading byte has room for all that is left of the code
  by_cases hone : n < 0x80
  · rw [if_pos hone, if_pos (by omega)]
  rw [if_neg hone, if_neg (c := n ≤ 0x7f) (by omega)]
  by_cases htwo : n < 0x800
  · have hlead : n / 64 % 32 = n / 64 := by omega
    rw [if_pos htwo, if_pos (by omega), hlead, Nat.add_comm 0xC0, Nat.add_comm 0x80]
  rw [if_neg htwo, if_neg (c := n ≤ 0x7ff) (by omega)]
  by_cases hthree : n < 0x10000
  · have hlead : n / 4096 % 16 = n / 4096 := by omega
    rw [if_pos hthree, if_pos (by omega), hlead, Nat.add_comm 0xE0, Nat.add_comm 0x80,
      Nat.add_comm 0x80]
  · have hlead : n / 262144 % 8 = n / 262144 := by omega
    rw [if_neg hthree, if_neg (by omega), hlead, Nat.add_comm 0xF0, Nat.add_comm 0x80,
      Nat.add_comm 0x80, Nat.add_comm 0x80]

theorem bytes_injective {s t : List Char} (hbytes : bytes s = bytes t) : s = t := by
  have hchar : utf8Bytes = String.utf8EncodeChar := funext utf8Bytes_eq
  have hencode : ∀ cs : List Char, (bytes cs).toByteArray = cs.utf8Encode := by
    intro cs
    rw [bytes, hchar, List.utf8Encode]
  have hdecode : s.utf8Encode.utf8Decode? = t.utf8Encode.utf8Decode? := by
    rw [← hencode, ← hencode, hbytes]
  rw [List.utf8Decode?_utf8Encode, List.utf8Decode?_utf8Encode] at hdecode
  simpa using hdecode

def barred (a b : String) : String := a ++ "|" ++ b

@[simp]
theorem toList_barred (a b : String) : (barred a b).toList = a.toList ++ '|' :: b.toList := by
  simp [barred]

theorem bar_mem_barred (a b : String) : '|' ∈ (barred a b).toList := by
  simp

private theorem barred_cut {a b a' b' : String} {mid : List Char}
    (hfirst : a'.toList = a.toList ++ mid) (hrest : '|' :: b.toList = mid ++ '|' :: b'.toList) :
    (a = a' ∧ b = b') ∨ ∃ mid, a' = barred a mid ∧ b = barred mid b' := by
  cases mid with
  | nil =>
      left
      have hb : b.toList = b'.toList := (List.cons.inj hrest).2
      exact ⟨String.toList_inj.mp (by simp [hfirst]), String.toList_inj.mp hb⟩
  | cons c mid =>
      right
      obtain ⟨rfl, hb⟩ := List.cons.inj hrest
      have ha' : a' = barred a (String.ofList mid) := String.toList_inj.mp (by simp [hfirst])
      have hb' : b = barred (String.ofList mid) b' := String.toList_inj.mp (by simp [hb])
      exact ⟨String.ofList mid, ha', hb'⟩

/-- Where a text can be cut at a bar in two ways, what lies between the cuts goes
to either side. -/
theorem barred_eq_iff (a b a' b' : String) :
    barred a b = barred a' b' ↔
      (a = a' ∧ b = b') ∨ (∃ mid, a' = barred a mid ∧ b = barred mid b') ∨
        ∃ mid, a = barred a' mid ∧ b' = barred mid b := by
  constructor
  · intro hsame
    have hlists : a.toList ++ '|' :: b.toList = a'.toList ++ '|' :: b'.toList := by
      simpa using congrArg String.toList hsame
    rcases List.append_eq_append_iff.mp hlists with ⟨mid, hfirst, hrest⟩ | ⟨mid, hfirst, hrest⟩
    · rcases barred_cut hfirst hrest with hparts | hlater
      · exact Or.inl hparts
      · exact Or.inr (Or.inl hlater)
    · rcases barred_cut hfirst hrest with ⟨ha, hb⟩ | hlater
      · exact Or.inl ⟨ha.symm, hb.symm⟩
      · exact Or.inr (Or.inr hlater)
  · rintro (⟨rfl, rfl⟩ | ⟨mid, rfl, rfl⟩ | ⟨mid, rfl, rfl⟩)
    · rfl
    · simp only [barred, String.append_assoc]
    · simp only [barred, String.append_assoc]

/-- A first part without bars can be read off. -/
theorem barred_eq_iff_of_left {a a' : String} (ha : '|' ∉ a.toList) (ha' : '|' ∉ a'.toList)
    (b b' : String) : barred a b = barred a' b' ↔ a = a' ∧ b = b' := by
  rw [barred_eq_iff]
  constructor
  · rintro (hparts | ⟨mid, rfl, -⟩ | ⟨mid, rfl, -⟩)
    · exact hparts
    · exact absurd (bar_mem_barred a mid) ha'
    · exact absurd (bar_mem_barred a' mid) ha
  · exact Or.inl

/-- A last part without bars can be read off. -/
theorem barred_eq_iff_of_right {b b' : String} (hb : '|' ∉ b.toList) (hb' : '|' ∉ b'.toList)
    (a a' : String) : barred a b = barred a' b' ↔ a = a' ∧ b = b' := by
  rw [barred_eq_iff]
  constructor
  · rintro (hparts | ⟨mid, -, rfl⟩ | ⟨mid, -, rfl⟩)
    · exact hparts
    · exact absurd (bar_mem_barred mid b') hb
    · exact absurd (bar_mem_barred mid b) hb'
  · exact Or.inl

theorem bar_not_mem_digits (n : Nat) : '|' ∉ (toString n).toList := by
  intro hmember
  have hdigit : '|' ∈ Nat.toDigits 10 n := by simpa using hmember
  simpa using Nat.isDigit_of_mem_toDigits (by decide) (by decide) hdigit

theorem toString_injective {m n : Nat} (hsame : toString m = toString n) : m = n := by
  have hdigits : Nat.toDigits 10 m = Nat.toDigits 10 n := by
    simpa using congrArg String.toList hsame
  simpa using congrArg (fun digits => Nat.ofDigitChars 10 digits 0) hdigits

end Text

theorem Category.bar_not_mem_name (c : Category) : '|' ∉ c.name.toList := by
  cases c <;> decide

theorem Category.name_injective {a b : Category} (hname : a.name = b.name) : a = b := by
  cases a <;> cases b <;> simp_all [Category.name]

theorem Severity.name_injective {a b : Severity} (hname : a.name = b.name) : a = b := by
  cases a <;> cases b <;> simp_all [Severity.name]

namespace Location

open Text

def identityText (l : Location) : String :=
  l.line?.elim l.key fun n => barred l.key (toString n)

/-- A place without a line whose text ends like another place with its line. -/
def EndsLike (l l' : Location) : Prop :=
  l.line? = none ∧ ∃ n, l'.line? = some n ∧ l.key = barred l'.key (toString n)

theorem identityText_eq_iff (l l' : Location) :
    l.identityText = l'.identityText ↔
      (l.key = l'.key ∧ l.line? = l'.line?) ∨ l.EndsLike l' ∨ l'.EndsLike l := by
  unfold identityText EndsLike
  cases hline : l.line? with
  | none =>
      cases hline' : l'.line? with
      | none => simp
      | some n => simp
  | some m =>
      cases hline' : l'.line? with
      | none => simp [eq_comm]
      | some n =>
          have hdigits : toString m = toString n ↔ m = n := ⟨toString_injective, congrArg _⟩
          simp only [Option.elim_some]
          rw [barred_eq_iff_of_right (bar_not_mem_digits m) (bar_not_mem_digits n), hdigits]
          simp

end Location

namespace Finding

open Text

/-- The text that the identifier of a finding is a digest of. -/
def identityText (f : Finding) : String :=
  barred f.category.name (barred f.kind f.location.identityText)

def identityBytes (f : Finding) : List UInt8 := bytes f.identityText.toList

/-- The first sixteen hexadecimal digits of a digest. -/
def shortDigest (data : List UInt8) : String :=
  String.ofList ((Digest.hex (Digest.sha256 data)).take 16)

theorem identify_eq (f : Finding) :
    identify f.category f.kind f.location = shortDigest f.identityBytes := by
  have htext : f.identityText =
      f.category.name ++ "|" ++ f.kind ++ "|" ++ f.location.key ++
        f.location.line?.elim "" fun n => "|" ++ toString n := by
    unfold identityText Location.identityText
    cases f.location.line? <;> simp [barred, String.append_assoc]
  unfold identityBytes
  rw [htext]
  unfold identify shortDigest
  cases f.location.line? <;> rfl

/-- The text of one finding reads as that of another, whose kind takes in a part of
its place or whose line is taken from the end of its place. -/
def Blurs (f g : Finding) : Prop :=
  f.category = g.category ∧
    ((∃ mid, g.kind = barred f.kind mid ∧
        f.location.identityText = barred mid g.location.identityText) ∨
      f.kind = g.kind ∧ f.location.EndsLike g.location)

theorem key_eq_iff (f g : Finding) :
    f.key = g.key ↔
      f.category = g.category ∧ f.kind = g.kind ∧
        f.location.key = g.location.key ∧ f.location.line? = g.location.line? := by
  simp only [key, Key.mk.injEq]
  constructor
  · rintro ⟨hlocation, hline, hcategory, hkind⟩
    exact ⟨hcategory, hkind, hlocation, hline⟩
  · rintro ⟨hcategory, hkind, hlocation, hline⟩
    exact ⟨hlocation, hline, hcategory, hkind⟩

/-- All ways in which two findings share their text. -/
theorem identityText_eq_iff (f g : Finding) :
    f.identityText = g.identityText ↔ f.key = g.key ∨ f.Blurs g ∨ g.Blurs f := by
  unfold identityText
  rw [barred_eq_iff_of_left f.category.bar_not_mem_name g.category.bar_not_mem_name,
    barred_eq_iff, Location.identityText_eq_iff, key_eq_iff]
  have hcategory : f.category.name = g.category.name ↔ f.category = g.category :=
    ⟨Category.name_injective, congrArg _⟩
  rw [hcategory]
  constructor
  · rintro ⟨hsame, ⟨hkind, hplace | hends | hends⟩ | hcut | hcut⟩
    · exact Or.inl ⟨hsame, hkind, hplace⟩
    · exact Or.inr (Or.inl ⟨hsame, Or.inr ⟨hkind, hends⟩⟩)
    · exact Or.inr (Or.inr ⟨hsame.symm, Or.inr ⟨hkind.symm, hends⟩⟩)
    · exact Or.inr (Or.inl ⟨hsame, Or.inl hcut⟩)
    · exact Or.inr (Or.inr ⟨hsame.symm, Or.inl hcut⟩)
  · rintro (⟨hsame, hkind, hplace⟩ | ⟨hsame, hcut | ⟨hkind, hends⟩⟩ | ⟨hsame, hcut | ⟨hkind, hends⟩⟩)
    · exact ⟨hsame, Or.inl ⟨hkind, Or.inl hplace⟩⟩
    · exact ⟨hsame, Or.inr (Or.inl hcut)⟩
    · exact ⟨hsame, Or.inl ⟨hkind, Or.inr (Or.inl hends)⟩⟩
    · exact ⟨hsame.symm, Or.inr (Or.inr hcut)⟩
    · exact ⟨hsame.symm, Or.inl ⟨hkind.symm, Or.inr (Or.inr hends)⟩⟩

theorem identityBytes_eq_iff (f g : Finding) :
    f.identityBytes = g.identityBytes ↔ f.key = g.key ∨ f.Blurs g ∨ g.Blurs f := by
  rw [← identityText_eq_iff]
  constructor
  · intro hbytes
    exact String.toList_inj.mp (bytes_injective hbytes)
  · intro htext
    unfold identityBytes
    rw [htext]

theorem Blurs.key_ne {f g : Finding} (hblurs : f.Blurs g) : f.key ≠ g.key := by
  intro hkey
  obtain ⟨-, hkind, -, hline⟩ := (key_eq_iff f g).mp hkey
  rcases hblurs.2 with ⟨mid, hlonger, -⟩ | ⟨-, hnone, n, hsome, -⟩
  · have hlength := congrArg (fun s => s.toList.length) (hkind.trans hlonger)
    simp at hlength
  · rw [hnone, hsome] at hline
    cases hline

/-- A finding whose parts can be read off its text: there is no bar in its kind, and
none in its place unless a line follows. -/
def IsReadable (f : Finding) : Prop :=
  '|' ∉ f.kind.toList ∧ (f.location.line? = none → '|' ∉ f.location.key.toList)

theorem not_blurs_of_isReadable {f g : Finding} (hf : f.IsReadable) (hg : g.IsReadable) :
    ¬f.Blurs g := by
  rintro ⟨-, ⟨mid, hkind, -⟩ | ⟨-, hnone, n, -, hplace⟩⟩
  · exact hg.1 (hkind ▸ bar_mem_barred f.kind mid)
  · exact hf.2 hnone (hplace ▸ bar_mem_barred g.location.key (toString n))

inductive Edit where
  | details (text : String)
  | payload (data : Payload)
  | reclassify (kind : String) (severity : Severity)

def Edit.apply (f : Finding) : Edit → Finding
  | .details text => f.withDetails text
  | .payload data => f.withPayload data
  | .reclassify kind severity => f.reclassify kind severity

structure History where
  category : Category
  kind : String
  severity : Severity
  location : Location
  message : String
  edits : List Edit

def History.finding (h : History) : Finding :=
  h.edits.foldl Edit.apply (.new h.category h.kind h.severity h.location h.message)

/-- The identifier is the one that belongs to category, kind and place. -/
def InSync (f : Finding) : Prop := f.id = identify f.category f.kind f.location

theorem InSync.apply {f : Finding} (hsync : f.InSync) (e : Edit) : (Edit.apply f e).InSync := by
  cases e with
  | details text => exact hsync
  | payload data => exact hsync
  | reclassify kind severity => rfl

theorem InSync.foldl {f : Finding} (hsync : f.InSync) (edits : List Edit) :
    (edits.foldl Edit.apply f).InSync := by
  induction edits generalizing f with
  | nil => exact hsync
  | cons e rest ih => exact ih (hsync.apply e)

theorem History.inSync (h : History) : h.finding.InSync := by
  have hnew : (Finding.new h.category h.kind h.severity h.location h.message).InSync := rfl
  exact hnew.foldl h.edits

theorem History.id_eq (h : History) : h.finding.id = shortDigest h.finding.identityBytes := by
  rw [← identify_eq]
  exact h.inSync

/-- What identifiers tell about findings, whatever was done to them. They are
digests of the bytes, which are the same for duplicates. Findings that are no
duplicates share their bytes exactly when the text of one reads as that of the
other, which a bar in a kind or in a place without a line is needed for. -/
theorem identity_exact (h h' : History) :
    let f := h.finding
    let g := h'.finding
    f.id = shortDigest f.identityBytes ∧
    (f.isDuplicateOf g → f.identityBytes = g.identityBytes ∧ f.id = g.id) ∧
    (f.identityBytes = g.identityBytes ↔ f.isDuplicateOf g ∨ f.Blurs g ∨ g.Blurs f) ∧
    ((f.identityBytes = g.identityBytes ↔ f.isDuplicateOf g) ↔ ¬f.Blurs g ∧ ¬g.Blurs f) ∧
    (f.IsReadable → g.IsReadable →
      (f.identityBytes = g.identityBytes ↔ f.isDuplicateOf g)) := by
  intro f g
  have hduplicate : f.isDuplicateOf g ↔ f.key = g.key := beq_iff_eq
  have hbytes := identityBytes_eq_iff f g
  have hexact : (f.identityBytes = g.identityBytes ↔ f.isDuplicateOf g) ↔
      ¬f.Blurs g ∧ ¬g.Blurs f := by
    rw [hduplicate, hbytes]
    constructor
    · intro hsame
      refine ⟨fun hblurs => ?_, fun hblurs => ?_⟩
      · exact hblurs.key_ne (hsame.mp (Or.inr (Or.inl hblurs)))
      · exact hblurs.key_ne (hsame.mp (Or.inr (Or.inr hblurs))).symm
    · rintro ⟨hforth, hback⟩
      simp [hforth, hback]
  refine ⟨h.id_eq, ?_, by rw [hduplicate, hbytes], hexact, ?_⟩
  · intro hsame
    have hshared : f.identityBytes = g.identityBytes :=
      hbytes.mpr (Or.inl (hduplicate.mp hsame))
    refine ⟨hshared, ?_⟩
    rw [h.id_eq, h'.id_eq]
    exact congrArg shortDigest hshared
  · intro hf hg
    exact hexact.mpr ⟨not_blurs_of_isReadable hf hg, not_blurs_of_isReadable hg hf⟩

def numberedSetting : History where
  category := .configuration
  kind := "Debug Mode Enabled"
  severity := .medium
  location := .atLine ⟨"config/app.json"⟩ 12
  message := "Debug Mode Enabled: `debug` is set to true"
  edits := []

def barredSetting : History :=
  { numberedSetting with location := .ofFile ⟨"config/app.json|12"⟩ }

/-- Two findings about different files have the same identifier. -/
theorem barredSetting_shares_identity :
    ¬(barredSetting.finding.identityBytes = numberedSetting.finding.identityBytes ↔
      barredSetting.finding.isDuplicateOf numberedSetting.finding) := by
  have hends : barredSetting.finding.location.EndsLike numberedSetting.finding.location :=
    ⟨rfl, 12, rfl, by decide⟩
  have hblurs : barredSetting.finding.Blurs numberedSetting.finding :=
    ⟨rfl, Or.inr ⟨rfl, hends⟩⟩
  intro hsame
  have hkey := hsame.mp ((identityBytes_eq_iff _ _).mpr (Or.inr (Or.inl hblurs)))
  exact hblurs.key_ne (beq_iff_eq.mp hkey)

def renamedSetting : History :=
  { numberedSetting with
    kind := "Insecure Setting"
    edits := [.details "Turn it off", .reclassify "Debug Mode Enabled" .low, .payload .empty] }

/-- What a finding was called before does not show in its identifier. -/
theorem renamedSetting_keeps_identity :
    renamedSetting.finding.isDuplicateOf numberedSetting.finding ∧
      renamedSetting.finding.identityBytes = numberedSetting.finding.identityBytes ∧
      renamedSetting.finding.id = numberedSetting.finding.id := by
  have hsame : renamedSetting.finding.isDuplicateOf numberedSetting.finding := by decide +kernel
  exact ⟨hsame, (identity_exact renamedSetting numberedSetting).2.1 hsame⟩

end Finding

end WebAudit
