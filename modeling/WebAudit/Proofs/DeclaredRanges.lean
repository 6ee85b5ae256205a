import WebAudit.Proofs.DeclaredVersions

/-!
Whether a package is looked up at a version that its declaration admits. A
declared range is looked up at the bound that its first comparator writes. Every
relation but two admits its own bound: strictly greater and strictly less do not,
so such a range is looked up at a version outside of it.
-/

namespace WebAudit

open Text

namespace Version

/-- The precedence of two words of a pre-release: numbers by value and before all
other words, these by their characters. -/
def wordOrder (a b : List Char) : Ordering :=
  match a.all Char.isDigit, b.all Char.isDigit with
  | true, true => compare (Number.digitsValue a) (Number.digitsValue b)
  | true, false => .lt
  | false, true => .gt
  | false, false => compare (String.ofList a) (String.ofList b)

/-- The precedence of two lists of words: by the first words that differ, and the
shorter list first. -/
def wordsOrder : List (List Char) → List (List Char) → Ordering
  | [], [] => .eq
  | [], _ :: _ => .lt
  | _ :: _, [] => .gt
  | a :: as, b :: bs => (wordOrder a b).then (wordsOrder as bs)

/-- The precedence of two pre-releases. A version without one comes after all that
have one. -/
def preOrder (a b : List Char) : Ordering :=
  match a.isEmpty, b.isEmpty with
  | true, true => .eq
  | true, false => .gt
  | false, true => .lt
  | false, false => wordsOrder (splitOn '.' a) (splitOn '.' b)

theorem wordOrder_self (a : List Char) : wordOrder a a = .eq := by
  unfold wordOrder
  cases a.all Char.isDigit with
  | true => exact Nat.compare_eq_eq.mpr rfl
  | false =>
      have hself : compare (String.ofList a) (String.ofList a) = .eq := Std.ReflCmp.compare_self
      exact hself

theorem wordsOrder_self (words : List (List Char)) : wordsOrder words words = .eq := by
  induction words with
  | nil => rfl
  | cons word words ih => rw [wordsOrder, wordOrder_self, ih, Ordering.eq_then]

theorem preOrder_self (a : List Char) : preOrder a a = .eq := by
  unfold preOrder
  cases a.isEmpty with
  | true => rfl
  | false => exact wordsOrder_self _

end Version

namespace Comparator

/-- How a version compares with the parts that a comparator writes. -/
def order (c : Comparator) (v : Version) : Ordering :=
  (compare v.major c.major).then <|
    match c.minor with
    | none => .eq
    | some minor =>
      (compare v.minor minor).then <|
        match c.patch with
        | none => .eq
        | some patch => (compare v.patch patch).then (Version.preOrder v.pre c.pre)

/-- Whether a version has the parts that a tilde keeps: those before the last one
that may grow. -/
def keepsMinor (c : Comparator) (v : Version) : Bool :=
  v.major == c.major && c.minor.all (v.minor == ·)

/-- Whether a version has the parts that a caret keeps: those up to the first that
is not zero. -/
def keepsLeading (c : Comparator) (v : Version) : Bool :=
  v.major == c.major && (c.major != 0 || c.minor.all fun minor =>
    v.minor == minor && (minor != 0 || c.patch.all (v.patch == ·)))

/-- Whether a version is in the range of a comparator, pre-releases aside. -/
def spans (c : Comparator) (v : Version) : Bool :=
  match c.relation with
  | .exact => c.order v == .eq
  | .wildcard => c.order v == .eq
  | .greater => c.order v == .gt
  | .greaterEq => (c.order v).isGE
  | .less => c.order v == .lt
  | .lessEq => (c.order v).isLE
  | .tilde => (c.order v).isGE && c.keepsMinor v
  | .caret => (c.order v).isGE && c.keepsLeading v

/-- Whether a comparator is written with a pre-release of the same numbers. -/
def opensPre (c : Comparator) (v : Version) : Bool :=
  !c.pre.isEmpty && v.major == c.major && c.minor == some v.minor && c.patch == some v.patch

/-- Whether a comparator admits a version. A pre-release is admitted only where the
comparator itself names one of the same numbers. -/
def admits (c : Comparator) (v : Version) : Bool :=
  c.spans v && (v.pre.isEmpty || c.opensPre v)

def exactly (v : Version) : Comparator := ⟨.exact, v.major, some v.minor, some v.patch, v.pre⟩

section Own

variable {c : Comparator} {v : Version}

structure IsBound (c : Comparator) (v : Version) : Prop where
  major : v.major = c.major
  minor : v.minor = c.minor.getD 0
  patch : v.patch = c.patch.getD 0
  pre : v.pre = c.pre

theorem IsBound.order_eq (hbound : IsBound c v) : c.order v = .eq := by
  unfold order
  rw [hbound.major, hbound.minor, hbound.patch, hbound.pre]
  cases c.minor with
  | none => simp
  | some minor =>
      cases c.patch with
      | none => simp
      | some patch => simp [Version.preOrder_self]

theorem IsBound.keepsMinor (hbound : IsBound c v) : c.keepsMinor v = true := by
  unfold Comparator.keepsMinor
  rw [hbound.major, hbound.minor]
  cases c.minor <;> simp

theorem IsBound.keepsLeading (hbound : IsBound c v) : c.keepsLeading v = true := by
  unfold Comparator.keepsLeading
  rw [hbound.major, hbound.minor, hbound.patch]
  cases c.minor <;> cases c.patch <;> simp

/-- Only the two strict relations leave out their own bound. -/
theorem IsBound.spans_iff (hbound : IsBound c v) :
    c.spans v = true ↔ c.relation ≠ .greater ∧ c.relation ≠ .less := by
  unfold spans
  rw [hbound.order_eq, hbound.keepsMinor, hbound.keepsLeading]
  cases c.relation <;> decide

/-- A comparator that can be written names the numbers of its pre-release. -/
theorem IsBound.opensPre (hbound : IsBound c v) (hproper : c.IsProper) :
    (v.pre.isEmpty || c.opensPre v) = true := by
  rw [hbound.pre]
  by_cases hpre : c.pre = []
  · simp [hpre]
  · have hpatch := hproper.patch_of_pre hpre
    have hminor := hproper.minor_of_patch hpatch
    obtain ⟨patch, hpatch⟩ := Option.isSome_iff_exists.mp hpatch
    obtain ⟨minor, hminor⟩ := Option.isSome_iff_exists.mp hminor
    simp [Comparator.opensPre, hbound.major, hbound.minor, hbound.patch, hpatch, hminor]

theorem IsBound.admits_iff (hbound : IsBound c v) (hproper : c.IsProper) :
    c.admits v = true ↔ c.relation ≠ .greater ∧ c.relation ≠ .less := by
  rw [admits, hbound.opensPre hproper, Bool.and_true, hbound.spans_iff]

end Own

end Comparator

namespace Declaration

variable {spec v : String} {part : List Char} {w : Version}

/-- The comparator that a part of a declaration starts with. A plain version admits
itself. -/
def comparator? (part : List Char) : Option Comparator :=
  ((Version.parse? (part.dropWhile (· == 'v'))).map Comparator.exactly).or
    ((Comparator.parseRequirement? part).bind List.head?)

/-- The version that a part names is the bound of its first comparator. -/
theorem exists_comparator (hnamed : named? part = some w) :
    ∃ c, comparator? part = some c ∧ c.IsProper ∧ c.IsBound w := by
  cases hplain : Version.parse? (part.dropWhile (· == 'v')) with
  | some w' =>
      obtain rfl : w' = w := by
        rw [named?, hplain, Option.some_or] at hnamed
        exact Option.some.inj hnamed
      obtain ⟨hproper, -⟩ := parse?_dropWhile_iff.mp hplain
      have hversion : (Comparator.exactly w').version.IsProper :=
        ⟨hproper.major_lt, hproper.minor_lt, hproper.patch_lt, hproper.pre, .inl rfl⟩
      refine ⟨.exactly w', by rw [comparator?, hplain]; rfl,
        ⟨hversion, fun _ => rfl, fun _ => rfl⟩, ?_⟩
      exact ⟨rfl, rfl, rfl, rfl⟩
  | none =>
      rw [named?, hplain, Option.none_or] at hnamed
      obtain ⟨c, hfirst, rfl⟩ := Option.map_eq_some_iff.mp hnamed
      obtain ⟨listed, hread, hhead⟩ := Option.bind_eq_some_iff.mp hfirst
      obtain ⟨more, rfl⟩ := List.head?_eq_some_iff.mp hhead
      refine ⟨c, by rw [comparator?, hplain, Option.map_none, Option.none_or, hfirst],
        parseRequirement?_isProper hread, ?_⟩
      exact ⟨rfl, rfl, rfl, rfl⟩

/-- The version that is looked up for a declaration is admitted by the first
comparator of the part that is read, exactly when this comparator is not strict. -/
theorem looked_up_version_admitted_iff (hnormal : normalizeVersion spec = some v) :
    ∃ c w, comparator? (readPart spec) = some c ∧ Version.parse? v.toList = some w ∧
      c.IsBound w ∧ (c.admits w = true ↔ c.relation ≠ .greater ∧ c.relation ≠ .less) := by
  obtain ⟨-, w, hnamed, rfl⟩ := normalizeVersion_eq_some_iff.mp hnormal
  obtain ⟨c, hfirst, hproper, hbound⟩ := exists_comparator hnamed
  exact ⟨c, w, hfirst, Version.parse?_eq_some_iff.mpr ⟨named?_isProper hnamed, rfl⟩, hbound,
    hbound.admits_iff hproper⟩

/-- A tilde on a pre-release admits what is looked up. -/
theorem prerelease_admitted :
    normalizeVersion "~1.2.3-rc.1, <2" = some "1.2.3-rc.1" ∧
      ∃ c w, comparator? (readPart "~1.2.3-rc.1, <2") = some c ∧
        Version.parse? "1.2.3-rc.1".toList = some w ∧ c.relation = .tilde ∧ c.admits w = true := by
  have hnormal : normalizeVersion "~1.2.3-rc.1, <2" = some "1.2.3-rc.1" := by decide +kernel
  obtain ⟨c, w, hfirst, hread, -, hadmits⟩ := looked_up_version_admitted_iff hnormal
  have hc : comparator? (readPart "~1.2.3-rc.1, <2") =
      some ⟨.tilde, 1, some 2, some 3, "rc.1".toList⟩ := by decide +kernel
  have hrelation : c.relation = .tilde := by
    rw [hfirst] at hc
    rw [Option.some.inj hc]
  exact ⟨hnormal, c, w, hfirst, hread, hrelation, hadmits.mpr (by rw [hrelation]; decide)⟩

/-- An upper bound that is left out is looked up all the same. -/
theorem excluded_bound_looked_up :
    normalizeVersion "<2.0.0" = some "2.0.0" ∧
      comparator? (readPart "<2.0.0") = some ⟨.less, 2, some 0, some 0, []⟩ ∧
      Version.parse? "2.0.0".toList = some ⟨2, 0, 0, [], []⟩ ∧
      Comparator.admits ⟨.less, 2, some 0, some 0, []⟩ ⟨2, 0, 0, [], []⟩ = false := by
  decide +kernel

end Declaration

end WebAudit
