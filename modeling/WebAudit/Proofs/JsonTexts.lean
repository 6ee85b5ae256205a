import Mathlib.Data.List.Basic
import WebAudit.Json.Value

/-!
The compact text of a JSON value tells the value. No character inside a string
is written so that what is written for another one goes on from it, and none is
written with a quote in front, so a string ends at one place only. The first
character of a value tells its kind, and behind an item or a member comes a
comma or the closing bracket. Hence a value can be cancelled from the front of a
longer text, together with its rest. Numbers are left out: they end where what
follows is no part of a number, and a number that is not finite is written like
the absence of a value.
-/

namespace WebAudit.Json

/-- The characters that are not written as themselves inside a string. -/
def escapedChars : List Char := '"' :: '\\' :: (List.range 32).map Char.ofNat

/-- What is written for two escaped characters differs, also when more
follows. -/
theorem escaped_prefix_free {c d : Char} (hc : c ∈ escapedChars) (hd : d ∈ escapedChars)
    (hstart : escapeChar c <+: escapeChar d) : c = d := by
  have hall : escapedChars.all (fun c => escapedChars.all fun d =>
      !(escapeChar c).isPrefixOf (escapeChar d) || c == d) = true := by decide +kernel
  have hpair := List.all_eq_true.mp (List.all_eq_true.mp hall c hc) d hd
  have hstarts := List.isPrefixOf_iff_prefix.mpr hstart
  rw [hstarts] at hpair
  exact beq_iff_eq.mp hpair

theorem escapeChar_of_not_mem {c : Char} (hc : c ∉ escapedChars) : escapeChar c = [c] := by
  have hcontrol : ¬c.toNat < 32 := by
    intro hlow
    apply hc
    have hcode : Char.ofNat c.toNat ∈ (List.range 32).map Char.ofNat :=
      List.mem_map_of_mem (List.mem_range.mpr hlow)
    rw [Char.ofNat_toNat] at hcode
    exact List.mem_cons_of_mem _ (List.mem_cons_of_mem _ hcode)
  have hne : ∀ d ∈ escapedChars, (c == d) = false := by
    intro d hd
    exact beq_eq_false_iff_ne.mpr fun hsame => hc (hsame ▸ hd)
  have hcode : ∀ n < 32, (c.toNat == n) = false := by
    intro n hn
    exact beq_eq_false_iff_ne.mpr (by omega)
  unfold escapeChar
  simp [hne '"' (by decide), hne '\\' (by decide), hne '\n' (by decide), hne '\r' (by decide),
    hne '\t' (by decide), hcode 8 (by decide), hcode 12 (by decide), hcontrol]

/-- The first character tells whether a backslash had to be put in front. -/
theorem head?_escapeChar_append (c : Char) (rest : List Char) :
    (escapeChar c ++ rest).head? = some (if c ∈ escapedChars then '\\' else c) := by
  have hall : escapedChars.all (fun c => (escapeChar c).head? == some '\\') = true := by
    decide +kernel
  by_cases hc : c ∈ escapedChars
  · rw [List.head?_append, beq_iff_eq.mp (List.all_eq_true.mp hall c hc), if_pos hc,
      Option.some_or]
  · rw [escapeChar_of_not_mem hc, if_neg hc]
    rfl

theorem escapeChar_append_inj {c d : Char} {r s : List Char}
    (hsame : escapeChar c ++ r = escapeChar d ++ s) : c = d ∧ r = s := by
  have hhead := congrArg List.head? hsame
  rw [head?_escapeChar_append, head?_escapeChar_append, Option.some_inj] at hhead
  -- what is written starts with a backslash, or is one character that is no backslash
  have hbackslash : '\\' ∈ escapedChars := by decide
  obtain rfl : c = d := by
    by_cases hc : c ∈ escapedChars
    · rw [if_pos hc] at hhead
      by_cases hd : d ∈ escapedChars
      · rcases List.append_eq_append_iff.mp hsame with ⟨mid, hmid, -⟩ | ⟨mid, hmid, -⟩
        · exact escaped_prefix_free hc hd ⟨mid, hmid.symm⟩
        · exact (escaped_prefix_free hd hc ⟨mid, hmid.symm⟩).symm
      · rw [if_neg hd] at hhead
        exact absurd (hhead ▸ hbackslash) hd
    · rw [if_neg hc] at hhead
      by_cases hd : d ∈ escapedChars
      · rw [if_pos hd] at hhead
        exact absurd (hhead ▸ hbackslash) hc
      · rwa [if_neg hd] at hhead
  exact ⟨rfl, List.append_cancel_left hsame⟩

/-- No character is written with a quote in front, so the quote ends a string. -/
theorem escapeChar_append_ne (c : Char) (r s : List Char) : escapeChar c ++ r ≠ '"' :: s := by
  intro hsame
  have hhead := congrArg List.head? hsame
  rw [head?_escapeChar_append, List.head?_cons, Option.some_inj] at hhead
  split at hhead
  · exact absurd hhead (by decide)
  · rename_i hc
    exact hc (hhead ▸ List.mem_cons_self)

private theorem flatMap_escapeChar_inj (s t : List Char) {r u : List Char}
    (hsame : s.flatMap escapeChar ++ '"' :: r = t.flatMap escapeChar ++ '"' :: u) :
    s = t ∧ r = u := by
  induction s generalizing t with
  | nil =>
      cases t with
      | nil => exact ⟨rfl, (List.cons.inj hsame).2⟩
      | cons d t =>
          rw [List.flatMap_cons, List.append_assoc] at hsame
          exact absurd hsame.symm (escapeChar_append_ne d _ _)
  | cons c s ih =>
      rw [List.flatMap_cons, List.append_assoc] at hsame
      cases t with
      | nil => exact absurd hsame (escapeChar_append_ne c _ _)
      | cons d t =>
          rw [List.flatMap_cons, List.append_assoc] at hsame
          obtain ⟨rfl, hrest⟩ := escapeChar_append_inj hsame
          obtain ⟨rfl, hend⟩ := ih t hrest
          exact ⟨rfl, hend⟩

theorem quote_append_inj {s t : String} {r u : List Char}
    (hsame : quote s ++ r = quote t ++ u) : s = t ∧ r = u := by
  have hbody : s.toList.flatMap escapeChar ++ '"' :: r =
      t.toList.flatMap escapeChar ++ '"' :: u := by
    simpa [quote] using hsame
  obtain ⟨hchars, hrest⟩ := flatMap_escapeChar_inj s.toList t.toList hbody
  exact ⟨String.toList_inj.mp hchars, hrest⟩

mutual

def isNumberless : Json → Bool
  | .number _ => false
  | .array items => areNumberless items
  | .object members => haveNumberless members
  | _ => true

def areNumberless : List Json → Bool
  | [] => true
  | v :: rest => v.isNumberless && areNumberless rest

def haveNumberless : List (String × Json) → Bool
  | [] => true
  | (_, v) :: rest => v.isNumberless && haveNumberless rest

end

section Commas

variable {α : Type} (write : α → List Char)

/-- What is written for some things, with commas between them. -/
def commaed : List α → List Char
  | [] => []
  | a :: rest => write a ++ rest.flatMap fun b => ',' :: write b

variable {write} {close : Char} {as bs : List α} {r s : List Char}

private theorem later_append_inj (hclose : close ≠ ',')
    (hcancel : ∀ a ∈ as, ∀ b ∈ bs, ∀ t u, write a ++ t = write b ++ u → a = b ∧ t = u)
    (hsame : as.flatMap (fun a => ',' :: write a) ++ close :: r =
      bs.flatMap (fun b => ',' :: write b) ++ close :: s) :
    as = bs ∧ r = s := by
  induction as generalizing bs with
  | nil =>
      cases bs with
      | nil => exact ⟨rfl, (List.cons.inj hsame).2⟩
      | cons b bs => exact absurd (List.cons.inj hsame).1 hclose
  | cons a as ih =>
      cases bs with
      | nil => exact absurd (List.cons.inj hsame).1.symm hclose
      | cons b bs =>
          simp only [List.flatMap_cons, List.cons_append, List.append_assoc] at hsame
          obtain ⟨rfl, hrest⟩ := hcancel a List.mem_cons_self b List.mem_cons_self _ _
            (List.cons.inj hsame).2
          obtain ⟨rfl, hend⟩ := ih (fun a' ha b' hb => hcancel a' (List.mem_cons_of_mem _ ha) b'
            (List.mem_cons_of_mem _ hb)) hrest
          exact ⟨rfl, hend⟩

/-- Where single things can be cancelled, and none starts with the closing
bracket, a bracketed list of them can be. -/
theorem commaed_append_inj (hclose : close ≠ ',')
    (hopen : ∀ a ∈ as ++ bs, ∀ t u, write a ++ t ≠ close :: u)
    (hcancel : ∀ a ∈ as, ∀ b ∈ bs, ∀ t u, write a ++ t = write b ++ u → a = b ∧ t = u)
    (hsame : commaed write as ++ close :: r = commaed write bs ++ close :: s) :
    as = bs ∧ r = s := by
  cases as with
  | nil =>
      cases bs with
      | nil => exact ⟨rfl, (List.cons.inj hsame).2⟩
      | cons b bs =>
          rw [commaed, commaed, List.append_assoc] at hsame
          exact absurd hsame.symm (hopen b (by simp) _ _)
  | cons a as =>
      cases bs with
      | nil =>
          rw [commaed, commaed, List.append_assoc] at hsame
          exact absurd hsame (hopen a (by simp) _ _)
      | cons b bs =>
          rw [commaed, commaed, List.append_assoc, List.append_assoc] at hsame
          obtain ⟨rfl, hrest⟩ := hcancel a List.mem_cons_self b List.mem_cons_self _ _ hsame
          obtain ⟨rfl, hend⟩ := later_append_inj hclose (fun a' ha b' hb =>
            hcancel a' (List.mem_cons_of_mem _ ha) b' (List.mem_cons_of_mem _ hb)) hrest
          exact ⟨rfl, hend⟩

end Commas

def memberChars (m : String × Json) : List Char := quote m.1 ++ ':' :: compactChars m.2

theorem compactItems_eq (items : List Json) : compactItems items = commaed compactChars items := by
  induction items with
  | nil => rfl
  | cons v rest ih =>
      cases rest with
      | nil => simp [compactItems, commaed]
      | cons w rest => simp [compactItems, commaed, ih]

theorem compactMembers_eq (members : List (String × Json)) :
    compactMembers members = commaed memberChars members := by
  induction members with
  | nil => rfl
  | cons m rest ih =>
      cases rest with
      | nil => simp [compactMembers, commaed, memberChars]
      | cons m' rest => simp [compactMembers, commaed, memberChars, ih]

theorem isNumberless_array (items : List Json) :
    (Json.array items).isNumberless ↔ ∀ v ∈ items, v.isNumberless := by
  rw [isNumberless]
  induction items with
  | nil => simp [areNumberless]
  | cons v rest ih => simp [areNumberless, ih]

theorem isNumberless_object (members : List (String × Json)) :
    (Json.object members).isNumberless ↔ ∀ m ∈ members, m.2.isNumberless := by
  rw [isNumberless]
  induction members with
  | nil => simp [haveNumberless]
  | cons m rest ih => simp [haveNumberless, ih]

inductive Opens : Json → Char → Prop
  | null : Opens .null 'n'
  | yes : Opens (.bool true) 't'
  | no : Opens (.bool false) 'f'
  | string (s : String) : Opens (.string s) '"'
  | array (items : List Json) : Opens (.array items) '['
  | object (members : List (String × Json)) : Opens (.object members) '\x7b'

theorem Opens.head? {v : Json} {c : Char} (hopens : Opens v c) (rest : List Char) :
    (compactChars v ++ rest).head? = some c := by
  cases hopens <;> simp [compactChars, quote]

theorem exists_opens {v : Json} (hv : v.isNumberless) : ∃ c, Opens v c := by
  cases v with
  | null => exact ⟨_, .null⟩
  | bool b =>
      cases b with
      | false => exact ⟨_, .no⟩
      | true => exact ⟨_, .yes⟩
  | number n => simp [isNumberless] at hv
  | string s => exact ⟨_, .string s⟩
  | array items => exact ⟨_, .array items⟩
  | object members => exact ⟨_, .object members⟩

/-- A value that stands in front of the same text starts with the same
character, and so is of the same kind. -/
theorem Opens.transfer {v w : Json} {c : Char} {r s : List Char} (hopens : Opens v c)
    (hw : w.isNumberless) (hsame : compactChars v ++ r = compactChars w ++ s) : Opens w c := by
  obtain ⟨d, hd⟩ := exists_opens hw
  have hhead := congrArg List.head? hsame
  rw [hopens.head?, hd.head?, Option.some_inj] at hhead
  exact hhead ▸ hd

/-- A value that can be cancelled from the front of a text. -/
def Told (v : Json) : Prop :=
  ∀ (w : Json) (r s : List Char), w.isNumberless →
    compactChars v ++ r = compactChars w ++ s → v = w ∧ r = s

theorem told_null : Told .null := by
  intro w r s hw hsame
  cases Opens.null.transfer hw hsame
  exact ⟨rfl, List.append_cancel_left hsame⟩

theorem told_bool (b : Bool) : Told (.bool b) := by
  intro w r s hw hsame
  cases b with
  | false =>
      cases Opens.no.transfer hw hsame
      exact ⟨rfl, List.append_cancel_left hsame⟩
  | true =>
      cases Opens.yes.transfer hw hsame
      exact ⟨rfl, List.append_cancel_left hsame⟩

theorem told_string (text : String) : Told (.string text) := by
  intro w r s hw hsame
  cases (Opens.string text).transfer hw hsame
  rw [compactChars, compactChars] at hsame
  obtain ⟨rfl, hrest⟩ := quote_append_inj hsame
  exact ⟨rfl, hrest⟩

theorem told_array {items : List Json} (hitems : ∀ v ∈ items, v.isNumberless)
    (htold : ∀ v ∈ items, Told v) : Told (.array items) := by
  intro w r s hw hsame
  cases (Opens.array items).transfer hw hsame with
  | array items' =>
      rw [isNumberless_array] at hw
      simp only [compactChars, compactItems_eq, List.cons_append, List.append_assoc,
        List.nil_append] at hsame
      have hopen : ∀ v ∈ items ++ items', ∀ t u, compactChars v ++ t ≠ ']' :: u := by
        intro v hv t u hstart
        obtain ⟨c, hc⟩ := exists_opens ((List.mem_append.mp hv).elim (hitems v) (hw v))
        have hhead := hc.head? t
        rw [hstart, List.head?_cons, Option.some_inj] at hhead
        subst hhead
        cases hc
      obtain ⟨rfl, hrest⟩ := commaed_append_inj (by decide) hopen
        (fun v hv v' hv' t u => htold v hv v' t u (hw v' hv')) (List.cons.inj hsame).2
      exact ⟨rfl, hrest⟩

theorem told_object {members : List (String × Json)} (htold : ∀ m ∈ members, Told m.2) :
    Told (.object members) := by
  intro w r s hw hsame
  cases (Opens.object members).transfer hw hsame with
  | object members' =>
      rw [isNumberless_object] at hw
      simp only [compactChars, compactMembers_eq, List.cons_append, List.append_assoc,
        List.nil_append] at hsame
      have hopen : ∀ m ∈ members ++ members', ∀ t u, memberChars m ++ t ≠ '\x7d' :: u := by
        intro m _ t u hstart
        simp [memberChars, quote] at hstart
      have hcancel : ∀ m ∈ members, ∀ m' ∈ members', ∀ t u,
          memberChars m ++ t = memberChars m' ++ u → m = m' ∧ t = u := by
        intro m hm m' hm' t u hstart
        simp only [memberChars, List.append_assoc, List.cons_append] at hstart
        obtain ⟨hname, hvalue⟩ := quote_append_inj hstart
        obtain ⟨hvalue, hrest⟩ := htold m hm m'.2 t u (hw m' hm') (List.cons.inj hvalue).2
        exact ⟨Prod.ext hname hvalue, hrest⟩
      obtain ⟨rfl, hrest⟩ := commaed_append_inj (by decide) hopen hcancel (List.cons.inj hsame).2
      exact ⟨rfl, hrest⟩

mutual

theorem told_of_isNumberless : ∀ v : Json, v.isNumberless → Told v
  | .null, _ => told_null
  | .bool b, _ => told_bool b
  | .number _, hv => by simp [isNumberless] at hv
  | .string text, _ => told_string text
  | .array items, hv =>
      told_array ((isNumberless_array items).mp hv) (told_of_areNumberless items hv)
  | .object members, hv => told_object (told_of_haveNumberless members hv)

theorem told_of_areNumberless : ∀ items : List Json, areNumberless items → ∀ v ∈ items, Told v
  | [], _, _, hv => absurd hv List.not_mem_nil
  | first :: rest, hitems, v, hv => by
      rw [areNumberless, Bool.and_eq_true] at hitems
      -- the equation is kept, since the recursion is on the head of the list
      rcases List.mem_cons.mp hv with hfirst | hrest
      · exact hfirst ▸ told_of_isNumberless first hitems.1
      · exact told_of_areNumberless rest hitems.2 v hrest

theorem told_of_haveNumberless :
    ∀ members : List (String × Json), haveNumberless members → ∀ m ∈ members, Told m.2
  | [], _, _, hm => absurd hm List.not_mem_nil
  | (name, value) :: rest, hmembers, m, hm => by
      rw [haveNumberless, Bool.and_eq_true] at hmembers
      rcases List.mem_cons.mp hm with rfl | hrest
      · exact told_of_isNumberless value hmembers.1
      · exact told_of_haveNumberless rest hmembers.2 m hrest

end

/-- The compact text of a value without numbers tells the value. -/
theorem compact_inj {v w : Json} (hv : v.isNumberless) (hw : w.isNumberless)
    (hsame : v.compact = w.compact) : v = w := by
  have hchars : compactChars v ++ [] = compactChars w ++ [] := by
    rw [List.append_nil, List.append_nil]
    exact String.ofList_injective hsame
  exact (told_of_isNumberless v hv w [] [] hw hchars).1

end WebAudit.Json
