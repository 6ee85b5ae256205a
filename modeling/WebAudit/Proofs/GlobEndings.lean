import Mathlib.Data.List.Infix
import WebAudit.Ignore.Glob
import WebAudit.Proofs.TextCuts

/-!
Globs that end in a character without a meaning of its own. Whatever stands
before it, the reader of a glob either refuses the text or puts a literal at the
end of the tokens, and since tokens leave rests of a text only, such a glob
matches nothing but texts that end in the character.
-/

namespace WebAudit.Glob

theorem isSuffix_of_mem_afterSlashes {bs rest : List UInt8} (hrest : rest ∈ afterSlashes bs) :
    rest <:+ bs := by
  induction bs with
  | nil => cases hrest
  | cons b bs ih =>
      rw [afterSlashes] at hrest
      split at hrest
      · rcases List.mem_cons.mp hrest with rfl | hlater
        · exact List.suffix_cons b rest
        · exact (ih hlater).trans (List.suffix_cons b bs)
      · exact (ih hrest).trans (List.suffix_cons b bs)

theorem isSuffix_of_mem_withinComponent {bs rest : List UInt8}
    (hrest : rest ∈ withinComponent bs) : rest <:+ bs := by
  induction bs with
  | nil => simp_all [withinComponent]
  | cons b bs ih =>
      rw [withinComponent] at hrest
      rcases List.mem_cons.mp hrest with rfl | hlater
      · exact List.suffix_rfl
      · split at hlater
        · cases hlater
        · exact (ih hlater).trans (List.suffix_cons b bs)

theorem isSuffix_of_mem_suffixes {bs rest : List UInt8} (hrest : rest ∈ suffixes bs) :
    rest <:+ bs := by
  induction bs with
  | nil => simp_all [suffixes]
  | cons b bs ih =>
      rw [suffixes] at hrest
      rcases List.mem_cons.mp hrest with rfl | hlater
      · exact List.suffix_rfl
      · exact (ih hlater).trans (List.suffix_cons b bs)

theorem eq_append_of_bytesAfter? {lead bs rest : List UInt8}
    (hrest : bytesAfter? lead bs = some rest) : bs = lead ++ rest := by
  induction lead generalizing bs with
  | nil => exact Option.some.inj hrest
  | cons p ps ih =>
      cases bs with
      | nil => cases hrest
      | cons b bs =>
          rw [bytesAfter?] at hrest
          split at hrest
          · rename_i hsame
            rw [eq_of_beq hsame, ih hrest, List.cons_append]
          · cases hrest

theorem mem_of_mem_distinctRests {rests : List (List UInt8)} {rest : List UInt8}
    (hrest : rest ∈ distinctRests rests) : rest ∈ rests := by
  have hkept : ∀ items : List (Nat × List UInt8),
      (items.foldr (fun r seen => if seen.any fun s => s.1 == r.1 then seen else r :: seen)
        []).Sublist items := by
    intro items
    induction items with
    | nil => exact List.Sublist.slnil
    | cons item items ih =>
        rw [List.foldr_cons]
        split
        · exact ih.cons item
        · exact ih.cons_cons item
  obtain ⟨item, hitem, rfl⟩ := List.mem_map.mp hrest
  obtain ⟨rest, hmember, rfl⟩ := List.mem_map.mp ((hkept _).subset hitem)
  exact hmember

mutual

theorem isSuffix_of_mem_restsOf : ∀ (t : GlobToken) {bs rest : List UInt8},
    rest ∈ restsOf t bs → rest <:+ bs
  | .literal c, bs, rest, hrest => by
      rw [restsOf, Option.mem_toList] at hrest
      exact ⟨_, (eq_append_of_bytesAfter? hrest).symm⟩
  | .any, bs, rest, hrest => by
      cases bs with
      | nil => simp [restsOf] at hrest
      | cons b bs =>
          rw [restsOf] at hrest
          split at hrest
          · cases hrest
          · rw [List.mem_singleton.mp hrest]
            exact List.suffix_cons b bs
  | .run, bs, rest, hrest => isSuffix_of_mem_withinComponent (by rwa [restsOf] at hrest)
  | .anyDirectories, bs, rest, hrest => by
      rw [restsOf] at hrest
      rcases List.mem_cons.mp hrest with rfl | hlater
      · exact List.suffix_rfl
      · exact isSuffix_of_mem_afterSlashes hlater
  | .inside, bs, rest, hrest => by
      cases bs with
      | nil => simp [restsOf] at hrest
      | cons b bs =>
          rw [restsOf] at hrest
          split at hrest
          · exact (isSuffix_of_mem_suffixes hrest).trans (List.suffix_cons b bs)
          · cases hrest
  | .between, bs, rest, hrest => by
      cases bs with
      | nil => simp [restsOf] at hrest
      | cons b bs =>
          rw [restsOf] at hrest
          split at hrest
          · rcases List.mem_cons.mp hrest with rfl | hlater
            · exact List.suffix_cons b rest
            · exact (isSuffix_of_mem_afterSlashes hlater).trans (List.suffix_cons b bs)
          · cases hrest
  | .oneOf negated ranges, bs, rest, hrest => by
      cases bs with
      | nil => simp [restsOf] at hrest
      | cons b bs =>
          rw [restsOf] at hrest
          split at hrest
          · rw [List.mem_singleton.mp hrest]
            exact List.suffix_cons b bs
          · cases hrest
  | .alternatives branches, bs, rest, hrest => by
      rw [restsOf] at hrest
      split at hrest
      · rw [List.mem_singleton.mp hrest]
      · exact isSuffix_of_mem_restsOfAny branches hrest

theorem isSuffix_of_mem_restsOfAll : ∀ (ts : List GlobToken) {texts : List (List UInt8)}
    {rest : List UInt8}, rest ∈ restsOfAll ts texts → ∃ text ∈ texts, rest <:+ text
  | [], texts, rest, hrest => ⟨rest, by rwa [restsOfAll] at hrest, List.suffix_rfl⟩
  | t :: ts, texts, rest, hrest => by
      rw [restsOfAll] at hrest
      obtain ⟨middle, hmiddle, hsuffix⟩ := isSuffix_of_mem_restsOfAll ts hrest
      obtain ⟨text, htext, hrests⟩ := List.mem_flatMap.mp (mem_of_mem_distinctRests hmiddle)
      exact ⟨text, htext, hsuffix.trans (isSuffix_of_mem_restsOf t hrests)⟩

theorem isSuffix_of_mem_restsOfAny : ∀ (branches : List (List GlobToken)) {bs rest : List UInt8},
    rest ∈ restsOfAny branches bs → rest <:+ bs
  | [], bs, rest, hrest => by simp [restsOfAny] at hrest
  | branch :: more, bs, rest, hrest => by
      rw [restsOfAny] at hrest
      rcases List.mem_append.mp hrest with hfirst | hmore
      · split at hfirst
        · cases hfirst
        · obtain ⟨text, htext, hsuffix⟩ := isSuffix_of_mem_restsOfAll branch hfirst
          rwa [List.mem_singleton.mp htext] at hsuffix
      · exact isSuffix_of_mem_restsOfAny more hmore

end

theorem restsOfAll_append (ts us : List GlobToken) (texts : List (List UInt8)) :
    restsOfAll (ts ++ us) texts = restsOfAll us (restsOfAll ts texts) := by
  induction ts generalizing texts with
  | nil => rw [restsOfAll, List.nil_append]
  | cons t ts ih => rw [List.cons_append, restsOfAll, restsOfAll, ih]

/-- A glob with a literal at its end matches texts that end in it. -/
theorem isSuffix_of_accepts {g : Glob} {ts : List GlobToken} {c : Char} {bs : List UInt8}
    (htokens : g.tokens = ts ++ [.literal c]) (haccepts : g.accepts bs) :
    Text.utf8Bytes c <:+ bs := by
  have hrests : (restsOfAll (ts ++ [.literal c]) [bs]).contains [] = true := by
    unfold accepts at haccepts
    rw [htokens] at haccepts
    split at haccepts
    · rename_i halone
      have hlast := congrArg List.getLast? halone
      rw [List.getLast?_concat] at hlast
      cases hlast
    · exact haccepts
  rw [List.contains_iff_mem, restsOfAll_append, restsOfAll, restsOfAll] at hrests
  obtain ⟨text, htext, hliteral⟩ := List.mem_flatMap.mp (mem_of_mem_distinctRests hrests)
  obtain ⟨text', htext', hsuffix⟩ := isSuffix_of_mem_restsOfAll ts htext
  rw [restsOf, Option.mem_toList] at hliteral
  rw [eq_append_of_bytesAfter? hliteral, List.append_nil, List.mem_singleton.mp htext'] at hsuffix
  exact hsuffix

/-- A character that stands for itself wherever a glob ends. -/
def IsPlainEnd (c : Char) : Prop := c ∉ ['?', '*', '[', ']', '\x7b', '\x7d', ',', '/']

/-- A reader whose text ends in a character, or has just been read with the
character as its last token. -/
def Reader.EndsIn (c : Char) (r : Reader) : Prop :=
  r.rest.getLast? = some c ∨ r.rest = [] ∧ r.current.head? = some (.literal c)

theorem exists_of_classFrom {s : ClassState} {cs rest : List Char} {ranges : List (Char × Char)}
    (hclass : classFrom s cs = .ok (some (ranges, rest))) : ∃ front, cs = front ++ ']' :: rest := by
  induction cs generalizing s with
  | nil => cases hclass
  | cons c cs ih =>
      rw [classFrom] at hclass
      split at hclass
      · rename_i hend
        simp only [Except.ok.injEq, Option.some.injEq, Prod.mk.injEq] at hclass
        rw [eq_of_beq (Bool.and_eq_true_iff.mp hend).1, hclass.2]
        exact ⟨[], rfl⟩
      · split at hclass
        · obtain ⟨front, rfl⟩ := ih hclass
          exact ⟨c :: front, rfl⟩
        · cases hclass

theorem readClass_rest {lenient : Bool} {r next : Reader} (hclass : readClass lenient r = .ok next) :
    next.rest = r.rest ∨ ∃ front, r.rest = front ++ ']' :: next.rest := by
  unfold readClass at hclass
  split at hclass
  rename_i negated body hbody
  have hlead : ∃ lead, r.rest = lead ++ body := by
    split at hbody
    all_goals obtain ⟨-, rfl⟩ := Prod.mk.inj hbody
    · rename_i hrest
      exact ⟨['!'], hrest⟩
    · rename_i hrest
      exact ⟨['^'], hrest⟩
    · exact ⟨[], rfl⟩
  split at hclass
  · cases hclass
  · rename_i ranges rest hranges
    obtain rfl := Except.ok.inj hclass
    obtain ⟨lead, hlead⟩ := hlead
    obtain ⟨front, hfront⟩ := exists_of_classFrom hranges
    right
    exact ⟨lead ++ front, by rw [hlead, hfront, List.append_assoc]; rfl⟩
  · split at hclass
    · obtain rfl := Except.ok.inj hclass
      exact .inl rfl
    · cases hclass

theorem Reader.bump_rest {r : Reader} {x : Char} {rest : List Char} (hrest : r.rest = x :: rest) :
    r.bump.rest = rest := by
  rw [Reader.bump, hrest]

theorem readDoubleStar_rest (previous : Option Char) {r : Reader} {x : Char} {rest : List Char}
    (hrest : r.rest = x :: rest) :
    (readDoubleStar previous r).rest = r.rest ∨
      x = '/' ∧ (readDoubleStar previous r).rest = rest := by
  have hbump := Reader.bump_rest hrest
  unfold readDoubleStar
  simp only [hrest, List.head?_cons]
  split
  · split
    · rename_i hslash
      exact .inr ⟨by simpa using hslash, hbump⟩
    · exact .inl hrest
  · split
    · exact .inl hrest
    · split
      · rename_i hslash
        refine .inr ⟨eq_of_beq hslash, ?_⟩
        split <;> exact hbump
      · split
        · left
          split <;> simp [hrest]
        · exact .inl hrest

theorem IsPlainEnd.ne {c x : Char} (hc : IsPlainEnd c)
    (hx : x ∈ ['?', '*', '[', ']', '\x7b', '\x7d', ',', '/']) : x ≠ c :=
  fun hsame => hc (hsame ▸ hx)

theorem readDoubleStar_endsIn {c : Char} {previous : Option Char} {r : Reader}
    (hc : IsPlainEnd c) (hlast : r.rest.getLast? = some c) :
    (readDoubleStar previous r).rest.getLast? = some c ∧
      (readDoubleStar previous r).rest.length ≤ r.rest.length := by
  obtain ⟨x, rest, hrest⟩ : ∃ x rest, r.rest = x :: rest := by
    apply List.exists_cons_of_ne_nil
    rintro hnil
    simp [hnil] at hlast
  rcases readDoubleStar_rest previous hrest with hsame | ⟨rfl, hslash⟩
  · rw [hsame]
    exact ⟨hlast, Nat.le_refl _⟩
  · rw [hslash, hrest]
    rw [hrest] at hlast
    exact ⟨Text.getLast?_of_cons hlast (hc.ne (by simp)), by simp⟩

theorem readClass_endsIn {lenient : Bool} {c : Char} {r next : Reader} (hc : IsPlainEnd c)
    (hlast : r.rest.getLast? = some c) (hclass : readClass lenient r = .ok next) :
    next.rest.getLast? = some c ∧ next.rest.length ≤ r.rest.length := by
  rcases readClass_rest hclass with hsame | ⟨front, hfront⟩
  · rw [hsame]
    exact ⟨hlast, Nat.le_refl _⟩
  · rw [hfront] at hlast ⊢
    refine ⟨Text.getLast?_of_append_cons hlast (hc.ne (by simp)), ?_⟩
    rw [List.length_append, List.length_cons]
    omega

/-- A character that is read as a literal is either the end of the text or
stands before it. -/
theorem endsIn_of_literal {c x : Char} {rest : List Char} {r : Reader} (hrest : r.rest = rest)
    (hcurrent : r.current.head? = some (.literal x)) (hlast : (x :: rest).getLast? = some c) :
    r.EndsIn c := by
  cases rest with
  | nil =>
      obtain rfl : x = c := Option.some.inj hlast
      exact .inr ⟨hrest, hcurrent⟩
  | cons y rest =>
      rw [List.getLast?_cons_cons, ← hrest] at hlast
      exact .inl hlast

/-- A step of the reader keeps the end of the text in view: it stands ahead, or
it was read as a literal. -/
theorem step_endsIn {lenient : Bool} {c x : Char} {before : Option Char} {r next : Reader}
    (hc : IsPlainEnd c) (hlast : (x :: r.rest).getLast? = some c)
    (hstep : step lenient x before r = .ok next) :
    next.EndsIn c ∧ next.rest.length ≤ r.rest.length := by
  -- behind a character with a meaning of its own the text goes on
  have hgo : x ∈ ['?', '*', '[', ']', '\x7b', '\x7d', ',', '/'] → r.rest.getLast? = some c :=
    fun hx => Text.getLast?_of_cons hlast (hc.ne hx)
  unfold step at hstep
  split at hstep
  · obtain rfl := Except.ok.inj hstep
    exact ⟨.inl (hgo (by simp)), Nat.le_refl _⟩
  · split at hstep
    · rename_i hstar
      obtain rfl := Except.ok.inj hstep
      obtain ⟨rest, hrest⟩ := List.head?_eq_some_iff.mp (eq_of_beq hstar)
      have hbump := Reader.bump_rest hrest
      have hgo' := hgo (by simp)
      rw [hrest] at hgo'
      have hlast' : r.bump.rest.getLast? = some c := by
        rw [hbump]
        exact Text.getLast?_of_cons hgo' (hc.ne (by simp))
      obtain ⟨hends, hlength⟩ := readDoubleStar_endsIn hc hlast'
      refine ⟨.inl hends, Nat.le_trans hlength ?_⟩
      rw [hbump, hrest]
      simp
    · obtain rfl := Except.ok.inj hstep
      exact ⟨.inl (hgo (by simp)), Nat.le_refl _⟩
  · split at hstep
    · obtain rfl := Except.ok.inj hstep
      exact ⟨.inl (hgo (by simp)), Nat.le_refl _⟩
    · obtain ⟨hends, hlength⟩ := readClass_endsIn hc (hgo (by simp)) hstep
      exact ⟨.inl hends, hlength⟩
  · obtain rfl := Except.ok.inj hstep
    exact ⟨.inl (hgo (by simp)), Nat.le_refl _⟩
  · split at hstep
    · obtain rfl := Except.ok.inj hstep
      exact ⟨.inl (hgo (by simp)), Nat.le_refl _⟩
    · cases hstep
  · split at hstep
    · obtain rfl := Except.ok.inj hstep
      exact ⟨.inl (hgo (by simp)), Nat.le_refl _⟩
    · obtain rfl := Except.ok.inj hstep
      exact ⟨.inl (hgo (by simp)), Nat.le_refl _⟩
  · split at hstep
    · rename_i d rest hrest
      obtain rfl := Except.ok.inj hstep
      have hbump := Reader.bump_rest hrest
      rw [hrest, List.getLast?_cons_cons] at hlast
      refine ⟨endsIn_of_literal hbump rfl hlast, ?_⟩
      change r.bump.rest.length ≤ r.rest.length
      rw [hbump, hrest]
      simp
    · cases hstep
  · obtain rfl := Except.ok.inj hstep
    exact ⟨endsIn_of_literal rfl rfl hlast, Nat.le_refl _⟩

theorem readFrom_endsIn {lenient : Bool} {c : Char} (hc : IsPlainEnd c) {fuel : Nat}
    {r next : Reader} (hends : r.EndsIn c) (hfuel : r.rest.length ≤ fuel)
    (hread : readFrom lenient fuel r = .ok next) : next.current.head? = some (.literal c) := by
  induction fuel generalizing r with
  | zero =>
      obtain rfl := Except.ok.inj hread
      have hnil : r.rest = [] := List.length_eq_zero_iff.mp (Nat.le_zero.mp hfuel)
      rcases hends with hlast | ⟨-, hcurrent⟩
      · simp [hnil] at hlast
      · exact hcurrent
  | succ fuel ih =>
      rw [readFrom] at hread
      rcases hends with hlast | ⟨hnil, hcurrent⟩
      · split at hread
        · rename_i hnil
          simp [hnil] at hlast
        · rename_i x rest hrest
          split at hread
          · rename_i middle hstep
            have hbump := Reader.bump_rest hrest
            rw [hrest, ← hbump] at hlast
            obtain ⟨hends, hlength⟩ := step_endsIn hc hlast hstep
            apply ih hends _ hread
            rw [hrest, List.length_cons] at hfuel
            rw [hbump] at hlength
            omega
          · cases hread
      · rw [hnil] at hread
        obtain rfl := Except.ok.inj hread
        exact hcurrent

/-- A glob whose text ends in a plain character has a literal at its end. -/
theorem tokens_of_parse {lenient : Bool} {c : Char} {cs : List Char} {g : Glob}
    (hc : IsPlainEnd c) (hlast : cs.getLast? = some c) (hparse : parse lenient cs = .ok g) :
    ∃ ts, g.tokens = ts ++ [.literal c] := by
  unfold parse at hparse
  split at hparse
  · rename_i r hread
    split at hparse
    · obtain rfl := Except.ok.inj hparse
      have hcurrent := readFrom_endsIn hc (.inl hlast) (Nat.le_succ _) hread
      obtain ⟨more, hmore⟩ := List.head?_eq_some_iff.mp hcurrent
      exact ⟨more.reverse, by rw [hmore, List.reverse_cons]⟩
    · cases hparse
  · cases hparse

end WebAudit.Glob
