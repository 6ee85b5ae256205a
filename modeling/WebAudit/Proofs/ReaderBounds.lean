import Mathlib
import WebAudit.Proofs.TextCuts
import WebAudit.Script.Parse

/-!
Readers stay in the text that they read. A place is in a text if what is ahead
of it is what is left of the text behind its index. Readers are described by
triples: from a place in the text, a reader that succeeds has reached a place in
the text, and the calls in what it has built start before the end of the text.
The combinators keep this, so the grammar is a matter of going through its
constructs. Readers that only look ahead do not move, and a reader that needs a
token fails at the end, which is what puts the start of a call before it.
-/

set_option mvcgen.warning false

namespace WebAudit.Script

open Std.Do

structure Extent where
  text : List Char

variable {all : Extent}

namespace Place

/-- What is ahead of the place is what is left of the text. -/
def In (all : Extent) (s : Place) : Prop := s.rest = all.text.drop s.index

variable {s : Place}

theorem In.advance (hs : s.In all) (n : Nat) : (s.advance n).In all := by
  unfold In Place.advance at *
  rw [hs, List.drop_drop]

theorem In.index_lt (hs : s.In all) (hrest : s.rest ≠ []) : s.index < all.text.length := by
  rw [hs] at hrest
  by_contra hout
  exact hrest (List.drop_eq_nil_of_le (Nat.le_of_not_lt hout))

theorem skipGap_in (markup : Bool) (gap : Gap) (cs : List Char) (i : Nat)
    (hcs : cs = all.text.drop i) : (skipGap markup gap cs i).In all := by
  have htail : ∀ {c : Char} {cs : List Char} {i : Nat}, c :: cs = all.text.drop i →
      cs = all.text.drop (i + 1) := by
    intro c cs i hcs
    rw [← List.tail_drop, ← hcs, List.tail_cons]
  fun_induction skipGap markup gap cs i with
  | case1 => exact hcs
  | case2 c cs i _ ih => exact ih (htail hcs)
  | case3 c cs i _ gap _ ih => exact ih (htail hcs)
  | case4 => exact hcs
  | case5 c cs i ih => exact ih (htail hcs)
  | case6 => exact hcs
  | case7 c cs i _ ih => exact ih (htail hcs)
  | case8 c cs i ih => exact ih (htail hcs)
  | case9 star c cs i ih => exact ih (htail hcs)

theorem In.skip (hs : s.In all) : s.skip.In all := skipGap_in false .blank s.rest s.index hs

theorem In.skipToOperand (hs : s.In all) : s.skipToOperand.In all :=
  skipGap_in true .blank s.rest s.index hs

theorem In.word? {w : List Char} {t : Place} (hs : s.In all) (hword : s.word? = some (w, t)) :
    t.In all := by
  unfold Place.word? at hword
  split at hword
  · cases hword
  · split at hword
    · cases hword
    · split at hword
      · obtain ⟨-, rfl⟩ := Prod.mk.inj (Option.some.inj hword)
        exact hs.advance _
      · cases hword

theorem In.after? {lead : String} {rest : List Char} (hs : s.In all)
    (hafter : Text.after? lead.toList s.rest = some rest) :
    (Place.mk rest (s.index + lead.length)).In all := by
  have hrest : s.rest = lead.toList ++ rest := Text.after?_eq_some_iff.mp hafter
  have hadvance := hs.advance lead.toList.length
  rw [Place.advance, hrest, List.drop_left, String.length_toList] at hadvance
  exact hadvance

end Place

namespace Node

/-- The calls and constructions in a tree start before the end of the text. -/
def CallsIn (all : Extent) (n : Node) : Prop :=
  ∀ m ∈ n.preorder, m.kind = .call ∨ m.kind = .construct → m.start < all.text.length

theorem mem_preorderAll {m : Node} {ns : List Node} :
    m ∈ preorderAll ns ↔ ∃ n ∈ ns, m ∈ n.preorder := by
  induction ns with
  | nil => simp [preorderAll]
  | cons n rest ih => simp [preorderAll, ih]

@[grind =]
theorem callsIn_mk {kind : Kind} {role : Role} {start stop : Nat} {children : List Node} :
    (mk kind role start stop children).CallsIn all ↔
      (kind = .call ∨ kind = .construct → start < all.text.length) ∧
        ∀ c ∈ children, c.CallsIn all := by
  simp only [CallsIn, preorder, List.mem_cons, mem_preorderAll]
  constructor
  · intro hall
    exact ⟨hall _ (.inl rfl), fun c hc m hm => hall m (.inr ⟨c, hc, hm⟩)⟩
  · rintro ⟨hroot, hchildren⟩ m (rfl | ⟨c, hc, hm⟩)
    · exact hroot
    · exact hchildren c hc m hm

@[grind =]
theorem callsIn_withRole {n : Node} {role : Role} :
    (n.withRole role).CallsIn all ↔ n.CallsIn all := by
  obtain ⟨kind, _, start, stop, children⟩ := n
  exact callsIn_mk.trans callsIn_mk.symm

@[grind ←]
theorem CallsIn.withKind {n : Node} {kind : Kind} (hn : n.CallsIn all) (hcall : kind ≠ .call)
    (hconstruct : kind ≠ .construct) : (n.withKind kind).CallsIn all := by
  obtain ⟨_, role, start, stop, children⟩ := n
  exact callsIn_mk.mpr ⟨by simp [hcall, hconstruct], (callsIn_mk.mp hn).2⟩

end Node

class Built (α : Type) where
  callsIn : Extent → α → Prop

instance : Built Node := ⟨Node.CallsIn⟩

instance {α : Type} [Built α] : Built (List α) := ⟨fun all as => ∀ a ∈ as, Built.callsIn all a⟩

instance {α : Type} [Built α] : Built (Option α) := ⟨fun all a? => ∀ a ∈ a?, Built.callsIn all a⟩

instance : Built Unit := ⟨fun _ _ => True⟩

instance : Built Bool := ⟨fun _ _ => True⟩

instance : Built String := ⟨fun _ _ => True⟩

section Results

variable {α : Type} [Built α]

@[grind =]
theorem built_unit {u : Unit} : Built.callsIn all u ↔ True := .rfl

@[grind =]
theorem built_bool {b : Bool} : Built.callsIn all b ↔ True := .rfl

@[grind =]
theorem built_string {s : String} : Built.callsIn all s ↔ True := .rfl

@[grind =]
theorem built_node {n : Node} : Built.callsIn all n ↔ n.CallsIn all := .rfl

@[grind =]
theorem built_list {as : List α} : Built.callsIn all as ↔ ∀ a ∈ as, Built.callsIn all a := .rfl

@[grind =]
theorem built_option {a? : Option α} :
    Built.callsIn all a? ↔ ∀ a, a? = some a → Built.callsIn all a := .rfl

@[grind →]
theorem callsIn_of_mem_flatten {ass : List (List α)} {a : α} (hass : Built.callsIn all ass)
    (ha : a ∈ ass.flatten) : Built.callsIn all a := by
  obtain ⟨as, has, hmem⟩ := List.mem_flatten.mp ha
  exact hass as has a hmem

variable {n : Node}

@[grind →]
theorem callsIn_of_mem_toList {n? : Option Node} (hn? : Built.callsIn all n?)
    (hn : n ∈ n?.toList) : n.CallsIn all :=
  hn? n (Option.mem_toList.mp hn)

@[grind →]
theorem callsIn_of_mem_getD {ns? : Option (List Node)} (hns? : Built.callsIn all ns?)
    (hn : n ∈ ns?.getD []) : n.CallsIn all := by
  cases ns? with
  | none => cases hn
  | some ns => exact hns? ns rfl n hn

end Results

namespace Reader

variable {α : Type}

/-- A triple about a reader that may fail speaks of its successful runs. -/
theorem triple_iff {p : Reader α} {P : Place → Prop} {Q : α → Place → Prop} :
    ⦃fun s => ⌜P s⌝⦄ p ⦃⇓? a s => ⌜Q a s⌝⦄ ↔ ∀ s, P s → ∀ a t, p s = some (a, t) → Q a t := by
  have hwp : ∀ s, (wp⟦p⟧ (⇓? a s => ⌜Q a s⌝) s).down ↔ ∀ a t, p s = some (a, t) → Q a t := by
    intro s
    simp only [WP.wp, PredTrans.apply_pushArg, StateT.run]
    cases p s with
    | none => exact ⟨fun _ => nofun, fun _ => trivial⟩
    | some r => exact ⟨fun h a t hr => by cases hr; exact h, fun h => h _ _ rfl⟩
  constructor
  · intro h s hs
    exact (hwp s).mp (h s hs)
  · intro h s hs
    exact (hwp s).mpr (h s hs)

/-- From places in the text, the reader gets to places in the text and builds
what it should. -/
abbrev Stays (all : Extent) [Built α] (p : Reader α) : Prop :=
  ⦃fun s => ⌜s.In all⌝⦄ p ⦃⇓? a s => ⌜s.In all ∧ Built.callsIn all a⌝⦄

/-- The reader looks ahead and does not move. -/
abbrev Peeks (p : Reader α) (s : Place) : Prop :=
  ⦃fun t => ⌜t = s⌝⦄ p ⦃⇓? _ t => ⌜t = s⌝⦄

/-- The reader stays in every text that is all right for it, and does not succeed
at the end. -/
abbrev Takes [Built α] (Right : Extent → Prop) (p : Reader α) (s : Place) : Prop :=
  ⦃fun t => ⌜t = s⌝⦄ p ⦃⇓? a t => ⌜∀ all, Right all → s.In all →
    t.In all ∧ Built.callsIn all a ∧ s.index < all.text.length⌝⦄

theorem takes_of_stays [Built α] {Right : Extent → Prop} {p : Reader α}
    (hp : ∀ all, Right all → p.Stays all) (hend : ∀ i, p ⟨[], i⟩ = none) (s : Place) :
    p.Takes Right s := by
  refine triple_iff.mpr ?_
  rintro s rfl a t hrun all hright hs
  obtain ⟨ht, ha⟩ := triple_iff.mp (hp all hright) s hs a t hrun
  refine ⟨ht, ha, hs.index_lt ?_⟩
  intro hrest
  obtain ⟨rest, i⟩ := s
  obtain rfl : rest = [] := hrest
  rw [hend] at hrun
  cases hrun

section Steps

theorem failure_stays [Built α] : (failure : Reader α).Stays all := triple_iff.mpr nofun

@[spec]
theorem failure_spec {P : Place → Prop} :
    ⦃fun s => ⌜P s⌝⦄ (failure : Reader α) ⦃⇓? _ _ => ⌜False⌝⦄ :=
  triple_iff.mpr nofun

@[spec]
theorem require_spec (condition : Bool) (s : Place) :
    ⦃fun t => ⌜t = s⌝⦄ require condition ⦃⇓? _ t => ⌜t = s ∧ condition = true⌝⦄ := by
  mvcgen [require]
  all_goals grind

@[spec]
theorem place_spec (s : Place) : ⦃fun t => ⌜t = s⌝⦄ place ⦃⇓? r t => ⌜r = s ∧ t = s⌝⦄ := by
  mvcgen [place]

@[spec]
theorem skip_stays : skip.Stays all := by
  mvcgen [skip]
  grind [Place.In.skip]

@[spec]
theorem skipToOperand_stays : skipToOperand.Stays all := by
  mvcgen [skipToOperand]
  grind [Place.In.skipToOperand]

@[spec]
theorem advance_stays (n : Nat) : (advance n).Stays all := by
  mvcgen [advance]
  grind [Place.In.advance]

@[spec]
theorem start_spec :
    ⦃fun s => ⌜s.In all⌝⦄ start ⦃⇓? i s => ⌜s.In all ∧ i = s.index⌝⦄ := by
  mvcgen [start]
  all_goals grind

/-- A node may be built of any parts if it is no call, or starts in the text. -/
@[spec]
theorem node_stays (kind : Kind) (start : Nat) (children : List Node)
    (hstart : kind = .call ∨ kind = .construct → start < all.text.length)
    (hchildren : ∀ c ∈ children, c.CallsIn all) : (node kind start children).Stays all := by
  mvcgen [node]
  all_goals grind

@[spec]
theorem symbol_stays (t : String) : (symbol t).Stays all := by
  mvcgen [symbol]
  · rename_i s hs r rest hafter _ hplace
    obtain ⟨rfl, -⟩ := hplace
    exact ⟨hs.1.after? hafter, trivial⟩
  · exact nofun

end Steps

section Peeking

variable (s : Place)

@[spec]
theorem ahead_peeks : ahead.Peeks s := by
  mvcgen [ahead]
  all_goals grind

@[spec]
theorem peek_peeks : peek.Peeks s := by
  mvcgen [peek]
  all_goals grind

@[spec]
theorem sees_peeks (t : String) : (sees t).Peeks s := by
  mvcgen [sees]
  all_goals grind

@[spec]
theorem seesNot_peeks (t stops : String) : (seesNot t stops).Peeks s := by
  mvcgen [seesNot]
  all_goals grind

@[spec]
theorem peekWord_peeks : peekWord.Peeks s := by
  mvcgen [peekWord]
  all_goals grind

@[spec]
theorem seesWord_peeks (word : String) : (seesWord word).Peeks s := by
  mvcgen [seesWord]
  all_goals grind

@[spec]
theorem wouldRead_peeks (p : Reader α) : (wouldRead p).Peeks s := by
  refine triple_iff.mpr ?_
  rintro s rfl a t hrun
  exact (Prod.mk.inj (Option.some.inj hrun)).2.symm

end Peeking

section Words

theorem anyWord_stays : anyWord.Stays all := by
  mvcgen [anyWord]
  · rename_i s hs r w t hword _ hplace
    obtain ⟨rfl, -⟩ := hplace
    exact ⟨hs.skip.word? hword, trivial⟩
  · exact nofun

@[spec]
theorem anyWord_takes (s : Place) : anyWord.Takes (fun _ => True) s :=
  takes_of_stays (fun _ _ => anyWord_stays) (fun _ => rfl) s

theorem word_stays (w : String) : (word w).Stays all := by
  mvcgen [word]
  all_goals grind

@[spec]
theorem word_takes (w : String) (s : Place) : (word w).Takes (fun _ => True) s :=
  takes_of_stays (fun _ _ => word_stays w) (fun _ => rfl) s

@[spec]
theorem acceptWord_stays (w : String) : (acceptWord w).Stays all := by
  mvcgen [acceptWord]
  all_goals grind

theorem identifier_stays : identifier.Stays all := by
  mvcgen [identifier]
  all_goals grind

@[spec]
theorem identifier_takes (s : Place) : identifier.Takes (fun _ => True) s :=
  takes_of_stays (fun _ _ => identifier_stays) (fun _ => rfl) s

@[spec]
theorem accept_stays (t : String) : (accept t).Stays all := by
  mvcgen [accept]
  all_goals grind

end Words

section Combinators

variable [Built α] {p : Reader α}

@[spec]
theorem attempt_stays (hp : p.Stays all) : (attempt p).Stays all := by
  refine triple_iff.mpr ?_
  intro s hs a t hrun
  unfold attempt at hrun
  split at hrun
  · rename_i b u hb
    obtain ⟨rfl, rfl⟩ := Prod.mk.inj (Option.some.inj hrun)
    have hu := triple_iff.mp hp s hs b u hb
    exact ⟨hu.1, fun _ hmem => Option.some.inj hmem ▸ hu.2⟩
  · obtain ⟨rfl, rfl⟩ := Prod.mk.inj (Option.some.inj hrun)
    exact ⟨hs, nofun⟩

theorem manyFrom_stays (hp : p.Stays all) (fuel : Nat) (acc : List α) (s : Place)
    (hs : s.In all) (hacc : Built.callsIn all acc) (as : List α) (t : Place)
    (hrun : manyFrom p fuel acc s = some (as, t)) : t.In all ∧ Built.callsIn all as := by
  have hstop : ∀ {acc : List α} {s : Place}, s.In all → Built.callsIn all acc →
      some (acc.reverse, s) = some (as, t) → t.In all ∧ Built.callsIn all as := by
    rintro acc s hs hacc ⟨⟩
    exact ⟨hs, fun a ha => hacc a (List.mem_reverse.mp ha)⟩
  fun_induction manyFrom p fuel acc s with
  | case1 acc s => exact hstop hs hacc hrun
  | case2 fuel acc s _ => exact hstop hs hacc hrun
  | case3 fuel acc s b u _ _ => exact hstop hs hacc hrun
  | case4 fuel acc s b u hread _ ih =>
      obtain ⟨hu, hb⟩ := triple_iff.mp hp s hs b u hread
      exact ih hu (List.forall_mem_cons.mpr ⟨hb, hacc⟩) hrun

@[spec]
theorem many_stays (hp : p.Stays all) : (many p).Stays all := by
  refine triple_iff.mpr ?_
  intro s hs as t hrun
  exact manyFrom_stays hp _ [] s hs (List.forall_mem_nil _) as t hrun

@[spec]
theorem sepBy1_stays (separator : String) (hp : p.Stays all) :
    (sepBy1 separator p).Stays all := by
  mvcgen [sepBy1, hp]
  all_goals grind

@[spec]
theorem slots_stays (close : String) {lead : Reader (List α)} (hlead : lead.Stays all)
    (hp : p.Stays all) : (slots close lead p).Stays all := by
  mvcgen [slots, hlead, hp]
  all_goals grind

@[spec]
theorem items_stays (close : String) (hp : p.Stays all) : (items close p).Stays all := by
  mvcgen [items, hp]
  all_goals grind

end Combinators

section Literals

@[spec]
theorem markup_stays : markup.Stays all := by
  mvcgen [markup]
  all_goals grind

@[spec]
theorem skipMarkup_stays [Built α] : (skipMarkup : Reader (List α)).Stays all := by
  mvcgen [skipMarkup]
  all_goals grind

@[spec]
theorem string_stays : string.Stays all := by
  mvcgen [string]
  all_goals grind

@[spec]
theorem number_stays : number.Stays all := by
  mvcgen [number]
  all_goals grind

@[spec]
theorem regex_stays : regex.Stays all := by
  mvcgen [regex]
  all_goals grind

@[spec]
theorem templatePiece_stays {substitution : Reader Node} (hp : substitution.Stays all) :
    (templatePiece substitution).Stays all := by
  mvcgen [templatePiece, hp]
  all_goals grind

@[spec]
theorem template_stays {substitution : Reader Node} (hp : substitution.Stays all) :
    (template substitution).Stays all := by
  mvcgen [template, hp]
  all_goals grind

theorem privateName_stays : privateName.Stays all := by
  mvcgen [privateName]
  all_goals grind

@[spec]
theorem privateName_takes (s : Place) : privateName.Takes (fun _ => True) s :=
  takes_of_stays (fun _ _ => privateName_stays) (fun _ => rfl) s

end Literals

end Reader

end WebAudit.Script
