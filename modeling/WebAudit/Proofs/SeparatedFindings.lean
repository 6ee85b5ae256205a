import WebAudit.Proofs.FindingIdentity
import WebAudit.Proofs.JsonTexts
import WebAudit.Proofs.PackageSeverity
import WebAudit.Proofs.RepeatedKeys
import WebAudit.Proofs.TextCuts

/-!
The report order tells findings apart. Severity, key, message and details are
compared as they are; the payload is compared by its JSON text. The JSON form
of a payload tells the payload, although members without a value are left out,
since each member has a name of its own and its place in the list. So the text
tells the payload where the text of a JSON value tells the value, that is,
where no score is written. What is left is the place, which the key gives as one
text: it tells the path of a file, and name and version of a package whose
version has no `@` in it.
-/

namespace WebAudit

open Std Function

theorem Json.string_injective : Injective Json.string := fun _ _ hsame => Json.string.inj hsame

theorem Json.single_injective : Injective fun s => Json.number (.single s) :=
  fun _ _ hsame => JsonNumber.single.inj (Json.number.inj hsame)

def Lacks (name : String) (members : List (String × Json)) : Prop := ∀ m ∈ members, m.1 ≠ name

section Lacks

variable {name : String}

@[simp]
theorem lacks_nil : Lacks name [] := fun _ hm => absurd hm List.not_mem_nil

@[simp]
theorem lacks_cons {m : String × Json} {rest : List (String × Json)} :
    Lacks name (m :: rest) ↔ m.1 ≠ name ∧ Lacks name rest :=
  List.forall_mem_cons

@[simp]
theorem lacks_append {front rest : List (String × Json)} :
    Lacks name (front ++ rest) ↔ Lacks name front ∧ Lacks name rest :=
  List.forall_mem_append

@[simp]
theorem lacks_optional {other : String} {v : Option Json} :
    Lacks name (Advisory.optional other v) ↔ v = none ∨ other ≠ name := by
  cases v <;> simp [Lacks, Advisory.optional]

end Lacks

namespace Advisory

/-- Whether a member was left out shows where its name is not used again. -/
theorem optional_append_inj {name : String} {v v' : Option Json} {rest rest' : List (String × Json)}
    (hrest : Lacks name rest) (hrest' : Lacks name rest')
    (hsame : optional name v ++ rest = optional name v' ++ rest') : v = v' ∧ rest = rest' := by
  cases v with
  | none =>
      cases v' with
      | none => exact ⟨rfl, hsame⟩
      | some w' =>
          obtain rfl : rest = (name, w') :: rest' := hsame
          exact absurd rfl (lacks_cons.mp hrest).1
  | some w =>
      cases v' with
      | none =>
          obtain rfl : (name, w) :: rest = rest' := hsame
          exact absurd rfl (lacks_cons.mp hrest').1
      | some w' =>
          obtain ⟨hmember, hrest⟩ := List.cons.inj hsame
          exact ⟨congrArg some (Prod.mk.inj hmember).2, hrest⟩

theorem optional_injective (name : String) : Injective (optional name) := by
  intro v v' hsame
  have happend : optional name v ++ [] = optional name v' ++ [] := by rw [hsame]
  exact (optional_append_inj lacks_nil lacks_nil happend).1

theorem forall_mem_optional {name : String} {v : Option Json} {P : String × Json → Prop} :
    (∀ m ∈ optional name v, P m) ↔ ∀ w ∈ v, P (name, w) := by
  cases v <;> simp [optional]

def listed {α : Type} (write : α → Json) (items : List α) : Option Json :=
  if items.isEmpty then none else some (.array (items.map write))

theorem listed_injective {α : Type} {write : α → Json} (hwrite : Injective write) :
    Injective (listed write) := by
  intro as bs hsame
  cases as with
  | nil =>
      cases bs with
      | nil => rfl
      | cons b bs => exact nomatch hsame
  | cons a as =>
      cases bs with
      | nil => exact nomatch hsame
      | cons b bs =>
          exact List.map_injective_iff.mpr hwrite (Json.array.inj (Option.some.inj hsame))

theorem isNumberless_of_mem_listed {α : Type} {write : α → Json} {items : List α}
    (hitems : ∀ a ∈ items, (write a).isNumberless) :
    ∀ w ∈ listed write items, w.isNumberless := by
  intro w hw
  unfold listed at hw
  split at hw
  · exact nomatch hw
  · obtain rfl := Option.some.inj hw
    rw [Json.isNumberless_array, List.forall_mem_map]
    exact hitems

theorem texts_eq (name : String) (items : List String) :
    texts name items = optional name (listed .string items) := by
  cases items <;> rfl

theorem toJson_injective : Injective toJson := by
  intro a b hsame
  simp only [toJson, texts_eq, List.append_assoc, List.cons_append, List.nil_append,
    Json.object.injEq, List.cons.injEq, Prod.mk.injEq, Json.string.injEq, true_and] at hsame
  obtain ⟨hid, hsame⟩ := hsame
  obtain ⟨haliases, hsame⟩ := optional_append_inj (by simp) (by simp) hsame
  simp only [List.cons.injEq, Prod.mk.injEq, Json.string.injEq, true_and] at hsame
  obtain ⟨hsummary, hsame⟩ := hsame
  obtain ⟨hscore, hsame⟩ := optional_append_inj (by simp) (by simp) hsame
  have hscore : a.score = b.score := Option.map_injective Json.single_injective hscore
  have haliases : a.aliases = b.aliases := listed_injective Json.string_injective haliases
  have hranges : a.ranges = b.ranges :=
    listed_injective Json.string_injective (optional_injective _ hsame)
  cases a
  cases b
  simp_all

theorem isNumberless_toJson {a : Advisory} (hscore : a.score = none) : a.toJson.isNumberless := by
  have htexts : ∀ items : List String, ∀ w ∈ listed Json.string items, w.isNumberless :=
    fun items => isNumberless_of_mem_listed fun _ _ => rfl
  rw [toJson, Json.isNumberless_object, hscore]
  simp only [texts_eq, List.forall_mem_append, List.forall_mem_singleton, forall_mem_optional]
  exact ⟨⟨⟨⟨rfl, htexts a.aliases⟩, rfl⟩, nofun⟩, htexts a.ranges⟩

end Advisory

namespace DependencyReport

theorem members_eq (r : DependencyReport) :
    r.members =
      ("ecosystem", .string r.ecosystem) :: ("manifest", .string r.manifest.text) ::
        (Advisory.optional "vulnerabilities" (Advisory.listed Advisory.toJson r.advisories) ++
          (Advisory.optional "max_score" (r.maxScore.map fun s => .number (.single s)) ++
            ("max_severity", .string r.maxSeverity.name) ::
              Advisory.optional "error" (r.error.map .string))) := by
  unfold members
  cases r.advisories <;> simp [Advisory.optional, Advisory.listed]

theorem members_injective : Injective members := by
  intro r r' hsame
  simp only [members_eq, List.cons.injEq, Prod.mk.injEq, Json.string.injEq, true_and] at hsame
  obtain ⟨hecosystem, hmanifest, hsame⟩ := hsame
  obtain ⟨hadvisories, hsame⟩ := Advisory.optional_append_inj (by simp) (by simp) hsame
  obtain ⟨hscore, hsame⟩ := Advisory.optional_append_inj (by simp) (by simp) hsame
  simp only [List.cons.injEq, Prod.mk.injEq, Json.string.injEq, true_and] at hsame
  obtain ⟨hseverity, herror⟩ := hsame
  have hpath : r.manifest = r'.manifest := congrArg Path.mk hmanifest
  have hlist : r.advisories = r'.advisories :=
    Advisory.listed_injective Advisory.toJson_injective hadvisories
  have hworst : r.maxScore = r'.maxScore := Option.map_injective Json.single_injective hscore
  have hname : r.maxSeverity = r'.maxSeverity := Severity.name_injective hseverity
  have hreason : r.error = r'.error :=
    Option.map_injective Json.string_injective (Advisory.optional_injective _ herror)
  cases r
  cases r'
  simp_all

end DependencyReport

namespace Payload

theorem toJson_injective : Injective toJson := by
  intro p q hsame
  cases p <;> cases q <;> simp [toJson, DependencyReport.members_injective.eq_iff] at hsame ⊢
  all_goals exact hsame

/-- A payload without a number that is written with a point: neither a measured
entropy nor a score, of the dependency or of one of its advisories. -/
def IsUnscored : Payload → Prop
  | .entropy _ _ => False
  | .dependency report => report.maxScore = none ∧ ∀ a ∈ report.advisories, a.score = none
  | _ => True

theorem isNumberless_toJson {p : Payload} (hp : p.IsUnscored) : p.toJson.isNumberless := by
  cases p with
  | entropy bits length => exact hp.elim
  | dependency report =>
      obtain ⟨hscore, hadvisories⟩ := hp
      have hlist : ∀ w ∈ Advisory.listed Advisory.toJson report.advisories, w.isNumberless :=
        Advisory.isNumberless_of_mem_listed fun a ha =>
          Advisory.isNumberless_toJson (hadvisories a ha)
      have herror : ∀ w ∈ report.error.map Json.string, w.isNumberless := by
        intro w hw
        obtain ⟨text, -, rfl⟩ := Option.map_eq_some_iff.mp hw
        rfl
      rw [toJson, DependencyReport.members_eq, hscore, Json.isNumberless_object]
      simp only [List.forall_mem_cons, List.forall_mem_append, Advisory.forall_mem_optional]
      exact ⟨rfl, rfl, rfl, hlist, nofun, rfl, herror⟩
  | empty => rfl
  | pattern matched => rfl
  | library name => rfl
  | endpoint keyword route => rfl

end Payload

namespace Location

inductive Legible : Location → Location → Prop
  | files (path path' : Path) (line line' : Option Nat) :
      Legible (.file path line) (.file path' line')
  | packages (name name' : String) {version version' : String} (hversion : '@' ∉ version.toList)
      (hversion' : '@' ∉ version'.toList) :
      Legible (.package name version) (.package name' version')

/-- A version without an `@` starts behind the last one. -/
theorem versioned_inj {name name' version version' : String} (hversion : '@' ∉ version.toList)
    (hversion' : '@' ∉ version'.toList)
    (hsame : name ++ "@" ++ version = name' ++ "@" ++ version') :
    name = name' ∧ version = version' := by
  have hreversed : version.toList.reverse ++ '@' :: name.toList.reverse =
      version'.toList.reverse ++ '@' :: name'.toList.reverse := by
    simpa using congrArg (fun s => s.toList.reverse) hsame
  have hcut := Text.cut_mark (mt List.mem_reverse.mp hversion) name.toList.reverse
  have hcut' := Text.cut_mark (mt List.mem_reverse.mp hversion') name'.toList.reverse
  have hend : version.toList.reverse = version'.toList.reverse := by
    rw [← hcut, hreversed, hcut']
  rw [hend] at hreversed
  have hstart := (List.cons.inj (List.append_cancel_left hreversed)).2
  exact ⟨String.toList_inj.mp (List.reverse_injective hstart),
    String.toList_inj.mp (List.reverse_injective hend)⟩

theorem eq_of_key_eq {l l' : Location} (hlegible : Legible l l') (hkey : l.key = l'.key)
    (hline : l.line? = l'.line?) : l = l' := by
  cases hlegible with
  | files path path' line line' =>
      obtain rfl : line = line' := hline
      exact congrArg (fun text => Location.file ⟨text⟩ line) hkey
  | packages name name' hversion hversion' =>
      obtain ⟨rfl, rfl⟩ := versioned_inj hversion hversion' hkey
      rfl

end Location

namespace Finding

theorem eq_of_order_eq {f g : Finding} (hsync : f.InSync) (hsync' : g.InSync)
    (hlegible : f.location.Legible g.location) (hf : f.payload.IsUnscored)
    (hg : g.payload.IsUnscored) (horder : f.order g = .eq) : f = g := by
  obtain ⟨hcategory, hkind, hplace, hline⟩ := (key_eq_iff f g).mp (key_eq_of_order_eq horder)
  rw [order_eq_then_key] at horder
  simp only [Ordering.then_eq_eq] at horder
  obtain ⟨hseverity, -, hmessage, hdetails, hpayload⟩ := horder
  have hlocation : f.location = g.location := Location.eq_of_key_eq hlegible hplace hline
  have hpayload : f.payload = g.payload :=
    Payload.toJson_injective (Json.compact_inj (Payload.isNumberless_toJson hf)
      (Payload.isNumberless_toJson hg) (LawfulEqCmp.eq_of_compare hpayload))
  have hseverity : f.severity = g.severity :=
    (Severity.rank_injective (Nat.compare_eq_eq.mp hseverity)).symm
  have hmessage : f.message = g.message := LawfulEqCmp.eq_of_compare hmessage
  have hdetails : f.details = g.details := LawfulEqCmp.eq_of_compare hdetails
  -- the identifier follows from what has been compared already
  have hid : f.id = g.id := by rw [hsync, hsync', hcategory, hkind, hlocation]
  cases f
  cases g
  simp_all

/-- The report order is a total preorder on all findings. Whatever was done to
two findings in places that can be told by their texts, they compare equal only if
they are identical, unless a score or an entropy is among what they carry. -/
theorem report_order_separates (a b c : Finding) (h h' : History) :
    a.order a = .eq ∧
    b.order a = (a.order b).swap ∧
    ((a.order b).isLE → (b.order c).isLE → (a.order c).isLE) ∧
    (h.finding.location.Legible h'.finding.location →
      h.finding.payload.IsUnscored → h'.finding.payload.IsUnscored →
      (h.finding.order h'.finding = .eq ↔ h.finding = h'.finding)) := by
  refine ⟨ReflCmp.compare_self, OrientedCmp.eq_swap, TransCmp.isLE_trans, ?_⟩
  intro hlegible hpayload hpayload'
  constructor
  · exact eq_of_order_eq h.inSync h'.inSync hlegible hpayload hpayload'
  · intro hsame
    rw [hsame]
    exact ReflCmp.compare_self

end Finding

end WebAudit
