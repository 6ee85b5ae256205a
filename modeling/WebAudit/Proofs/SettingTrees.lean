import WebAudit.Proofs.NamedEntries
import WebAudit.Settings.Layers

/-!
Trees of settings and what becomes of a value when a layer is laid over them. A
map that gives no name twice is laid over another one name by name; a value that
is no map takes the place of whatever was there. All trees that the library
builds give each name once, as far down as the settings go.
-/

namespace WebAudit

namespace Setting

mutual

def same : Setting → Setting → Bool
  | .text a, .text b => a == b
  | .letter a, .letter b => a == b
  | .flag a, .flag b => a == b
  | .signed a, .signed b => a == b
  | .unsigned a, .unsigned b => a == b
  | .float a, .float b => a == b
  | .list a, .list b => sameItems a b
  | .map a, .map b => sameEntries a b
  | _, _ => false

def sameItems : List Setting → List Setting → Bool
  | [], [] => true
  | a :: as, b :: bs => same a b && sameItems as bs
  | _, _ => false

def sameEntries : List (String × Setting) → List (String × Setting) → Bool
  | [], [] => true
  | (n, a) :: as, (k, b) :: bs => n == k && same a b && sameEntries as bs
  | _, _ => false

end

mutual

theorem same_iff : ∀ a b : Setting, same a b = true ↔ a = b
  | .list a, b => by cases b <;> simp [same, sameItems_iff a]
  | .map a, b => by cases b <;> simp [same, sameEntries_iff a]
  | .text _, b | .letter _, b | .flag _, b | .signed _, b | .unsigned _, b | .float _, b => by
      cases b <;> simp [same]

theorem sameItems_iff : ∀ as bs : List Setting, sameItems as bs = true ↔ as = bs
  | [], bs => by cases bs <;> simp [sameItems]
  | a :: as, bs => by cases bs <;> simp [sameItems, same_iff a, sameItems_iff as]

theorem sameEntries_iff :
    ∀ as bs : List (String × Setting), sameEntries as bs = true ↔ as = bs
  | [], bs => by cases bs <;> simp [sameEntries]
  | (n, a) :: as, bs => by
      rcases bs with - | ⟨⟨k, b⟩, bs⟩ <;>
        simp [sameEntries, same_iff a, sameEntries_iff as, and_assoc]

end

instance : DecidableEq Setting := fun a b => decidable_of_iff (same a b = true) (same_iff a b)

def isMap : Setting → Bool
  | .map _ => true
  | _ => false

theorem isMap_iff (v : Setting) : v.isMap ↔ ∃ entries, v = .map entries := by
  cases v <;> simp [isMap]

/-- What becomes of a value that is there, or not, under one that is given, or
not. -/
def overlaid : Option Setting → Option Setting → Option Setting
  | old, none => old
  | none, some v => some v
  | some old, some v => some (overlay old v)

@[simp]
theorem overlaid_none_right (old : Option Setting) : overlaid old none = old := by
  cases old <;> rfl

@[simp]
theorem overlaid_none_left (new : Option Setting) : overlaid none new = new := by
  cases new <;> rfl

/-- Anything but a map replaces what is there. -/
theorem overlay_of_not_map {v : Setting} (old : Setting) (hv : v.isMap = false) :
    overlay old v = v := by
  cases v <;> simp_all [overlay, isMap]

theorem overlaid_of_not_map {v : Setting} (old : Option Setting) (hv : v.isMap = false) :
    overlaid old (some v) = some v := by
  cases old with
  | none => rfl
  | some o => rw [overlaid, overlay_of_not_map o hv]

/-- Under a map there is a map. -/
theorem isMap_overlay (old v : Setting) : (overlay old v).isMap = v.isMap := by
  cases v with
  | map entries => cases old <;> simp [overlay, isMap]
  | _ => simp [overlay]

theorem overlayEntries_cons (base : List (String × Setting)) (name : String) (value : Setting)
    (rest : List (String × Setting)) :
    ∃ joined, overlaid (base.lookup name) (some value) = some joined ∧
      overlayEntries base ((name, value) :: rest) =
        overlayEntries (putNamed name joined base) rest := by
  simp only [overlayEntries, put_eq]
  cases base.lookup name with
  | none => exact ⟨value, rfl, rfl⟩
  | some old => exact ⟨overlay old value, rfl, rfl⟩

/-- Entries are laid over others name by name. -/
theorem lookup_overlayEntries (base : List (String × Setting))
    {entries : List (String × Setting)} (hnodup : (entries.map Prod.fst).Nodup) (name : String) :
    (overlayEntries base entries).lookup name =
      overlaid (base.lookup name) (entries.lookup name) := by
  induction entries generalizing base with
  | nil => simp [overlayEntries]
  | cons first rest ih =>
      obtain ⟨n, value⟩ := first
      obtain ⟨hfresh, hrest⟩ := List.nodup_cons.mp hnodup
      obtain ⟨joined, hjoined, hentries⟩ := overlayEntries_cons base n value rest
      rw [hentries, ih _ hrest, lookup_putNamed, lookup_cons_ite]
      by_cases hname : name = n
      · subst hname
        rw [if_pos rfl, if_pos rfl, lookup_eq_none_iff_not_mem.mpr hfresh, overlaid_none_right,
          hjoined]
      · rw [if_neg hname, if_neg hname]

/-- A map gives a map above anything, which has each name of it laid over what was
there, if anything was. -/
theorem exists_overlaid_map (lower : Option Setting) {entries : List (String × Setting)}
    (hnodup : (entries.map Prod.fst).Nodup) :
    ∃ joined old : List (String × Setting),
      overlaid lower (some (.map entries)) = some (.map joined) ∧
        ∀ name, joined.lookup name = overlaid (old.lookup name) (entries.lookup name) := by
  have halone : ∀ name, entries.lookup name =
      overlaid (([] : List (String × Setting)).lookup name) (entries.lookup name) :=
    fun name => (overlaid_none_left _).symm
  cases lower with
  | none => exact ⟨entries, [], rfl, halone⟩
  | some v =>
      cases v with
      | map base =>
          refine ⟨_, base, ?_, lookup_overlayEntries base hnodup⟩
          rw [overlaid, overlay]
      | _ =>
          refine ⟨entries, [], ?_, halone⟩
          rw [overlaid, overlay]
          simp

theorem nodup_overlayEntries {base : List (String × Setting)}
    (entries : List (String × Setting)) (hnodup : (base.map Prod.fst).Nodup) :
    ((overlayEntries base entries).map Prod.fst).Nodup := by
  induction entries generalizing base with
  | nil => simpa [overlayEntries] using hnodup
  | cons first rest ih =>
      obtain ⟨joined, -, hentries⟩ := overlayEntries_cons base first.1 first.2 rest
      rw [hentries]
      exact ih (nodup_putNamed hnodup)

theorem mem_names_overlayEntries (base entries : List (String × Setting)) (n : String) :
    n ∈ (overlayEntries base entries).map Prod.fst ↔
      n ∈ base.map Prod.fst ∨ n ∈ entries.map Prod.fst := by
  induction entries generalizing base with
  | nil => simp [overlayEntries]
  | cons first rest ih =>
      obtain ⟨joined, -, hentries⟩ := overlayEntries_cons base first.1 first.2 rest
      rw [hentries, ih, mem_names_putNamed, List.map_cons, List.mem_cons, or_left_comm, or_assoc]

structure Distinct (entries : List (String × Setting)) : Prop where
  names : (entries.map Prod.fst).Nodup
  inner : ∀ name m, entries.lookup name = some (.map m) → (m.map Prod.fst).Nodup

theorem Distinct.nil : Distinct [] := ⟨List.nodup_nil, by simp⟩

/-- A map laid over an old one gives no name twice if neither of them does. -/
theorem nodup_of_overlaid {old : Option Setting} {value : Setting}
    (hold : ∀ m, old = some (.map m) → (m.map Prod.fst).Nodup)
    (hvalue : ∀ m, value = .map m → (m.map Prod.fst).Nodup) {m : List (String × Setting)}
    (hm : overlaid old (some value) = some (.map m)) : (m.map Prod.fst).Nodup := by
  cases old with
  | none => exact hvalue m (Option.some.inj hm)
  | some o =>
      have hoverlay : overlay o value = .map m := Option.some.inj hm
      cases value with
      | map entries =>
          cases o with
          | map base =>
              rw [overlay] at hoverlay
              cases hoverlay
              exact nodup_overlayEntries entries (hold base rfl)
          | _ =>
              rw [overlay] at hoverlay
              exacts [hvalue m hoverlay, by simp]
      | _ => simp [overlay] at hoverlay

theorem Distinct.overlayEntries {base : List (String × Setting)} (hbase : Distinct base)
    {entries : List (String × Setting)} (hentries : Distinct entries) :
    Distinct (overlayEntries base entries) where
  names := nodup_overlayEntries entries hbase.names
  inner name m hm := by
    rw [lookup_overlayEntries base hentries.names] at hm
    cases hlookup : entries.lookup name with
    | none =>
        rw [hlookup, overlaid_none_right] at hm
        exact hbase.inner name m hm
    | some value =>
        rw [hlookup] at hm
        refine nodup_of_overlaid (hbase.inner name) (fun m hvalue => ?_) hm
        exact hentries.inner name m (hvalue ▸ hlookup)

end Setting

namespace Inline

/-- A map in one line gives no name twice. -/
theorem nodup_of_entries? {fuel : Nat} {found entries : List (String × Setting)}
    {cs rest : List Char} (hnodup : (found.map Prod.fst).Nodup)
    (hread : entries? fuel found cs = some (entries, rest)) :
    (entries.map Prod.fst).Nodup := by
  induction fuel generalizing found cs with
  | zero => simp [entries?] at hread
  | succ fuel ih =>
      have hput : ∀ name value, ((Setting.put name value found).map Prod.fst).Nodup := by
        intro name value
        rw [Setting.put_eq]
        exact nodup_putNamed hnodup
      unfold entries? at hread
      split at hread
      · cases hread
        exact hnodup
      repeat' split at hread
      · cases hread
      · exact ih (hput _ _) hread
      · cases hread
        exact hput _ _
      all_goals cases hread

theorem ofWord_isMap (word : List Char) : (ofWord word).isMap = false := by
  simp only [ofWord]
  repeat' split
  all_goals rfl

theorem nodup_of_value? {fuel : Nat} {cs rest : List Char} {m : List (String × Setting)}
    (hread : value? fuel cs = some (.map m, rest)) : (m.map Prod.fst).Nodup := by
  cases fuel with
  | zero => simp [value?] at hread
  | succ fuel =>
      unfold value? at hread
      obtain ⟨⟨v, left⟩, hvalue, heq⟩ := Option.map_eq_some_iff.mp hread
      obtain rfl : v = .map m := congrArg Prod.fst heq
      split at hvalue
      case h_3 =>
        obtain ⟨⟨entries, more⟩, hentries, hsame⟩ := Option.map_eq_some_iff.mp hvalue
        cases hsame
        have hnone : (([] : List (String × Setting)).map Prod.fst).Nodup := List.nodup_nil
        exact nodup_of_entries? hnone hentries
      case h_8 =>
        simp only [Option.some.injEq, Prod.mk.injEq] at hvalue
        have hword := congrArg Setting.isMap hvalue.1
        rw [ofWord_isMap] at hword
        cases hword
      all_goals simp at hvalue

end Inline

namespace Environment

open Setting

theorem nodup_of_ofLine {line : String} {m : List (String × Setting)}
    (hline : ofLine line = .map m) : (m.map Prod.fst).Nodup := by
  simp only [ofLine] at hline
  split at hline
  · rename_i v hread
    exact Inline.nodup_of_value? (hline ▸ hread)
  · cases hline

theorem nodup_of_nest {line : String} {names : List String} {m : List (String × Setting)}
    (hnest : nest (ofLine line) names = .map m) : (m.map Prod.fst).Nodup := by
  cases names with
  | nil => exact nodup_of_ofLine hnest
  | cons name rest =>
      cases hnest
      exact List.nodup_singleton name

/-- The layer of the environment gives each name once. -/
theorem settings_distinct (pairs : Environment) : Distinct pairs.settings := by
  have hstep : ∀ found : List (String × Setting), Distinct found →
      ∀ name line names,
        Distinct (overlayEntries found [(name, nest (ofLine line) names)]) := by
    intro found hfound name line names
    apply hfound.overlayEntries
    refine ⟨List.nodup_singleton name, ?_⟩
    intro other m hm
    rw [lookup_cons_ite] at hm
    split at hm
    · exact nodup_of_nest (Option.some.inj hm)
    · cases hm
  refine List.foldlRecOn pairs _ Distinct.nil fun found hfound pair _ => ?_
  dsimp only
  split
  · exact hstep found hfound _ _ _
  · exact hfound

end Environment

end WebAudit
