import WebAudit.Proofs.Composition

/-!
A registry after any registrations. One registration takes out what was there
under its name and adds a check at the end: it is what its name stands for from
then on, and all other names keep their checks and their order. So after a list
of registrations, of which the first are those of the settings, a name stands
for the check that was registered last under it, and the names stand in the
order of their last registrations.
-/

namespace WebAudit.Registry

def IsLatest (ds : List Detector) (name : String) (d : Detector) : Prop :=
  ∃ before after, ds = before ++ d :: after ∧ d.name = name ∧ ∀ e ∈ after, e.name ≠ name

/-- The last check with one name is followed by a check with another name. -/
def LastBefore (ds : List Detector) (a b : String) : Prop :=
  ∃ before d after, ds = before ++ d :: after ∧ d.name = a ∧ (∀ e ∈ after, e.name ≠ a) ∧
    ∃ e ∈ after, e.name = b

section Latest

variable {ds : List Detector} {name : String} {d : Detector}

theorem isLatest_cons_iff {first : Detector} :
    IsLatest (first :: ds) name d ↔
      IsLatest ds name d ∨ first = d ∧ d.name = name ∧ ∀ e ∈ ds, e.name ≠ name := by
  constructor
  · rintro ⟨before, after, hsplit, hname, hafter⟩
    cases before with
    | nil =>
        obtain ⟨rfl, rfl⟩ := List.cons.inj hsplit
        exact Or.inr ⟨rfl, hname, hafter⟩
    | cons c before =>
        obtain ⟨rfl, rfl⟩ := List.cons.inj hsplit
        exact Or.inl ⟨before, after, rfl, hname, hafter⟩
  · rintro (⟨before, after, rfl, hname, hafter⟩ | ⟨rfl, hname, hafter⟩)
    · exact ⟨first :: before, after, rfl, hname, hafter⟩
    · exact ⟨[], ds, rfl, hname, hafter⟩

theorem exists_isLatest (hregistered : ∃ e ∈ ds, e.name = name) : ∃ d, IsLatest ds name d := by
  induction ds with
  | nil => simp at hregistered
  | cons first rest ih =>
      by_cases hrest : ∃ e ∈ rest, e.name = name
      · obtain ⟨d, hd⟩ := ih hrest
        exact ⟨d, isLatest_cons_iff.mpr (Or.inl hd)⟩
      · obtain ⟨e, he, hname⟩ := hregistered
        have hfirst : e = first := by
          rcases List.mem_cons.mp he with hfirst | hlater
          · exact hfirst
          · exact absurd ⟨e, hlater, hname⟩ hrest
        have hnone : ∀ e ∈ rest, e.name ≠ name := fun e he hsame => hrest ⟨e, he, hsame⟩
        exact ⟨first, isLatest_cons_iff.mpr (Or.inr ⟨rfl, hfirst ▸ hname, hnone⟩)⟩

/-- Where names differ, the only check with a name is the last one. -/
theorem isLatest_iff_mem (hnames : (ds.map Detector.name).Nodup) :
    IsLatest ds name d ↔ d ∈ ds ∧ d.name = name := by
  constructor
  · rintro ⟨before, after, rfl, hname, -⟩
    exact ⟨by simp, hname⟩
  · rintro ⟨hd, hname⟩
    obtain ⟨before, after, rfl⟩ := List.append_of_mem hd
    refine ⟨before, after, rfl, hname, fun e he hsame => ?_⟩
    rw [List.map_append, List.map_cons] at hnames
    have hfresh := (List.nodup_cons.mp (List.nodup_append.mp hnames).2.1).1
    exact hfresh (hname.trans hsame.symm ▸ List.mem_map_of_mem he)

end Latest

section Registered

variable (r : Registry) (d : Detector)

/-- A registration decides what its name stands for, and nothing else. -/
theorem get?_register (name : String) :
    (r.register d).get? name = if d.name = name then some d else r.get? name := by
  rw [get?, register, List.find?_append]
  by_cases hname : d.name = name
  · subst hname
    have hgone : (r.detectors.filter fun e => e.name != d.name).find? (fun e => e.name == d.name) =
        none :=
      List.find?_eq_none.mpr fun e he => by simpa using (List.mem_filter.mp he).2
    rw [hgone]
    simp
  · have hkept : (r.detectors.filter fun e => e.name != d.name).find? (fun e => e.name == name) =
        r.get? name := by
      rw [List.find?_filter, get?]
      congr 1
      funext e
      by_cases he : e.name = name
      · simp [he, Ne.symm hname]
      · simp [he]
    rw [hkept]
    simp [hname]

theorem names_register : (r.register d).names = r.names.filter (· != d.name) ++ [d.name] := by
  simp [names, register, List.filter_map, Function.comp_def]

theorem names_register_nodup (hnames : r.names.Nodup) : (r.register d).names.Nodup := by
  rw [names_register, List.nodup_append]
  refine ⟨hnames.filter _, List.nodup_singleton _, ?_⟩
  intro a ha b hb hsame
  obtain rfl : b = d.name := List.mem_singleton.mp hb
  simp [hsame] at ha

/-- After some registrations a name stands for the last check registered under
it, or else for what it stood for before. -/
theorem get?_foldl_register (ds : List Detector) (name : String) (e : Detector) :
    (ds.foldl register r).get? name = some e ↔
      IsLatest ds name e ∨ (∀ d ∈ ds, d.name ≠ name) ∧ r.get? name = some e := by
  induction ds generalizing r with
  | nil => simp [IsLatest]
  | cons d rest ih =>
      rw [List.foldl_cons, ih, isLatest_cons_iff, get?_register, List.forall_mem_cons]
      by_cases hname : d.name = name
      · rw [if_pos hname, Option.some_inj]
        constructor
        · rintro (hrest | ⟨hnone, rfl⟩)
          · exact Or.inl (Or.inl hrest)
          · exact Or.inl (Or.inr ⟨rfl, hname, hnone⟩)
        · rintro ((hrest | ⟨rfl, -, hnone⟩) | ⟨⟨hother, -⟩, -⟩)
          · exact Or.inl hrest
          · exact Or.inr ⟨hnone, rfl⟩
          · exact absurd hname hother
      · rw [if_neg hname]
        constructor
        · rintro (hrest | ⟨hnone, hbefore⟩)
          · exact Or.inl (Or.inl hrest)
          · exact Or.inr ⟨⟨hname, hnone⟩, hbefore⟩
        · rintro ((hrest | ⟨rfl, hsame, -⟩) | ⟨⟨-, hnone⟩, hbefore⟩)
          · exact Or.inl hrest
          · exact absurd hsame hname
          · exact Or.inr ⟨hnone, hbefore⟩

end Registered

section History

variable {history : List Detector} {a b : String}

theorem LastBefore.concat {d : Detector} (hbefore : LastBefore history a b) (hname : d.name ≠ a) :
    LastBefore (history ++ [d]) a b := by
  obtain ⟨before, e, after, rfl, he, hafter, later, hlater, hb⟩ := hbefore
  have hstill : ∀ x ∈ after ++ [d], x.name ≠ a :=
    List.forall_mem_append.mpr ⟨hafter, List.forall_mem_singleton.mpr hname⟩
  exact ⟨before, e, after ++ [d], by simp, he, hstill, later, List.mem_append_left _ hlater, hb⟩

theorem lastBefore_concat {d : Detector} (ha : ∃ e ∈ history, e.name = a) (hname : d.name ≠ a) :
    LastBefore (history ++ [d]) a d.name := by
  obtain ⟨e, before, after, rfl, he, hafter⟩ := exists_isLatest ha
  have hstill : ∀ x ∈ after ++ [d], x.name ≠ a :=
    List.forall_mem_append.mpr ⟨hafter, List.forall_mem_singleton.mpr hname⟩
  exact ⟨before, e, after ++ [d], by simp, he, hstill, d, by simp, rfl⟩

/-- What every registry that starts out empty keeps to: its names are those that
were registered, each once, in the order of their last registrations. -/
structure Ordered (history : List Detector) (r : Registry) : Prop where
  registered : ∀ name, name ∈ r.names ↔ ∃ d ∈ history, d.name = name
  distinct : r.names.Nodup
  ordered : r.names.Pairwise (LastBefore history)

theorem Ordered.register {r : Registry} (hr : Ordered history r) (d : Detector) :
    Ordered (history ++ [d]) (r.register d) where
  registered name := by
    rw [names_register]
    by_cases hname : name = d.name
    · simp [hname]
    · simp [hname, Ne.symm hname, hr.registered]
  distinct := names_register_nodup r d hr.distinct
  ordered := by
    have hold : ∀ name ∈ r.names.filter (· != d.name), d.name ≠ name ∧ name ∈ r.names := by
      intro name hmem
      obtain ⟨hmem, hother⟩ := List.mem_filter.mp hmem
      exact ⟨Ne.symm (bne_iff_ne.mp hother), hmem⟩
    rw [names_register, List.pairwise_append]
    refine ⟨?_, List.pairwise_singleton _ _, ?_⟩
    · apply (hr.ordered.filter _).imp_of_mem
      intro a b ha _ hbefore
      exact hbefore.concat (hold a ha).1
    · intro a ha b hb
      obtain rfl : b = d.name := List.mem_singleton.mp hb
      obtain ⟨hother, hmem⟩ := hold a ha
      exact lastBefore_concat ((hr.registered a).mp hmem) hother

theorem ordered_foldl (ds : List Detector) : Ordered ds (ds.foldl Registry.register empty) := by
  -- a registration adds to the history at its end
  induction ds using List.reverseRecOn with
  | nil => exact ⟨by simp [names, empty], List.nodup_nil, List.Pairwise.nil⟩
  | append_singleton ds d ih =>
      rw [List.foldl_append]
      exact ih.register d

end History

/-- Where names differ, the checks of a registry are what its names stand for. -/
theorem filterMap_get?_names {r : Registry} (hnames : r.names.Nodup) :
    r.names.filterMap r.get? = r.detectors := by
  have hfound : ∀ d ∈ r.detectors, r.get? d.name = some d := by
    intro d hd
    cases hget : r.get? d.name with
    | none => exact absurd (List.find?_eq_none.mp hget d hd) (by simp)
    | some e =>
        rw [get?] at hget
        have hmem : e ∈ r.detectors := List.mem_of_find?_eq_some hget
        have hname := List.find?_some hget
        rw [List.inj_on_of_nodup_map hnames hmem hd (beq_iff_eq.mp hname)]
  rw [names, List.filterMap_map]
  exact (List.filterMap_congr hfound).trans List.filterMap_some

def enabled (settings : Settings) : List Detector :=
  (Detector.builtin settings).filter fun d => settings.detectors.isEnabled d.name

theorem get?_ofSettings_eq_some_iff (settings : Settings) (name : String) (d : Detector) :
    (ofSettings settings).get? name = some d ↔
      d ∈ Detector.builtin settings ∧ d.name = name ∧ settings.detectors.isEnabled name := by
  have hnames : ((enabled settings).map Detector.name).Nodup :=
    (builtin_names_nodup settings).sublist (List.filter_sublist.map Detector.name)
  have hempty : empty.get? name ≠ some d := nofun
  have hget : (ofSettings settings).get? name = some d ↔ IsLatest (enabled settings) name d :=
    (get?_foldl_register empty (enabled settings) name d).trans (or_iff_left fun h => hempty h.2)
  rw [hget, isLatest_iff_mem hnames, enabled, List.mem_filter]
  constructor
  · rintro ⟨⟨hd, hon⟩, rfl⟩
    exact ⟨hd, rfl, hon⟩
  · rintro ⟨hd, rfl, hon⟩
    exact ⟨⟨hd, hon⟩, rfl⟩

/-- After any registrations on top of those of the settings, names are distinct;
a name stands for the check registered last under it, or else for the built-in one
if that is switched on, or else for nothing; names stand in the order of their last
registrations; and a run concatenates what the checks find in this order. -/
theorem registrations_last_one_stands (settings : Settings) (ds : List Detector) :
    let r := ds.foldl register (ofSettings settings)
    r.names.Nodup ∧
    (∀ name d, r.get? name = some d ↔
      IsLatest ds name d ∨ (∀ e ∈ ds, e.name ≠ name) ∧
        d ∈ Detector.builtin settings ∧ d.name = name ∧ settings.detectors.isEnabled name) ∧
    (∀ name, name ∈ r.names ↔ ∃ d ∈ enabled settings ++ ds, d.name = name) ∧
    r.names.Pairwise (LastBefore (enabled settings ++ ds)) ∧
    ∀ ctx, r.run ctx = (r.names.filterMap r.get?).flatMap fun d => d.detect ctx := by
  intro r
  have hr : Ordered (enabled settings ++ ds) r := by
    have hfold := ordered_foldl (enabled settings ++ ds)
    rw [List.foldl_append] at hfold
    exact hfold
  refine ⟨hr.distinct, ?_, hr.registered, hr.ordered, ?_⟩
  · intro name d
    rw [get?_foldl_register, get?_ofSettings_eq_some_iff]
  · intro ctx
    rw [filterMap_get?_names hr.distinct, run]

end WebAudit.Registry
