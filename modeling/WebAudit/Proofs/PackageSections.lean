import Mathlib.Data.List.Induction
import Mathlib.Data.List.Nodup
import Mathlib.Data.String.Basic
import WebAudit.Dependency.Manifest
import WebAudit.Proofs.NamedEntries

/-!
The dependencies of a package manifest. Its document has up to four sections
with names and specifications. A name counts where the first of the sections
declares it, so the records are told by their names: each name of a section has
one record, which stands in the order of sections and then of names, and only a
name that no other section declares is for development. Leaving out what is for
development is leaving out these records.
-/

namespace WebAudit

namespace Json

variable {name : String} {value : Json} {members sofar : List (String × Json)}

/-- Members in the order of their names, one for a name. -/
def Rising (members : List (String × Json)) : Prop := members.Pairwise fun a b => a.1 < b.1

theorem mem_insertMember {p : String × Json} (hmember : p ∈ insertMember name value members) :
    p = (name, value) ∨ p ∈ members := by
  induction members with
  | nil => exact .inl (List.mem_singleton.mp hmember)
  | cons first rest ih =>
      unfold insertMember at hmember
      split at hmember
      · exact List.mem_cons.mp hmember
      · rcases List.mem_cons.mp hmember with hfirst | hrest
        · exact .inl hfirst
        · exact .inr (List.mem_cons_of_mem _ hrest)
      · rcases List.mem_cons.mp hmember with rfl | hrest
        · exact .inr List.mem_cons_self
        · exact (ih hrest).imp_right (List.mem_cons_of_mem _)

theorem Rising.insertMember (hrising : Rising members) :
    Rising (insertMember name value members) := by
  induction members with
  | nil => exact List.pairwise_singleton _ _
  | cons first rest ih =>
      obtain ⟨hfirst, hrest⟩ := List.pairwise_cons.mp hrising
      unfold Json.insertMember
      split
      · rename_i hless
        have hname : name < first.1 := compare_lt_iff_lt.mp hless
        refine List.pairwise_cons.mpr ⟨?_, hrising⟩
        intro p hp
        rcases List.mem_cons.mp hp with rfl | hp
        · exact hname
        · exact hname.trans (hfirst p hp)
      · rename_i hsame
        obtain rfl : name = first.1 := compare_eq_iff_eq.mp hsame
        exact List.pairwise_cons.mpr ⟨hfirst, hrest⟩
      · rename_i hgreater
        have hname : first.1 < name := compare_gt_iff_gt.mp hgreater
        refine List.pairwise_cons.mpr ⟨?_, ih hrest⟩
        intro p hp
        rcases mem_insertMember hp with rfl | hp
        · exact hname
        · exact hfirst p hp

theorem Rising.lookup_eq_some_iff (hrising : Rising members) :
    members.lookup name = some value ↔ (name, value) ∈ members := by
  induction members with
  | nil => simp
  | cons first rest ih =>
      obtain ⟨hfirst, hrest⟩ := List.pairwise_cons.mp hrising
      rw [lookup_cons_ite, List.mem_cons]
      split
      · rename_i hname
        have habsent : (name, value) ∉ rest := fun hmem =>
          (hfirst _ hmem).ne hname.symm
        rw [or_iff_left habsent, Prod.ext_iff, Option.some.injEq]
        exact ⟨fun hvalue => ⟨hname, hvalue.symm⟩, fun hpair => hpair.2.symm⟩
      · rename_i hname
        simp [ih hrest, Prod.ext_iff, hname]

theorem canonicalMembers_rising (hrising : Rising sofar) :
    Rising (canonicalMembers sofar members) := by
  induction members generalizing sofar with
  | nil => simpa only [canonicalMembers] using hrising
  | cons first rest ih =>
      rw [canonicalMembers]
      exact ih hrising.insertMember

theorem canonical_of_mem_canonicalMembers {p : String × Json}
    (hmember : p ∈ canonicalMembers sofar members) : p ∈ sofar ∨ ∃ v, p.2 = canonical v := by
  induction members generalizing sofar with
  | nil => exact .inl (by simpa only [canonicalMembers] using hmember)
  | cons first rest ih =>
      rw [canonicalMembers] at hmember
      rcases ih hmember with hsofar | hcanonical
      · rcases mem_insertMember hsofar with rfl | hsofar
        · exact .inr ⟨first.2, rfl⟩
        · exact .inl hsofar
      · exact .inr hcanonical

theorem rising_of_canonical {v : Json} (hobject : canonical v = .object members) :
    Rising members := by
  cases v with
  | object written =>
      rw [canonical] at hobject
      cases hobject
      exact canonicalMembers_rising List.Pairwise.nil
  | array items => simp [canonical] at hobject
  | null | bool | number | string => simp [canonical] at hobject

theorem canonical_of_member? {v w : Json} (hmember : (canonical v).member? name = some w) :
    ∃ u, w = canonical u := by
  cases v with
  | object written =>
      rw [canonical, member?] at hmember
      obtain ⟨before, after, hmembers, -⟩ := List.lookup_eq_some_iff.mp hmember
      have hmem : (name, w) ∈ canonicalMembers [] written := by simp [hmembers]
      rcases canonical_of_mem_canonicalMembers hmem with hnone | hcanonical
      · cases hnone
      · exact hcanonical
  | array items => simp [canonical, member?] at hmember
  | null | bool | number | string => simp [canonical, member?] at hmember

end Json

namespace PackageJson

section Sections

variable (manifest : Path) (root : Json)

/-- A member of a document is an object that gives a name a specification. -/
def Declares (title name : String) (spec : Json) : Prop :=
  ∃ members, root.member? title = some (.object members) ∧ members.lookup name = some spec

/-- Of some sections, each with its mark for development, the one at a position
is the first that declares a name. -/
structure DeclaresFirst (sections : List (String × Bool)) (i : Nat) (isDev : Bool)
    (name : String) (spec : Json) : Prop where
  declares : ∃ title, sections[i]? = some (title, isDev) ∧ Declares root title name spec
  first : ∀ j < i, ∀ s, sections[j]? = some s → ∀ other, ¬Declares root s.1 name other

/-- One name stands before another when an earlier section is the first that
declares it, or when it is the lesser of two names of one section. -/
def Precedes (sections : List (String × Bool)) (a b : String) : Prop :=
  ∃ i j dev dev' spec spec', DeclaresFirst root sections i dev a spec ∧
    DeclaresFirst root sections j dev' b spec' ∧ (i < j ∨ i = j ∧ a < b)

/-- The records of some sections: for each name what the first section gives it,
in the order of sections and names. -/
structure Lists (sections : List (String × Bool)) (records : List Dependency) : Prop where
  mem_iff : ∀ d, d ∈ records ↔ ∃ i isDev spec,
    DeclaresFirst root sections i isDev d.name spec ∧ d = entry manifest isDev d.name spec
  ordered : records.Pairwise fun a b => Precedes root sections a.name b.name

end Sections

section Step

variable {manifest : Path} {root : Json} {sections : List (String × Bool)}
  {title name : String} {isDev dev : Bool} {spec : Json} {i : Nat} {records : List Dependency}

theorem declares_iff :
    Declares root title name spec ↔ (members root title).lookup name = some spec := by
  unfold Declares members
  cases root.member? title with
  | none => simp
  | some v => cases v <;> simp

theorem DeclaresFirst.lt_length (hfirst : DeclaresFirst root sections i dev name spec) :
    i < sections.length := by
  obtain ⟨title, hsection, -⟩ := hfirst.declares
  exact (List.getElem?_eq_some_iff.mp hsection).1

theorem not_declaresFirst_nil : ¬DeclaresFirst root [] i dev name spec :=
  fun hfirst => absurd hfirst.lt_length (Nat.not_lt_zero i)

theorem DeclaresFirst.unique {j : Nat} {dev' : Bool} {spec' : Json}
    (hfirst : DeclaresFirst root sections i dev name spec)
    (hfirst' : DeclaresFirst root sections j dev' name spec') :
    i = j ∧ dev = dev' ∧ spec = spec' := by
  obtain ⟨title, hsection, hdeclares⟩ := hfirst.declares
  obtain ⟨title', hsection', hdeclares'⟩ := hfirst'.declares
  have hle : j ≤ i := by
    by_contra hless
    exact hfirst'.first i (by omega) _ hsection _ hdeclares
  have hge : i ≤ j := by
    by_contra hless
    exact hfirst.first j (by omega) _ hsection' _ hdeclares'
  obtain rfl : i = j := by omega
  obtain ⟨rfl, rfl⟩ := Prod.mk.inj (Option.some.inj (hsection.symm.trans hsection'))
  rw [declares_iff] at hdeclares hdeclares'
  exact ⟨rfl, rfl, Option.some.inj (hdeclares.symm.trans hdeclares')⟩

/-- A section at the end is the first for those names that no section before it
declares. -/
theorem declaresFirst_concat_iff :
    DeclaresFirst root (sections ++ [(title, isDev)]) i dev name spec ↔
      DeclaresFirst root sections i dev name spec ∨
        i = sections.length ∧ dev = isDev ∧ Declares root title name spec ∧
          ∀ s ∈ sections, ∀ other, ¬Declares root s.1 name other := by
  constructor
  · intro hfirst
    obtain ⟨title', hsection, hdeclares⟩ := hfirst.declares
    by_cases hi : i < sections.length
    · rw [List.getElem?_append_left hi] at hsection
      refine .inl ⟨⟨title', hsection, hdeclares⟩, ?_⟩
      intro j hj s hs
      exact hfirst.first j hj s (by rwa [List.getElem?_append_left (by omega)])
    · obtain rfl : i = sections.length := by
        have hlength := hfirst.lt_length
        simp only [List.length_append, List.length_singleton] at hlength
        omega
      obtain ⟨rfl, rfl⟩ : title = title' ∧ isDev = dev := by simpa using hsection
      refine .inr ⟨rfl, rfl, hdeclares, ?_⟩
      intro s hs
      obtain ⟨j, hj⟩ := List.getElem?_of_mem hs
      have hlength := (List.getElem?_eq_some_iff.mp hj).1
      exact hfirst.first j hlength s (by rwa [List.getElem?_append_left hlength])
  · rintro (hfirst | ⟨rfl, rfl, hdeclares, hnone⟩)
    · have hi := hfirst.lt_length
      obtain ⟨title', hsection, hdeclares⟩ := hfirst.declares
      refine ⟨⟨title', by rwa [List.getElem?_append_left hi], hdeclares⟩, ?_⟩
      intro j hj s hs
      exact hfirst.first j hj s (by rwa [List.getElem?_append_left (by omega)] at hs)
    · refine ⟨⟨title, by simp, hdeclares⟩, ?_⟩
      intro j hj s hs
      rw [List.getElem?_append_left hj] at hs
      exact hnone s (List.mem_of_getElem? hs)

theorem exists_declaresFirst_iff :
    (∃ i dev spec, DeclaresFirst root sections i dev name spec) ↔
      ∃ s ∈ sections, ∃ spec, Declares root s.1 name spec := by
  induction sections using List.reverseRecOn with
  | nil => simp [not_declaresFirst_nil]
  | append_singleton sections s ih =>
      obtain ⟨title, isDev⟩ := s
      simp only [declaresFirst_concat_iff, List.mem_append, List.mem_singleton]
      constructor
      · rintro ⟨i, dev, spec, hfirst | ⟨-, -, hdeclares, -⟩⟩
        · obtain ⟨s, hs, hdeclares⟩ := ih.mp ⟨i, dev, spec, hfirst⟩
          exact ⟨s, .inl hs, hdeclares⟩
        · exact ⟨_, .inr rfl, spec, hdeclares⟩
      · rintro ⟨s, hs, spec, hdeclares⟩
        by_cases hbefore : ∃ s ∈ sections, ∃ spec, Declares root s.1 name spec
        · obtain ⟨i, dev, spec, hfirst⟩ := ih.mpr hbefore
          exact ⟨i, dev, spec, .inl hfirst⟩
        · simp only [not_exists, not_and] at hbefore
          rcases hs with hs | rfl
          · exact absurd hdeclares (hbefore s hs spec)
          · exact ⟨_, _, spec, .inr ⟨rfl, rfl, hdeclares, hbefore⟩⟩

theorem Lists.exists_name_iff (hlists : Lists manifest root sections records) :
    (∃ d ∈ records, d.name = name) ↔ ∃ s ∈ sections, ∃ spec, Declares root s.1 name spec := by
  rw [← exists_declaresFirst_iff]
  constructor
  · rintro ⟨d, hd, rfl⟩
    obtain ⟨i, dev, spec, hfirst, -⟩ := (hlists.mem_iff d).mp hd
    exact ⟨i, dev, spec, hfirst⟩
  · rintro ⟨i, dev, spec, hfirst⟩
    exact ⟨entry manifest dev name spec, (hlists.mem_iff _).mpr ⟨i, dev, spec, hfirst, rfl⟩, rfl⟩

theorem Precedes.concat {a b : String} (s : String × Bool) (hbefore : Precedes root sections a b) :
    Precedes root (sections ++ [s]) a b := by
  obtain ⟨i, j, dev, dev', spec, spec', hfirst, hfirst', hplace⟩ := hbefore
  exact ⟨i, j, dev, dev', spec, spec', declaresFirst_concat_iff.mpr (.inl hfirst),
    declaresFirst_concat_iff.mpr (.inl hfirst'), hplace⟩

/-- A section adds those of its names that no section before it declares. -/
theorem Lists.mem_fresh_iff (hlists : Lists manifest root sections records)
    (hrising : Json.Rising (members root title)) :
    (name, spec) ∈ (members root title).filter (fun p => !records.any fun d => d.name == p.1) ↔
      Declares root title name spec ∧ ∀ s ∈ sections, ∀ other, ¬Declares root s.1 name other := by
  have hname : (∃ d ∈ records, d.name = name) ↔
      ∃ s ∈ sections, ∃ spec, Declares root s.1 name spec :=
    hlists.exists_name_iff
  rw [List.mem_filter, declares_iff, hrising.lookup_eq_some_iff, Bool.not_eq_true',
    ← Bool.not_eq_true, List.any_eq_true]
  simp only [beq_iff_eq, hname, not_exists, not_and]

theorem Lists.addSection (hlists : Lists manifest root sections records)
    (hrising : Json.Rising (members root title)) :
    Lists manifest root (sections ++ [(title, isDev)])
      (addSection manifest root records (title, isDev)) := by
  have hadded : ∀ p ∈ (members root title).filter (fun p => !records.any fun d => d.name == p.1),
      DeclaresFirst root (sections ++ [(title, isDev)]) sections.length isDev p.1 p.2 := by
    intro p hp
    have hfresh := (hlists.mem_fresh_iff hrising).mp hp
    exact declaresFirst_concat_iff.mpr (.inr ⟨rfl, rfl, hfresh⟩)
  refine ⟨?_, ?_⟩
  · intro d
    simp only [PackageJson.addSection, List.mem_append, List.mem_map, hlists.mem_iff d,
      declaresFirst_concat_iff]
    constructor
    · rintro (⟨i, dev, spec, hfirst, hd⟩ | ⟨p, hp, rfl⟩)
      · exact ⟨i, dev, spec, .inl hfirst, hd⟩
      · exact ⟨_, isDev, p.2, .inr ⟨rfl, rfl, (hlists.mem_fresh_iff hrising).mp hp⟩, rfl⟩
    · rintro ⟨i, dev, spec, hfirst | ⟨-, rfl, hfresh⟩, hd⟩
      · exact .inl ⟨i, dev, spec, hfirst, hd⟩
      · exact .inr ⟨(d.name, spec), (hlists.mem_fresh_iff hrising).mpr hfresh, hd.symm⟩
  · simp only [PackageJson.addSection]
    apply List.pairwise_append.mpr
    refine ⟨hlists.ordered.imp fun hbefore => hbefore.concat _, ?_, ?_⟩
    · rw [List.pairwise_map]
      refine (hrising.filter _).imp_of_mem ?_
      intro p q hp hq hless
      exact ⟨_, _, _, _, _, _, hadded p hp, hadded q hq, .inr ⟨rfl, hless⟩⟩
    · intro d hd e he
      obtain ⟨i, dev, spec, hfirst, -⟩ := (hlists.mem_iff d).mp hd
      obtain ⟨p, hp, rfl⟩ := List.mem_map.mp he
      exact ⟨_, _, _, _, _, _, declaresFirst_concat_iff.mpr (.inl hfirst), hadded p hp,
        .inl hfirst.lt_length⟩

end Step

section Document

variable {manifest : Path} {root : Json} {records : List Dependency}

theorem lists_nil : Lists manifest root [] [] := by
  refine ⟨?_, List.Pairwise.nil⟩
  simp [not_declaresFirst_nil]

theorem Lists.foldl {done : List (String × Bool)} (rest : List (String × Bool))
    (hrising : ∀ s ∈ rest, Json.Rising (members root s.1))
    (hlists : Lists manifest root done records) :
    Lists manifest root (done ++ rest)
      (rest.foldl (PackageJson.addSection manifest root) records) := by
  induction rest generalizing done records with
  | nil => simpa using hlists
  | cons s rest ih =>
      have hstep : Lists manifest root (done ++ [s]) (PackageJson.addSection manifest root records s) :=
        hlists.addSection (hrising s List.mem_cons_self)
      rw [List.foldl_cons, List.append_cons]
      exact ih (fun s' hs' => hrising s' (List.mem_cons_of_mem s hs')) hstep

theorem rising_members {content : String} (hroot : Json.parse content = .ok root)
    (title : String) : Json.Rising (members root title) := by
  obtain ⟨written, -, rfl⟩ : ∃ written, Json.read content = .ok written ∧
      written.canonical = root := by
    unfold Json.parse at hroot
    cases hread : Json.read content with
    | error e => simp [hread, Except.map] at hroot
    | ok written => exact ⟨written, rfl, by simpa [hread, Except.map] using hroot⟩
  unfold members
  split
  · rename_i ms hmember
    obtain ⟨v, hv⟩ := Json.canonical_of_member? hmember
    exact Json.rising_of_canonical hv.symm
  · exact List.Pairwise.nil

theorem lists_ofJson {content : String} (hroot : Json.parse content = .ok root) :
    Lists manifest root sections (ofJson manifest root) := by
  have hnone : Lists manifest root [] [] := lists_nil
  exact hnone.foldl sections fun s _ => rising_members hroot s.1

theorem Precedes.ne {sections : List (String × Bool)} {a b : String}
    (hbefore : Precedes root sections a b) : a ≠ b := by
  rintro rfl
  obtain ⟨i, j, dev, dev', spec, spec', hfirst, hfirst', hplace⟩ := hbefore
  obtain ⟨rfl, -, -⟩ := hfirst.unique hfirst'
  rcases hplace with hless | ⟨-, hless⟩
  · exact absurd hless (lt_irrefl i)
  · exact absurd hless (lt_irrefl a)

theorem Lists.names_nodup {sections : List (String × Bool)}
    (hlists : Lists manifest root sections records) : (records.map Dependency.name).Nodup := by
  apply List.pairwise_map.mpr
  exact hlists.ordered.imp fun hbefore => hbefore.ne

theorem isDev_iff_title {s : String × Bool} (hs : s ∈ sections) :
    s.2 = true ↔ s.1 = "devDependencies" := by
  revert s
  decide

theorem DeclaresFirst.isDev_iff {i : Nat} {dev : Bool} {name : String} {spec : Json}
    (hfirst : DeclaresFirst root sections i dev name spec) :
    dev = true ↔
      ∀ s ∈ sections, ∀ other, Declares root s.1 name other → s.1 = "devDependencies" := by
  obtain ⟨title, hsection, hdeclares⟩ := hfirst.declares
  have hmember : (title, dev) ∈ sections := List.mem_of_getElem? hsection
  constructor
  · -- the section for development is the last one
    rintro rfl s hs other hother
    obtain ⟨j, hj⟩ := List.getElem?_of_mem hs
    have hlength : j < 4 := (List.getElem?_eq_some_iff.mp hj).1
    have hlast : i = 3 := by
      have hi := hfirst.lt_length
      rcases i with _ | _ | _ | _ | i <;> simp_all [sections]
    obtain rfl : j = i := by
      by_contra hne
      exact hfirst.first j (by omega) s hj other hother
    exact (isDev_iff_title hs).mp (congrArg Prod.snd (Option.some.inj (hj.symm.trans hsection)))
  · intro honly
    exact (isDev_iff_title hmember).mpr (honly _ hmember spec hdeclares)

end Document

end PackageJson

theorem collectDependencies_runtime (read : Path → Option String) (files : List Path) :
    collectDependencies read files false =
      (collectDependencies read files true).filter fun d => !d.isDev := by
  unfold collectDependencies
  rw [List.filter_flatMap]
  congr 1
  funext path
  split
  · split <;> simp
  · rfl

namespace PackageJson

/-- A document that can be read has one record for each name that a section
declares. The record is what the first such section says, and it is for
development only when no other section declares the name. Records stand in the
order of sections and then of names. What is collected without development is
what is collected with it, less the records for development. -/
theorem first_section_decides (content : String) (manifest : Path) (root : Json)
    (hroot : Json.parse content = .ok root) :
    (∃ records, parse content manifest = .ok records ∧
      (records.map Dependency.name).Nodup ∧
      (∀ name, (∃ d ∈ records, d.name = name) ↔
        ∃ s ∈ sections, ∃ spec, Declares root s.1 name spec) ∧
      (∀ d ∈ records, ∃ i isDev spec, DeclaresFirst root sections i isDev d.name spec ∧
        d = entry manifest isDev d.name spec) ∧
      (∀ d ∈ records, d.isDev = true ↔
        ∀ s ∈ sections, ∀ spec, Declares root s.1 d.name spec → s.1 = "devDependencies") ∧
      records.Pairwise fun a b => Precedes root sections a.name b.name) ∧
    ∀ read files, collectDependencies read files false =
      (collectDependencies read files true).filter fun d => !d.isDev := by
  have hlists : Lists manifest root sections (ofJson manifest root) := lists_ofJson hroot
  refine ⟨⟨ofJson manifest root, by simp [parse, hroot], hlists.names_nodup,
    fun name => hlists.exists_name_iff, fun d hd => (hlists.mem_iff d).mp hd, ?_,
    hlists.ordered⟩, collectDependencies_runtime⟩
  intro d hd
  obtain ⟨i, isDev, spec, hfirst, hentry⟩ := (hlists.mem_iff d).mp hd
  have hflag : d.isDev = isDev := congrArg Dependency.isDev hentry
  rw [hflag]
  exact hfirst.isDev_iff

/-- A document in which sections overlap, and one that is no object. -/
def overlapping : String :=
  "\x7b\"devDependencies\": \x7b\"lodash\": \"4.17.21\", \"jest\": \"29.7.0\"\x7d, " ++
    "\"optionalDependencies\": [\"jest\"], \"peerDependencies\": \x7b\"react\": \"^18\"\x7d, " ++
    "\"dependencies\": \x7b\"lodash\": \"4.17.4\", \"local\": \"file:../lib\"\x7d\x7d"

theorem overlapping_sections :
    ∃ root, Json.parse overlapping = .ok root ∧
      ∃ records, parse overlapping ⟨"package.json"⟩ = .ok records ∧
        (records.map Dependency.name).Nodup ∧
        records.map (fun d => (d.name, d.version, d.isDev, d.unsupported)) =
          [("local", "file:../lib", false, true), ("lodash", "4.17.4", false, false),
            ("react", "18.0.0", false, false), ("jest", "29.7.0", true, false)] := by
  have hshown : (parse overlapping ⟨"package.json"⟩).map
      (fun ds => ds.map fun d => (d.name, d.version, d.isDev, d.unsupported)) =
      .ok [("local", "file:../lib", false, true), ("lodash", "4.17.4", false, false),
        ("react", "18.0.0", false, false), ("jest", "29.7.0", true, false)] := by
    decide +kernel
  cases hroot : Json.parse overlapping with
  | error e => simp [parse, hroot, Except.map] at hshown
  | ok root =>
      obtain ⟨⟨records, hparse, hnodup, -⟩, -⟩ :=
        first_section_decides overlapping ⟨"package.json"⟩ root hroot
      rw [hparse] at hshown
      exact ⟨root, rfl, records, hparse, hnodup, Except.ok.inj hshown⟩

end PackageJson

end WebAudit
