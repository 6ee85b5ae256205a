import WebAudit.Proofs.TreeLookup

/-!
Two trees that differ in one regular file. A path that leads elsewhere leads to
the same place in both when the directories on the way to the file stay. They
may come and go with the file for a path that goes straight down from a
directory without links. Writing a file is such a change, and so is taking it
away again.
-/

namespace WebAudit

namespace Entry

theorem longestTarget_le_longestIn {entries : List (String × Entry)} {name : String} {e : Entry}
    (hlookup : entries.lookup name = some e) :
    stepBound.longestTarget e ≤ stepBound.longestIn entries := by
  induction entries with
  | nil => cases hlookup
  | cons first others ih =>
      rw [List.lookup_cons] at hlookup
      rw [stepBound.longestIn]
      split at hlookup
      · obtain rfl := Option.some.inj hlookup
        exact Nat.le_max_left _ _
      · exact Nat.le_trans (ih hlookup) (Nat.le_max_right _ _)

/-- No target of a link is longer than the longest one. -/
theorem length_le_longestTarget {tree : Entry} {names : List String} {target : String}
    (hat : tree.at? names = some (.link target)) :
    target.length ≤ stepBound.longestTarget tree := by
  induction names generalizing tree with
  | nil =>
      obtain rfl := Option.some.inj hat
      exact Nat.le_refl _
  | cons name rest ih =>
      obtain ⟨child, hchild, hrest⟩ := Option.bind_eq_some_iff.mp hat
      cases tree with
      | file content => cases hchild
      | link target => cases hchild
      | directory entries => exact Nat.le_trans (ih hrest) (longestTarget_le_longestIn hchild)

mutual

/-- A bound of all targets of links bounds the longest one. -/
theorem longestTarget_le (tree : Entry) (hwf : tree.isWellFormed) {bound : Nat}
    (hbound : ∀ names target, tree.at? names = some (.link target) → target.length ≤ bound) :
    stepBound.longestTarget tree ≤ bound := by
  cases tree with
  | file content => exact Nat.zero_le _
  | link target => exact hbound [] target rfl
  | directory entries => exact longestIn_le entries hwf hbound

theorem longestIn_le (entries : List (String × Entry)) (hwf : areWellFormed entries) {bound : Nat}
    (hbound : ∀ names target, (directory entries).at? names = some (.link target) →
      target.length ≤ bound) :
    stepBound.longestIn entries ≤ bound := by
  cases entries with
  | nil => exact Nat.zero_le _
  | cons first others =>
      obtain ⟨name, entry⟩ := first
      obtain ⟨-, hfresh, hentry, hothers⟩ := areWellFormed_cons hwf
      rw [stepBound.longestIn]
      refine Nat.max_le.mpr ⟨longestTarget_le entry hentry fun names target hat => ?_,
        longestIn_le others hothers fun names target hat => ?_⟩
      · exact hbound (name :: names) target (by rw [at?_first, hat])
      · cases names with
        | nil => cases hat
        | cons name' rest =>
            have hne : name' ≠ name := by
              rintro rfl
              rw [at?_absent hfresh] at hat
              cases hat
            exact hbound (name' :: rest) target (by rw [at?_other hne, hat])

end

/-- Nothing at a place, or a regular file. -/
def IsFileOrNothing (tree : Entry) (place : List String) : Prop :=
  ∀ k, tree.kindAt? place = some k → ∃ content, k = .file content

/-- Nothing at a place, or a directory. -/
def IsDirectoryOrNothing (tree : Entry) (place : List String) : Prop :=
  ∀ k, tree.kindAt? place = some k → k = .directory

theorem IsFileOrNothing.not_directory {tree : Entry} {place : List String}
    (hplace : tree.IsFileOrNothing place) : tree.kindAt? place ≠ some .directory := by
  intro hdirectory
  obtain ⟨content, hfile⟩ := hplace _ hdirectory
  cases hfile

/-- Two trees that differ at most in the regular file at a place: it is made,
removed or changed. Directories on the way to it may be made or removed with
it. -/
structure FileChange (place : List String) (before after : Entry) : Prop where
  elsewhere : ∀ names, ¬names <+: place → before.kindAt? names = after.kindAt? names
  onWay : ∀ names, names <+: place → names ≠ place →
    before.kindAt? names = after.kindAt? names ∨
      before.IsDirectoryOrNothing names ∧ after.IsDirectoryOrNothing names
  old : before.IsFileOrNothing place
  new : after.IsFileOrNothing place

/-- The directories on the way to a place are the same in two trees. -/
def SameWay (place : List String) (before after : Entry) : Prop :=
  ∀ names, names <+: place → names ≠ place → before.kindAt? names = after.kindAt? names

variable {place : List String} {before after : Entry}

theorem FileChange.symm (hchange : FileChange place before after) :
    FileChange place after before where
  elsewhere names hnames := (hchange.elsewhere names hnames).symm
  onWay names hway hne := (hchange.onWay names hway hne).imp Eq.symm And.symm
  old := hchange.new
  new := hchange.old

theorem SameWay.symm (hway : SameWay place before after) : SameWay place after before :=
  fun names hnames hne => (hway names hnames hne).symm

/-- What is no directory stays, away from the place. -/
theorem FileChange.keeps (hchange : FileChange place before after) {names : List String} {k : Kind}
    (hkind : before.kindAt? names = some k) (hother : k ≠ .directory) (hne : names ≠ place) :
    after.kindAt? names = some k := by
  by_cases hway : names <+: place
  · rcases hchange.onWay names hway hne with hsame | ⟨hbefore, -⟩
    · rw [← hsame, hkind]
    · exact absurd (hbefore k hkind) hother
  · rw [← hchange.elsewhere names hway, hkind]

theorem FileChange.keeps_link (hchange : FileChange place before after) {names : List String}
    {target : String} (hat : before.at? names = some (.link target)) :
    after.at? names = some (.link target) := by
  rw [← kindAt?_eq_link_iff] at hat ⊢
  refine hchange.keeps hat (by simp) ?_
  rintro rfl
  obtain ⟨content, hfile⟩ := hchange.old _ hat
  cases hfile

theorem FileChange.stepBound_eq {old new : Tree} (hchange : FileChange place old.root new.root)
    (components : List Component) :
    stepBound old.root components = stepBound new.root components := by
  have hle : stepBound.longestTarget old.root ≤ stepBound.longestTarget new.root :=
    longestTarget_le old.root old.wellFormed fun _ _ hat =>
      length_le_longestTarget (hchange.keeps_link hat)
  have hge : stepBound.longestTarget new.root ≤ stepBound.longestTarget old.root :=
    longestTarget_le new.root new.wellFormed fun _ _ hat =>
      length_le_longestTarget (hchange.symm.keeps_link hat)
  rw [stepBound, stepBound, Nat.le_antisymm hle hge]

theorem FileChange.kindAt?_eq (hchange : FileChange place before after)
    (hway : SameWay place before after) {names : List String} (hne : names ≠ place) :
    before.kindAt? names = after.kindAt? names := by
  by_cases hnames : names <+: place
  · exact hway names hnames hne
  · exact hchange.elsewhere names hnames

/-- A step that does not come to the changed file is a step of the other tree
too. -/
theorem FileChange.stepAlong_eq (hchange : FileChange place before after)
    (hway : SameWay place before after) {links links' : Nat} {here here' : List String}
    {c : Component} {added : List Component}
    (hstep : before.stepAlong links here c = .ok (links', here', added))
    (hne : here'.reverse ≠ place) :
    after.stepAlong links here c = .ok (links', here', added) := by
  have hdirectory : before.kindAt? here.reverse = some .directory := by
    by_contra hother
    rw [stepAlong_not_directory hother] at hstep
    cases hstep
  have hafter : after.kindAt? here.reverse = some .directory := by
    rw [← hdirectory]
    refine (hchange.kindAt?_eq hway ?_).symm
    rintro rfl
    exact hchange.old.not_directory hdirectory
  cases c with
  | root => simpa only [stepAlong, hdirectory, hafter] using hstep
  | here => simpa only [stepAlong, hdirectory, hafter] using hstep
  | up => simpa only [stepAlong, hdirectory, hafter] using hstep
  | name n =>
      have hnext : (n :: here).reverse ≠ place := by
        intro hsame
        cases hkind : before.kindAt? (n :: here).reverse with
        | none => simp only [stepAlong, hdirectory, hkind, reduceCtorEq] at hstep
        | some k =>
            obtain ⟨content, rfl⟩ := hchange.old k (hsame ▸ hkind)
            simp only [stepAlong, hdirectory, hkind, Except.ok.injEq, Prod.mk.injEq] at hstep
            exact hne (hstep.2.1 ▸ hsame)
      simpa only [stepAlong, hdirectory, hafter, hchange.kindAt?_eq hway hnext] using hstep

/-- A path that does not lead to the changed file leads to the same place in
both trees. -/
theorem FileChange.resolveFrom_eq (hchange : FileChange place before after)
    (hway : SameWay place before after) {fuel links : Nat} {here there : List String}
    {components : List Component}
    (hresolve : resolveFrom before fuel links here components = .ok there) (hne : there ≠ place) :
    resolveFrom after fuel links here components = .ok there := by
  induction fuel generalizing links here components with
  | zero => simp [resolveFrom] at hresolve
  | succ fuel ih =>
      cases components with
      | nil => exact hresolve
      | cons c rest =>
          rw [resolveFrom_cons] at hresolve ⊢
          cases hstep : before.stepAlong links here c with
          | error e => simp [hstep] at hresolve
          | ok state =>
              obtain ⟨links', here', added⟩ := state
              simp only [hstep] at hresolve
              -- a walk that has come to the file cannot leave it
              have hhere' : here'.reverse ≠ place := by
                intro hsame
                have hother : before.kindAt? here'.reverse ≠ some .directory :=
                  hsame ▸ hchange.old.not_directory
                exact hne ((resolveFrom_of_not_directory hother hresolve).trans hsame)
              rw [hchange.stepAlong_eq hway hstep hhere']
              exact ih hresolve

theorem FileChange.resolve_eq (old new : Tree) (hchange : FileChange place old.root new.root)
    (hway : SameWay place old.root new.root) {path : Path} {there : List String}
    (hresolve : old.root.resolve path = .ok there) (hne : there ≠ place) :
    new.root.resolve path = .ok there := by
  rw [resolve_def] at hresolve ⊢
  rw [← hchange.stepBound_eq]
  exact hchange.resolveFrom_eq hway hresolve hne

theorem lookup_putIn_self (name : String) (entry : Entry) (entries : List (String × Entry)) :
    (putIn name entry entries).lookup name = some entry := by
  induction entries with
  | nil => simp [putIn]
  | cons first rest ih =>
      obtain ⟨name', entry'⟩ := first
      rw [putIn]
      split
      · simp
      · rename_i hother
        have hne : name ≠ name' := fun h => hother (by simp [h])
        rw [List.lookup_cons, beq_eq_false_iff_ne.mpr hne, ih]

theorem child?_put (entry tree : Entry) (name : String) (rest : List String) (n : String) :
    (put entry (name :: rest) tree).child? n =
      if n = name then some (put entry rest ((tree.child? name).getD empty))
      else tree.child? n := by
  have hfresh : ∀ e : Entry, (directory [(name, e)]).child? n =
      if n = name then some e else none := by
    intro e
    by_cases hname : n = name
    · simp [child?, hname]
    · simp [child?, hname, List.lookup_cons, beq_eq_false_iff_ne.mpr hname]
  cases tree with
  | file content => exact hfresh _
  | link target => exact hfresh _
  | directory entries =>
      rw [put]
      split
      · rename_i hname
        subst hname
        exact lookup_putIn_self _ _ _
      · rename_i hname
        exact lookup_putIn_of_ne hname _ _

/-- What is put into a tree stands at its place. -/
theorem kindAt?_put_self (entry tree : Entry) (place : List String) :
    (put entry place tree).kindAt? place = some entry.kind := by
  induction place generalizing tree with
  | nil => rfl
  | cons name rest ih => rw [kindAt?_cons, child?_put, if_pos rfl, Option.bind_some, ih]

theorem kindAt?_put_onWay (entry tree : Entry) {place names : List String}
    (hway : names <+: place) (hne : names ≠ place) :
    (put entry place tree).kindAt? names = some .directory := by
  induction place generalizing tree names with
  | nil => exact absurd (List.prefix_nil.mp hway) hne
  | cons name rest ih =>
      rcases List.prefix_cons_iff.mp hway with rfl | ⟨more, rfl, hmore⟩
      · cases tree <;> rfl
      · rw [kindAt?_cons, child?_put, if_pos rfl, Option.bind_some]
        exact ih _ hmore fun h => hne (h ▸ rfl)

/-- What is put at a place below which there is nothing leaves all but the way
to it as it is. -/
theorem kindAt?_put_elsewhere (content : Content) {tree : Entry} {place : List String}
    (hbelow : ∀ name more, tree.kindAt? (place ++ name :: more) = none) {names : List String}
    (hnames : ¬names <+: place) :
    (put (.file content) place tree).kindAt? names = tree.kindAt? names := by
  induction place generalizing tree names with
  | nil =>
      cases names with
      | nil => exact absurd List.nil_prefix hnames
      | cons n more => exact (hbelow n more).symm
  | cons name rest ih =>
      cases names with
      | nil => exact absurd List.nil_prefix hnames
      | cons n more =>
          rw [kindAt?_cons, kindAt?_cons, child?_put]
          split
          · rename_i hname
            subst hname
            have hmore : ¬more <+: rest := fun h => hnames (by simpa using h)
            rw [Option.bind_some]
            cases hchild : tree.child? n with
            | none =>
                rw [Option.getD_none, ih (fun _ _ => ?_) hmore, Option.bind_none]
                · cases more with
                  | nil => exact absurd List.nil_prefix hmore
                  | cons _ _ => rfl
                · cases rest <;> rfl
            | some e =>
                rw [Option.getD_some, ih (fun name' more' => ?_) hmore, Option.bind_some]
                have hnone := hbelow name' more'
                rwa [List.cons_append, kindAt?_cons, hchild, Option.bind_some] at hnone
          · rfl

/-- Writing a file is a change of that file. -/
theorem FileChange.put {tree : Entry} {place : List String} (hplace : tree.IsFileOrNothing place)
    (hway : ∀ names, names <+: place → names ≠ place → tree.IsDirectoryOrNothing names)
    (content : Content) : FileChange place tree (put (.file content) place tree) where
  elsewhere names hnames := by
    have hbelow := kindAt?_below hplace.not_directory
    exact (kindAt?_put_elsewhere content hbelow hnames).symm
  onWay names hnames hne := by
    refine Or.inr ⟨hway names hnames hne, fun k hkind => ?_⟩
    rw [kindAt?_put_onWay _ _ hnames hne] at hkind
    exact (Option.some.inj hkind).symm
  old := hplace
  new := by
    intro k hkind
    rw [kindAt?_put_self] at hkind
    exact ⟨content, (Option.some.inj hkind).symm⟩

end Entry

end WebAudit
