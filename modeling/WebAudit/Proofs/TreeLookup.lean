import WebAudit.Proofs.Discovery

/-!
Where paths lead in a tree. What a path leads to depends on what kind of entry
stands at each row of names only, step by step. Below a directory without links
a row of names leads down to what stands at its end, so what is looked up there
is what is there.
-/

namespace WebAudit

namespace Entry

inductive Kind where
  | file (content : Content)
  | link (target : String)
  | directory
  deriving DecidableEq

def kind : Entry → Kind
  | .file content => .file content
  | .link target => .link target
  | .directory _ => .directory

/-- What stands at the end of a row of names, without following links. -/
def kindAt? (tree : Entry) (names : List String) : Option Kind := (tree.at? names).map kind

theorem at?_append (tree : Entry) (names more : List String) :
    tree.at? (names ++ more) = (tree.at? names).bind fun e => e.at? more := by
  induction names generalizing tree with
  | nil => rfl
  | cons name rest ih =>
      rw [List.cons_append, at?, at?, Option.bind_assoc]
      exact congrArg _ (funext fun e => ih e)

theorem kindAt?_cons (tree : Entry) (name : String) (rest : List String) :
    tree.kindAt? (name :: rest) = (tree.child? name).bind fun e => e.kindAt? rest := by
  rw [kindAt?, at?, Option.map_bind]
  rfl

theorem kindAt?_append {tree e : Entry} {names : List String} (hat : tree.at? names = some e)
    (more : List String) : tree.kindAt? (names ++ more) = e.kindAt? more := by
  rw [kindAt?, at?_append, hat, Option.bind_some, kindAt?]

@[simp]
theorem kindAt?_eq_none_iff {tree : Entry} {names : List String} :
    tree.kindAt? names = none ↔ tree.at? names = none := by
  simp [kindAt?]

@[simp]
theorem kindAt?_eq_file_iff {tree : Entry} {names : List String} {content : Content} :
    tree.kindAt? names = some (.file content) ↔ tree.at? names = some (.file content) := by
  cases hat : tree.at? names with
  | none => simp [kindAt?, hat]
  | some e => cases e <;> simp [kindAt?, hat, kind]

@[simp]
theorem kindAt?_eq_link_iff {tree : Entry} {names : List String} {target : String} :
    tree.kindAt? names = some (.link target) ↔ tree.at? names = some (.link target) := by
  cases hat : tree.at? names with
  | none => simp [kindAt?, hat]
  | some e => cases e <;> simp [kindAt?, hat, kind]

@[simp]
theorem kindAt?_eq_directory_iff {tree : Entry} {names : List String} :
    tree.kindAt? names = some .directory ↔
      ∃ entries, tree.at? names = some (.directory entries) := by
  cases hat : tree.at? names with
  | none => simp [kindAt?, hat]
  | some e => cases e <;> simp [kindAt?, hat, kind]

/-- Only directories hold anything. -/
theorem kindAt?_below {tree : Entry} {names : List String}
    (hother : tree.kindAt? names ≠ some .directory) (name : String) (rest : List String) :
    tree.kindAt? (names ++ name :: rest) = none := by
  rw [kindAt?_eq_none_iff, at?_append, Option.bind_eq_none_iff]
  intro e hat
  cases e with
  | file content => rfl
  | link target => rfl
  | directory entries => exact absurd (kindAt?_eq_directory_iff.mpr ⟨entries, hat⟩) hother

/-- One step along a path, by the kinds of entries: how many links may still be
followed, where it comes to, and the components that it puts before the rest of
the path. -/
def stepAlong (tree : Entry) (links : Nat) (here : List String) (c : Component) :
    Except FileFault (Nat × List String × List Component) :=
  match tree.kindAt? here.reverse with
  | some .directory =>
    match c with
    | .root => .ok (links, [], [])
    | .here => .ok (links, here, [])
    | .up => .ok (links, here.tail, [])
    | .name n =>
      match tree.kindAt? (n :: here).reverse with
      | none => .error .notFound
      | some (.link target) =>
        match links with
        | 0 => .error .tooManyLinks
        | links + 1 => .ok (links, here, (Path.mk target).components)
      | some _ => .ok (links, n :: here, [])
  | _ => .error .notDirectory

/-- A walk goes on from where a step comes to. -/
theorem resolveFrom_cons (tree : Entry) (fuel links : Nat) (here : List String) (c : Component)
    (rest : List Component) :
    resolveFrom tree (fuel + 1) links here (c :: rest) =
      match tree.stepAlong links here c with
      | .ok (links', here', added) => resolveFrom tree fuel links' here' (added ++ rest)
      | .error e => .error e := by
  cases hhere : tree.at? here.reverse with
  | none => simp [resolveFrom.eq_def, stepAlong, kindAt?, hhere]
  | some e =>
      cases e with
      | file content => simp [resolveFrom.eq_def, stepAlong, kindAt?, kind, hhere]
      | link target => simp [resolveFrom.eq_def, stepAlong, kindAt?, kind, hhere]
      | directory entries =>
          rw [resolveFrom.eq_def]
          simp only [stepAlong, kindAt?, kind, hhere, Option.map_some]
          cases c with
          | root => rfl
          | here => rfl
          | up => rfl
          | name n =>
              simp only
              cases tree.at? (n :: here).reverse with
              | none => rfl
              | some e =>
                  cases e with
                  | file content => rfl
                  | directory entries => rfl
                  | link target => cases links <;> rfl

theorem stepAlong_not_directory {tree : Entry} {here : List String}
    (hother : tree.kindAt? here.reverse ≠ some .directory) (links : Nat) (c : Component) :
    tree.stepAlong links here c = .error .notDirectory := by
  unfold stepAlong
  split
  · contradiction
  · rfl

/-- A walk goes on from directories only. -/
theorem resolveFrom_of_not_directory {tree : Entry} {fuel links : Nat} {here place : List String}
    {components : List Component} (hother : tree.kindAt? here.reverse ≠ some .directory)
    (hresolve : resolveFrom tree fuel links here components = .ok place) :
    place = here.reverse := by
  cases fuel with
  | zero => simp [resolveFrom] at hresolve
  | succ fuel =>
      cases components with
      | nil => exact (Except.ok.inj hresolve).symm
      | cons c rest =>
          rw [resolveFrom_cons, stepAlong_not_directory hother] at hresolve
          cases hresolve

theorem stepBound_append (tree : Entry) (components more : List Component) :
    stepBound tree (components ++ more) = stepBound tree components + more.length := by
  rw [stepBound, stepBound, List.length_append]
  omega

/-- A walk along a path that is continued goes on from where the path leads,
with enough steps left for what is added. -/
theorem resolveFrom_append {tree : Entry} {fuel links : Nat} {here place : List String}
    {components : List Component}
    (hresolve : resolveFrom tree fuel links here components = .ok place)
    (more : List Component) :
    ∃ fuel' links', more.length < fuel' ∧
      resolveFrom tree (fuel + more.length) links here (components ++ more) =
        resolveFrom tree fuel' links' place.reverse more := by
  induction fuel generalizing links here components with
  | zero => simp [resolveFrom] at hresolve
  | succ fuel ih =>
      cases components with
      | nil =>
          obtain rfl := Except.ok.inj hresolve
          exact ⟨fuel + 1 + more.length, links, by omega, by simp⟩
      | cons c rest =>
          have hfuel : fuel + 1 + more.length = fuel + more.length + 1 := by omega
          rw [resolveFrom_cons] at hresolve
          rw [List.cons_append, hfuel, resolveFrom_cons]
          cases hstep : tree.stepAlong links here c with
          | error e => simp [hstep] at hresolve
          | ok state =>
              obtain ⟨links', here', added⟩ := state
              simp only [hstep] at hresolve ⊢
              rw [← List.append_assoc]
              exact ih hresolve

theorem stepAlong_name {tree : Entry} {here : List String} {name : String}
    (hnext : tree.kindAt? (name :: here).reverse ≠ none)
    (hlink : ∀ target, tree.kindAt? (name :: here).reverse ≠ some (.link target)) (links : Nat) :
    tree.stepAlong links here (.name name) = .ok (links, name :: here, []) := by
  have hdirectory : tree.kindAt? here.reverse = some .directory := by
    by_contra hother
    rw [List.reverse_cons] at hnext
    exact hnext (kindAt?_below hother name [])
  simp only [stepAlong, hdirectory]
  cases hkind : tree.kindAt? (name :: here).reverse with
  | none => exact absurd hkind hnext
  | some k =>
      cases k with
      | file content => rfl
      | link target => exact absurd hkind (hlink target)
      | directory => rfl

theorem stepAlong_missing {tree : Entry} {here : List String} {name : String}
    (hhere : tree.kindAt? here.reverse = some .directory)
    (hnext : tree.kindAt? (name :: here).reverse = none) (links : Nat) :
    tree.stepAlong links here (.name name) = .error .notFound := by
  simp only [stepAlong, hhere, hnext]

/-- Below a place without links a row of names leads down to what stands at its
end. -/
theorem resolveFrom_names_iff {tree : Entry} {fuel links : Nat} {here : List String}
    (hhere : tree.kindAt? here.reverse ≠ none)
    (hlinks : ∀ more target, tree.kindAt? (here.reverse ++ more) ≠ some (.link target))
    {names : List String} (hfuel : names.length < fuel) (place : List String) :
    resolveFrom tree fuel links here (names.map .name) = .ok place ↔
      place = here.reverse ++ names ∧ tree.kindAt? place ≠ none := by
  induction names generalizing fuel here with
  | nil =>
      obtain ⟨fuel, rfl⟩ := Nat.exists_eq_add_one_of_ne_zero (Nat.ne_of_gt hfuel)
      rw [List.map_nil, resolveFrom, Except.ok.injEq, List.append_nil]
      exact ⟨fun h => ⟨h.symm, h ▸ hhere⟩, fun h => h.1.symm⟩
  | cons name rest ih =>
      obtain ⟨fuel, rfl⟩ :=
        Nat.exists_eq_add_one_of_ne_zero (Nat.ne_of_gt (Nat.zero_lt_of_lt hfuel))
      have hrow : here.reverse ++ name :: rest = (name :: here).reverse ++ rest := by simp
      rw [List.map_cons, resolveFrom_cons, hrow]
      by_cases hnext : tree.kindAt? (name :: here).reverse = none
      · -- neither the walk nor the row of names gets past a missing entry
        have hbelow : tree.kindAt? ((name :: here).reverse ++ rest) = none := by
          rw [kindAt?_eq_none_iff] at hnext ⊢
          rw [at?_append, hnext]
          rfl
        obtain ⟨e, hfails⟩ : ∃ e, tree.stepAlong links here (.name name) = .error e := by
          by_cases hdirectory : tree.kindAt? here.reverse = some .directory
          · exact ⟨_, stepAlong_missing hdirectory hnext links⟩
          · exact ⟨_, stepAlong_not_directory hdirectory links _⟩
        rw [hfails]
        constructor
        · rintro ⟨⟩
        · rintro ⟨rfl, hthere⟩
          exact absurd hbelow hthere
      · have hbelow : ∀ more target,
            tree.kindAt? ((name :: here).reverse ++ more) ≠ some (.link target) := by
          intro more
          simpa using hlinks (name :: more)
        have hlink := hbelow []
        rw [List.append_nil] at hlink
        rw [stepAlong_name hnext hlink]
        exact ih hnext hbelow (by simpa using hfuel)

theorem resolve_def (tree : Entry) (path : Path) :
    tree.resolve path =
      resolveFrom tree (stepBound tree path.components) maxLinks [] path.components := rfl

theorem lookup_eq_ok_iff {tree : Entry} {path : Path} {e : Entry} :
    tree.lookup path = .ok e ↔
      path.text ≠ "" ∧ ∃ place, tree.resolve path = .ok place ∧ tree.at? place = some e ∧
        (path.text.endsWith "/" → e.isDirectory) := by
  unfold lookup
  by_cases hempty : path.text = ""
  · simp [hempty]
  · rw [if_neg (by simpa using hempty)]
    cases hresolve : tree.resolve path with
    | error fault => simp
    | ok place =>
        cases hat : tree.at? place with
        | none => simp [hat]
        | some e' =>
            simp only [hempty, ne_eq, not_false_eq_true, true_and, Except.ok.injEq,
              exists_eq_left', hat, Option.some.injEq]
            split
            · rename_i hslash
              rw [Bool.and_eq_true, Bool.not_eq_true'] at hslash
              constructor
              · rintro ⟨⟩
              · rintro ⟨rfl, hdirectory⟩
                exact absurd (hdirectory hslash.1) (by simp [hslash.2])
            · rename_i hslash
              rw [Except.ok.injEq]
              constructor
              · rintro rfl
                refine ⟨rfl, fun hends => ?_⟩
                simpa [hends] using hslash
              · exact fun h => h.1

/-- A text is read where a path that does not end in a slash leads to a file
that holds it. -/
theorem read?_eq_some_iff {tree : Entry} {path : Path} {text : String} :
    tree.read? path = some text ↔
      path.text ≠ "" ∧ path.text.endsWith "/" = false ∧
        ∃ place, tree.resolve path = .ok place ∧
          tree.kindAt? place = some (.file (.text text)) := by
  have hread : tree.read? path = some text ↔ tree.lookup path = .ok (.file (.text text)) := by
    unfold read? read content
    cases tree.lookup path with
    | error fault => simp [Except.toOption]
    | ok e =>
        cases e with
        | file c => cases c <;> simp [Except.toOption]
        | link target => simp [Except.toOption]
        | directory entries => simp [Except.toOption]
  rw [hread, lookup_eq_ok_iff]
  simp only [kindAt?_eq_file_iff, isDirectory, Bool.false_eq_true, imp_false, Bool.not_eq_true]
  constructor
  · rintro ⟨hempty, place, hresolve, hat, hslash⟩
    exact ⟨hempty, hslash, place, hresolve, hat⟩
  · rintro ⟨hempty, hslash, place, hresolve, hat⟩
    exact ⟨hempty, place, hresolve, hat, hslash⟩

mutual

def isLinkFree : Entry → Bool
  | .file _ => true
  | .link _ => false
  | .directory entries => areLinkFree entries

def areLinkFree : List (String × Entry) → Bool
  | [] => true
  | (_, entry) :: rest => entry.isLinkFree && areLinkFree rest

end

theorem lookup_linkFree {entries : List (String × Entry)} (hfree : areLinkFree entries)
    {name : String} {e : Entry} (hlookup : entries.lookup name = some e) : e.isLinkFree := by
  induction entries with
  | nil => cases hlookup
  | cons first rest ih =>
      rw [areLinkFree, Bool.and_eq_true] at hfree
      rw [List.lookup_cons] at hlookup
      split at hlookup
      · obtain rfl := Option.some.inj hlookup
        exact hfree.1
      · exact ih hfree.2 hlookup

theorem kindAt?_ne_link {tree : Entry} (hfree : tree.isLinkFree) (names : List String)
    (target : String) : tree.kindAt? names ≠ some (.link target) := by
  induction names generalizing tree with
  | nil =>
      intro hlink
      cases tree with
      | link target => cases hfree
      | file content => cases hlink
      | directory entries => cases hlink
  | cons name rest ih =>
      intro hlink
      obtain ⟨child, hchild, hrest⟩ := Option.bind_eq_some_iff.mp (kindAt?_cons .. ▸ hlink)
      cases tree with
      | file content => cases hchild
      | link target => cases hchild
      | directory entries => exact ih (lookup_linkFree hfree hchild) hrest

/-- A path leads to a directory without links, which stands at the end of a row
of names in a well formed tree. -/
structure HoldsProject (tree : Entry) (root : Path) (base : List String) : Prop where
  wellFormed : tree.isWellFormed
  resolves : tree.resolve root = .ok base
  directory : ∃ entries, tree.lookup root = .ok (.directory entries) ∧ areLinkFree entries

namespace HoldsProject

def tree {entry : Entry} {root : Path} {base : List String} (h : entry.HoldsProject root base) :
    Tree := ⟨entry, h.wellFormed⟩

variable {tree : Entry} {root : Path} {base : List String}

theorem at_base (hproject : tree.HoldsProject root base) {entries : List (String × Entry)}
    (hroot : tree.lookup root = .ok (.directory entries)) :
    tree.at? base = some (.directory entries) := by
  obtain ⟨-, place, hresolve, hat, -⟩ := lookup_eq_ok_iff.mp hroot
  rw [hproject.resolves] at hresolve
  obtain rfl := Except.ok.inj hresolve
  exact hat

theorem text_ne (hproject : tree.HoldsProject root base) : root.text ≠ "" := by
  obtain ⟨entries, hroot, -⟩ := hproject.directory
  exact (lookup_eq_ok_iff.mp hroot).1

theorem hasDirectory (hproject : tree.HoldsProject root base) : tree.hasDirectory root := by
  obtain ⟨entries, hroot, -⟩ := hproject.directory
  rw [Entry.hasDirectory, hroot]
  rfl

theorem kindAt?_base (hproject : tree.HoldsProject root base) :
    tree.kindAt? base = some .directory := by
  obtain ⟨entries, hroot, -⟩ := hproject.directory
  exact kindAt?_eq_directory_iff.mpr ⟨entries, hproject.at_base hroot⟩

theorem no_link (hproject : tree.HoldsProject root base) (names : List String) (target : String) :
    tree.kindAt? (base ++ names) ≠ some (.link target) := by
  obtain ⟨entries, hroot, hfree⟩ := hproject.directory
  have hfree : (Entry.directory entries).isLinkFree := hfree
  rw [kindAt?_append (hproject.at_base hroot)]
  exact kindAt?_ne_link hfree names target

/-- A path that goes on from the root of a project with names leads down to
what stands at their end. -/
theorem resolve_iff (hproject : tree.HoldsProject root base) {path : Path} {names : List String}
    (hpath : path.components = root.components ++ names.map .name) (place : List String) :
    tree.resolve path = .ok place ↔ place = base ++ names ∧ tree.kindAt? place ≠ none := by
  obtain ⟨fuel, links, hfuel, hwalk⟩ := resolveFrom_append hproject.resolves (names.map .name)
  rw [resolve_def, hpath, stepBound_append, hwalk]
  have hbase : base.reverse.reverse = base := List.reverse_reverse base
  rw [resolveFrom_names_iff (by simp [hbase, hproject.kindAt?_base])
    (by simpa [hbase] using hproject.no_link) (by simpa using hfuel), hbase]

/-- Below the root a file or directory is looked up under its names. -/
theorem lookup_below (hproject : tree.HoldsProject root base) {names : List String} {e : Entry}
    (hat : tree.at? (base ++ names) = some e) (hbelow : names ≠ []) :
    tree.lookup (root.below names) = .ok e := by
  have hnames : ∀ n ∈ names, Path.isName n := fun n hn =>
    isName_of_at? hproject.wellFormed hat n (List.mem_append_right _ hn)
  obtain ⟨hempty, hslash⟩ := root.text_below hnames hbelow
  rw [lookup_eq_ok_iff]
  refine ⟨hempty, base ++ names, ?_, hat, by simp [hslash]⟩
  rw [hproject.resolve_iff (root.components_below hnames)]
  exact ⟨rfl, by simp [hat]⟩

/-- A name that is missing below the root is not found. -/
theorem lookup_join_missing (hproject : tree.HoldsProject root base) {name : String}
    (hname : Path.isName name) (hmissing : tree.kindAt? (base ++ [name]) = none) :
    tree.lookup (root.join name) = .error .notFound := by
  obtain ⟨hempty, -⟩ := root.text_join hname
  have hresolve : tree.resolve (root.join name) = .error .notFound := by
    obtain ⟨fuel, links, hfuel, hwalk⟩ := resolveFrom_append hproject.resolves [.name name]
    obtain ⟨fuel, rfl⟩ := Nat.exists_eq_add_one_of_ne_zero (Nat.ne_of_gt (Nat.zero_lt_of_lt hfuel))
    have hstep : tree.stepAlong links base.reverse (.name name) = .error .notFound :=
      stepAlong_missing (by simpa using hproject.kindAt?_base) (by simpa using hmissing) links
    rw [resolve_def, root.components_join hname, stepBound_append, hwalk, resolveFrom_cons, hstep]
  rw [lookup, if_neg (by simpa using hempty), hresolve]

/-- What a name below the root leads to is what stands there. -/
theorem lookup_join (hproject : tree.HoldsProject root base) {name : String}
    (hname : Path.isName name) :
    (tree.lookup (root.join name)).map kind =
      match tree.kindAt? (base ++ [name]) with
      | some k => .ok k
      | none => .error .notFound := by
  cases hat : tree.at? (base ++ [name]) with
  | none =>
      have hmissing : tree.kindAt? (base ++ [name]) = none := by simp [hat]
      rw [hproject.lookup_join_missing hname hmissing, hmissing]
      rfl
  | some e =>
      have hlookup : tree.lookup (root.join name) = .ok e := hproject.lookup_below hat (by simp)
      rw [hlookup, kindAt?, hat]
      rfl

end HoldsProject

theorem content_eq_of_kind {tree tree' : Entry} {path : Path}
    (hkind : (tree.lookup path).map kind = (tree'.lookup path).map kind) :
    tree.content path = tree'.content path := by
  have hcontent : ∀ tree : Entry, tree.content path =
      match (tree.lookup path).map kind with
      | .ok (.file c) => .ok c
      | .ok _ => .error .isDirectory
      | .error e => .error e := by
    intro tree
    unfold content
    cases tree.lookup path with
    | error fault => rfl
    | ok e => cases e <;> rfl
  rw [hcontent, hcontent, hkind]

theorem read_eq_of_content {tree tree' : Entry} {path : Path}
    (hcontent : tree.content path = tree'.content path) : tree.read path = tree'.read path := by
  rw [read, read, hcontent]

theorem read?_eq_of_content {tree tree' : Entry} {path : Path}
    (hcontent : tree.content path = tree'.content path) : tree.read? path = tree'.read? path := by
  rw [read?, read?, read_eq_of_content hcontent]

theorem hasFile_eq (tree : Entry) (path : Path) :
    tree.hasFile path = (tree.content path).toBool := by
  unfold hasFile content
  cases tree.lookup path with
  | error fault => rfl
  | ok e => cases e <;> rfl

end Entry

end WebAudit
