import WebAudit.Proofs.PathComponents

/-!
The files that a scan looks at. Directories have different names for their
entries, which holds in every tree that is put together entry by entry. A walk
enters no directory that is ignored, so a file is found when none of the
directories on the way to it is ignored as a directory and it is not ignored as
a file; rules that take back what others ignore are not asked below an ignored
directory. Of the files that are found a plain script makes way for a typed one
with its stem in its directory, but only for one that is found itself. What is
left stands in the order of components, each file once.
-/

namespace WebAudit

open Std

namespace Entry

mutual

/-- Whether each directory has entries with different names that can be names
of entries, at all depths. -/
def isWellFormed : Entry → Bool
  | .file _ => true
  | .link _ => true
  | .directory entries => areWellFormed entries

def areWellFormed : List (String × Entry) → Bool
  | [] => true
  | (name, entry) :: rest =>
    Path.isName name && (rest.lookup name).isNone && entry.isWellFormed && areWellFormed rest

end

theorem areWellFormed_cons {name : String} {entry : Entry} {rest : List (String × Entry)}
    (hwf : areWellFormed ((name, entry) :: rest)) :
    Path.isName name ∧ rest.lookup name = none ∧ entry.isWellFormed ∧ areWellFormed rest := by
  simpa [areWellFormed, and_assoc] using hwf

theorem lookup_wellFormed {entries : List (String × Entry)} (hwf : areWellFormed entries)
    {name : String} {entry : Entry} (hlookup : entries.lookup name = some entry) :
    Path.isName name ∧ entry.isWellFormed := by
  induction entries with
  | nil => simp at hlookup
  | cons first rest ih =>
      obtain ⟨name', entry'⟩ := first
      obtain ⟨hname, -, hentry, hrest⟩ := areWellFormed_cons hwf
      rw [List.lookup_cons] at hlookup
      split at hlookup
      · rename_i hsame
        obtain rfl : name = name' := by simpa using hsame
        obtain rfl := Option.some.inj hlookup
        exact ⟨hname, hentry⟩
      · exact ih hrest hlookup

theorem lookup_putIn_of_ne {n name : String} (hne : n ≠ name) (entry : Entry)
    (entries : List (String × Entry)) : (putIn name entry entries).lookup n = entries.lookup n := by
  induction entries with
  | nil => simp [putIn, hne]
  | cons first rest ih =>
      obtain ⟨name', entry'⟩ := first
      rw [putIn]
      split
      · rename_i hsame
        obtain rfl : name' = name := by simpa using hsame
        simp [List.lookup_cons, beq_eq_false_iff_ne.mpr hne]
      · rw [List.lookup_cons, List.lookup_cons, ih]

theorem putIn_wellFormed {name : String} {entry : Entry} {entries : List (String × Entry)}
    (hname : Path.isName name) (hentry : entry.isWellFormed) (hwf : areWellFormed entries) :
    areWellFormed (putIn name entry entries) := by
  induction entries with
  | nil => simp [putIn, areWellFormed, hname, hentry]
  | cons first rest ih =>
      obtain ⟨name', entry'⟩ := first
      obtain ⟨hname', hfresh, hentry', hrest⟩ := areWellFormed_cons hwf
      rw [putIn]
      split
      · rename_i hsame
        obtain rfl : name' = name := by simpa using hsame
        simp [areWellFormed, hname', hfresh, hentry, hrest]
      · rename_i hother
        have hne : name' ≠ name := by simpa using hother
        simp [areWellFormed, hname', lookup_putIn_of_ne hne, hfresh, hentry', ih hrest]

/-- Trees stay well formed when entries are put in under names, so all that are
made that way are. -/
theorem put_wellFormed {entry : Entry} (hentry : entry.isWellFormed) {names : List String}
    (hnames : ∀ n ∈ names, Path.isName n) {top : Entry} (hwf : top.isWellFormed) :
    (put entry names top).isWellFormed := by
  induction names generalizing top with
  | nil => exact hentry
  | cons name rest ih =>
      obtain ⟨hname, hrest⟩ := List.forall_mem_cons.mp hnames
      have hfresh : (directory [(name, put entry rest empty)]).isWellFormed :=
        putIn_wellFormed hname (ih hrest rfl) (rfl : areWellFormed [])
      cases top with
      | file content => exact hfresh
      | link target => exact hfresh
      | directory entries =>
          refine putIn_wellFormed hname (ih hrest ?_) hwf
          cases hlookup : entries.lookup name with
          | none => rfl
          | some child => exact (lookup_wellFormed hwf hlookup).2

/-- The names on the way to an entry of a well formed tree are names. -/
theorem isName_of_at? {top : Entry} (hwf : top.isWellFormed) {names : List String} {e : Entry}
    (hat : top.at? names = some e) : ∀ n ∈ names, Path.isName n := by
  induction names generalizing top with
  | nil => simp
  | cons name rest ih =>
      rw [at?, Option.bind_eq_some_iff] at hat
      obtain ⟨child, hchild, hat⟩ := hat
      cases top with
      | file content => simp [child?] at hchild
      | link target => simp [child?] at hchild
      | directory entries =>
          obtain ⟨hname, hentry⟩ := lookup_wellFormed hwf hchild
          intro n hn
          rcases List.mem_cons.mp hn with rfl | hlater
          · exact hname
          · exact ih hentry hat n hlater

theorem at?_wellFormed {tree e : Entry} (hwf : tree.isWellFormed) {names : List String}
    (hat : tree.at? names = some e) : e.isWellFormed := by
  induction names generalizing tree with
  | nil =>
      obtain rfl := Option.some.inj hat
      exact hwf
  | cons name rest ih =>
      obtain ⟨child, hchild, hrest⟩ := Option.bind_eq_some_iff.mp hat
      cases tree with
      | file content => cases hchild
      | link target => cases hchild
      | directory entries => exact ih (lookup_wellFormed hwf hchild).2 hrest

theorem at?_first (name : String) (entry : Entry) (others : List (String × Entry))
    (rest : List String) :
    (Entry.directory ((name, entry) :: others)).at? (name :: rest) = entry.at? rest := by
  simp [at?, child?]

theorem at?_other {name name' : String} (hne : name ≠ name') (entry : Entry)
    (others : List (String × Entry)) (rest : List String) :
    (Entry.directory ((name', entry) :: others)).at? (name :: rest) =
      (Entry.directory others).at? (name :: rest) := by
  simp [at?, child?, List.lookup_cons, beq_eq_false_iff_ne.mpr hne]

theorem at?_absent {name : String} {entries : List (String × Entry)}
    (habsent : entries.lookup name = none) (rest : List String) :
    (Entry.directory entries).at? (name :: rest) = none := by
  simp [at?, child?, habsent]

end Entry

/-- A tree whose directories have entries with different proper names. -/
structure Tree where
  root : Entry
  wellFormed : root.isWellFormed

def Tree.lookedUp (tree : Tree) {path : Path} {e : Entry} (he : tree.root.lookup path = .ok e) :
    Tree where
  root := e
  wellFormed := by
    unfold Entry.lookup at he
    repeat' split at he
    all_goals cases he
    rename_i hat _
    exact Entry.at?_wellFormed tree.wellFormed hat

namespace Project

/-- Whether a walk that has come to a path gets along names to a file: no
directory on the way is ignored, and neither is the file. -/
def Reaches (rules : RuleSet) : Path → List String → Prop
  | path, [] => rules.isIgnored path false = false
  | path, name :: rest => rules.isIgnored path true = false ∧ Reaches rules (path.join name) rest

mutual

theorem mem_filesAt_iff (rules : RuleSet) (path : Path) (e : Entry) (hwf : e.isWellFormed)
    (p : Path) :
    p ∈ filesAt rules path e ↔
      ∃ names, (∃ content, e.at? names = some (.file content)) ∧ Reaches rules path names ∧
        p = path.below names := by
  cases e with
  | file content =>
      constructor
      · intro hmember
        rw [filesAt] at hmember
        split at hmember
        · simp at hmember
        · rename_i hkept
          exact ⟨[], ⟨content, rfl⟩, Bool.eq_false_iff.mpr hkept, List.mem_singleton.mp hmember⟩
      · rintro ⟨names, ⟨content', hat⟩, hreaches, rfl⟩
        cases names with
        | nil =>
            have hkept : rules.isIgnored path false = false := hreaches
            simp [filesAt, hkept, Path.below]
        | cons name rest => simp [Entry.at?, Entry.child?] at hat
  | link target =>
      constructor
      · simp [filesAt]
      · rintro ⟨names, ⟨content, hat⟩, -, -⟩
        cases names <;> simp [Entry.at?, Entry.child?] at hat
  | directory entries =>
      have hin := mem_filesIn_iff rules path entries hwf p
      constructor
      · intro hmember
        rw [filesAt] at hmember
        split at hmember
        · simp at hmember
        · rename_i hentered
          obtain ⟨name, rest, hfile, hreaches, hp⟩ := hin.mp hmember
          exact ⟨name :: rest, hfile, ⟨by simpa using hentered, hreaches⟩, hp⟩
      · rintro ⟨names, hfile, hreaches, hp⟩
        cases names with
        | nil => simp [Entry.at?] at hfile
        | cons name rest =>
            rw [filesAt, if_neg (by simp [hreaches.1])]
            exact hin.mpr ⟨name, rest, hfile, hreaches.2, hp⟩

theorem mem_filesIn_iff (rules : RuleSet) (directory : Path) (entries : List (String × Entry))
    (hwf : Entry.areWellFormed entries) (p : Path) :
    p ∈ filesIn rules directory entries ↔
      ∃ name rest,
        (∃ content, (Entry.directory entries).at? (name :: rest) = some (.file content)) ∧
        Reaches rules (directory.join name) rest ∧ p = directory.below (name :: rest) := by
  cases entries with
  | nil => simp [filesIn, Entry.at?, Entry.child?]
  | cons first others =>
      obtain ⟨name', entry⟩ := first
      obtain ⟨-, hfresh, hentry, hothers⟩ := Entry.areWellFormed_cons hwf
      have hat := mem_filesAt_iff rules (directory.join name') entry hentry p
      have hin := mem_filesIn_iff rules directory others hothers p
      rw [filesIn, List.mem_append, hat, hin]
      constructor
      · rintro (⟨names, hfile, hreaches, hp⟩ | ⟨name, rest, hfile, hreaches, hp⟩)
        · exact ⟨name', names, by simpa only [Entry.at?_first] using hfile, hreaches, hp⟩
        · have hne : name ≠ name' := by
            rintro rfl
            simp [Entry.at?_absent hfresh] at hfile
          exact ⟨name, rest, by simpa only [Entry.at?_other hne] using hfile, hreaches, hp⟩
      · rintro ⟨name, rest, hfile, hreaches, hp⟩
        by_cases hname : name = name'
        · subst hname
          rw [Entry.at?_first] at hfile
          exact Or.inl ⟨rest, hfile, hreaches, hp⟩
        · rw [Entry.at?_other hname] at hfile
          exact Or.inr ⟨name, rest, hfile, hreaches, hp⟩

end

/-- A file below the root of the rules that they do not hide: none of the
directories from below the root down to it is ignored as a directory, and it is
not ignored as a file. -/
structure Visible (rules : RuleSet) (top : Entry) (names : List String) : Prop where
  file : ∃ content, top.at? names = some (.file content)
  entered : ∀ dir, dir <+: names → dir ≠ [] → dir ≠ names →
    rules.isIgnored (rules.root.below dir) true = false
  kept : rules.isIgnored (rules.root.below names) false = false

/-- Whether a walk gets along names, step by step or seen as a whole. -/
theorem reaches_iff (rules : RuleSet) (path : Path) (names : List String) :
    Reaches rules path names ↔
      (∀ dir, dir <+: names → dir ≠ names → rules.isIgnored (path.below dir) true = false) ∧
        rules.isIgnored (path.below names) false = false := by
  induction names generalizing path with
  | nil => simp [Reaches, Path.below]
  | cons name rest ih =>
      rw [Reaches, ih]
      constructor
      · rintro ⟨hpath, hentered, hkept⟩
        refine ⟨fun dir hprefix hne => ?_, hkept⟩
        rcases List.prefix_cons_iff.mp hprefix with rfl | ⟨below, rfl, hbelow⟩
        · exact hpath
        · exact hentered below hbelow fun hsame => hne (hsame ▸ rfl)
      · rintro ⟨hentered, hkept⟩
        refine ⟨hentered [] List.nil_prefix (by simp), fun dir hprefix hne => ?_, hkept⟩
        exact hentered (name :: dir) (by simpa using hprefix) (by simpa using hne)

theorem visible_iff (rules : RuleSet) (entries : List (String × Entry)) (names : List String) :
    Visible rules (.directory entries) names ↔
      ∃ name rest, names = name :: rest ∧
        (∃ content, (Entry.directory entries).at? (name :: rest) = some (.file content)) ∧
        Reaches rules (rules.root.join name) rest := by
  constructor
  · rintro ⟨hfile, hentered, hkept⟩
    cases names with
    | nil => simp [Entry.at?] at hfile
    | cons name rest =>
        refine ⟨name, rest, rfl, hfile, (reaches_iff _ _ _).mpr ⟨fun dir hprefix hne => ?_, hkept⟩⟩
        exact hentered (name :: dir) (by simpa using hprefix) (by simp) (by simpa using hne)
  · rintro ⟨name, rest, rfl, hfile, hreaches⟩
    obtain ⟨hentered, hkept⟩ := (reaches_iff _ _ _).mp hreaches
    refine ⟨hfile, fun dir hprefix hbelow hne => ?_, hkept⟩
    rcases List.prefix_cons_iff.mp hprefix with rfl | ⟨below, rfl, hrest⟩
    · exact absurd rfl hbelow
    · exact hentered below hrest fun hsame => hne (hsame ▸ rfl)

/-- The walk finds the visible files. -/
theorem mem_walk_iff (rules : RuleSet) {top : Tree} {entries : List (String × Entry)}
    (htop : top.root = .directory entries) (p : Path) :
    p ∈ filesIn rules rules.root entries ↔
      ∃ names, Visible rules top.root names ∧ p = rules.root.below names := by
  have hwf : (Entry.directory entries).isWellFormed := htop ▸ top.wellFormed
  rw [htop, mem_filesIn_iff rules rules.root entries hwf p]
  constructor
  · rintro ⟨name, rest, hfile, hreaches, hp⟩
    exact ⟨name :: rest, (visible_iff _ _ _).mpr ⟨name, rest, rfl, hfile, hreaches⟩, hp⟩
  · rintro ⟨names, hvisible, hp⟩
    obtain ⟨name, rest, rfl, hfile, hreaches⟩ := (visible_iff _ _ _).mp hvisible
    exact ⟨name, rest, hfile, hreaches, hp⟩

mutual

/-- No two files that a walk finds have the same components. -/
theorem filesAt_pairwise (rules : RuleSet) (path : Path) (e : Entry) (hwf : e.isWellFormed) :
    (filesAt rules path e).Pairwise fun a b => a.components ≠ b.components := by
  cases e with
  | file content =>
      rw [filesAt]
      split <;> simp
  | link target => simp [filesAt]
  | directory entries =>
      rw [filesAt]
      split
      · exact List.Pairwise.nil
      · exact filesIn_pairwise rules path entries hwf

theorem filesIn_pairwise (rules : RuleSet) (directory : Path) (entries : List (String × Entry))
    (hwf : Entry.areWellFormed entries) :
    (filesIn rules directory entries).Pairwise fun a b => a.components ≠ b.components := by
  cases entries with
  | nil => simp [filesIn]
  | cons first others =>
      obtain ⟨name, entry⟩ := first
      obtain ⟨hname, hfresh, hentry, hothers⟩ := Entry.areWellFormed_cons hwf
      rw [filesIn, List.pairwise_append]
      refine ⟨filesAt_pairwise rules (directory.join name) entry hentry,
        filesIn_pairwise rules directory others hothers, ?_⟩
      -- files of different entries already differ in the component below the directory
      intro a ha b hb hsame
      obtain ⟨names, ⟨_, hfile⟩, -, rfl⟩ := (mem_filesAt_iff rules _ entry hentry a).mp ha
      obtain ⟨name', rest, ⟨_, hfile'⟩, -, rfl⟩ :=
        (mem_filesIn_iff rules directory others hothers b).mp hb
      have hnames : ∀ n ∈ name :: names, Path.isName n := by
        rw [List.forall_mem_cons]
        exact ⟨hname, Entry.isName_of_at? hentry hfile⟩
      have hdirectory : (Entry.directory others).isWellFormed := hothers
      have hnames' : ∀ n ∈ name' :: rest, Path.isName n := Entry.isName_of_at? hdirectory hfile'
      have hrows := directory.below_injective hnames hnames' hsame
      obtain ⟨rfl, -⟩ := List.cons.inj hrows
      simp [Entry.at?_absent hfresh] at hfile'

end

/-- A plain script that makes way for a typed one: a visible file in its
directory has its stem and an extension of typed scripts. -/
def Displaced (rules : RuleSet) (top : Entry) (names : List String) : Prop :=
  ∃ dir stem, stem ≠ "" ∧ (∃ plain ∈ plainExtensions, names = dir ++ [stem ++ "." ++ plain]) ∧
    ∃ typed ∈ typedExtensions, Visible rules top (dir ++ [stem ++ "." ++ typed])

theorem plain_no_dot : ∀ ext ∈ plainExtensions, '.' ∉ ext.toList := by decide

theorem typed_no_dot : ∀ ext ∈ typedExtensions, '.' ∉ ext.toList := by decide

theorem Visible.isName {rules : RuleSet} {top : Tree} {names : List String}
    (hvisible : Visible rules top.root names) : ∀ n ∈ names, Path.isName n := by
  obtain ⟨content, hat⟩ := hvisible.file
  exact Entry.isName_of_at? top.wellFormed hat

/-- A visible file has a name, in a directory below the root. -/
theorem Visible.eq_concat {rules : RuleSet} {entries : List (String × Entry)}
    {names : List String} (hvisible : Visible rules (.directory entries) names) :
    ∃ dir name, names = dir ++ [name] := by
  obtain ⟨first, rest, rfl, -, -⟩ := (visible_iff rules entries names).mp hvisible
  exact ⟨_, _, (List.dropLast_concat_getLast (List.cons_ne_nil first rest)).symm⟩

theorem mem_preferTyped_iff (files : List Path) (p : Path) :
    p ∈ preferTyped files ↔
      p ∈ files ∧ ¬(p.hasExtension plainExtensions ∧
        ∃ key, p.stemKey? = some key ∧
          ∃ q ∈ files, q.hasExtension typedExtensions ∧ q.stemKey? = some key) := by
  cases hkey : p.stemKey? <;> simp [preferTyped, hkey, and_assoc, imp_iff_not_or]

/-- Among the files of a walk, those that make way are the displaced ones. -/
theorem displaced_iff (rules : RuleSet) {top : Tree} {entries : List (String × Entry)}
    (htop : top.root = .directory entries) {names : List String}
    (hvisible : Visible rules top.root names) :
    ((rules.root.below names).hasExtension plainExtensions ∧
      ∃ key, (rules.root.below names).stemKey? = some key ∧
        ∃ q ∈ filesIn rules rules.root entries,
          q.hasExtension typedExtensions ∧ q.stemKey? = some key) ↔
      Displaced rules top.root names := by
  constructor
  · rintro ⟨hplain, key, hkey, q, hq, htyped, hkey'⟩
    obtain ⟨names', hvisible', rfl⟩ := (mem_walk_iff rules htop q).mp hq
    obtain ⟨dir, name, rfl⟩ := Visible.eq_concat (htop ▸ hvisible)
    obtain ⟨dir', name', rfl⟩ := Visible.eq_concat (htop ▸ hvisible')
    obtain ⟨hdir, hname⟩ := List.forall_mem_append.mp hvisible.isName
    obtain ⟨hdir', hname'⟩ := List.forall_mem_append.mp hvisible'.isName
    rw [List.forall_mem_singleton] at hname hname'
    rw [Path.below_concat] at hplain hkey htyped hkey'
    obtain ⟨stem, hstem, plain, hmem, rfl⟩ :=
      (Path.hasExtension_join_iff _ hname plain_no_dot).mp hplain
    obtain ⟨stem', hstem', typed, hmem', rfl⟩ :=
      (Path.hasExtension_join_iff _ hname' typed_no_dot).mp htyped
    rw [Path.stemKey?_dotted _ hname hstem (plain_no_dot plain hmem)] at hkey
    rw [Path.stemKey?_dotted _ hname' hstem' (typed_no_dot typed hmem')] at hkey'
    -- the same key: the same directory, since components determine names, and the same stem
    obtain ⟨hcomponents, rfl⟩ := Prod.mk.inj (Option.some.inj (hkey'.trans hkey.symm))
    obtain rfl := rules.root.below_injective hdir' hdir hcomponents
    exact ⟨_, _, hstem, ⟨plain, hmem, rfl⟩, typed, hmem', hvisible'⟩
  · rintro ⟨dir, stem, hstem, ⟨plain, hplain, rfl⟩, typed, htyped, hvisible'⟩
    have hname := hvisible.isName (stem ++ "." ++ plain) (by simp)
    have hname' := hvisible'.isName (stem ++ "." ++ typed) (by simp)
    refine ⟨?_, ((rules.root.below dir).components, stem), ?_,
      rules.root.below (dir ++ [stem ++ "." ++ typed]),
      (mem_walk_iff rules htop _).mpr ⟨_, hvisible', rfl⟩, ?_, ?_⟩
    · rw [Path.below_concat, Path.hasExtension_join_iff _ hname plain_no_dot]
      exact ⟨stem, hstem, plain, hplain, rfl⟩
    · rw [Path.below_concat, Path.stemKey?_dotted _ hname hstem (plain_no_dot plain hplain)]
    · rw [Path.below_concat, Path.hasExtension_join_iff _ hname' typed_no_dot]
      exact ⟨stem, hstem, typed, htyped, rfl⟩
    · rw [Path.below_concat, Path.stemKey?_dotted _ hname' hstem (typed_no_dot typed htyped)]

theorem discover_eq {tree : Entry} {rules : RuleSet} {entries : List (String × Entry)}
    (hroot : tree.lookup rules.root = .ok (.directory entries)) :
    discover tree rules =
      (preferTyped (filesIn rules rules.root entries)).mergeSort pathLe := by
  rw [discover, hroot]

theorem mem_discover_iff (tree : Tree) {rules : RuleSet} {entries : List (String × Entry)}
    (hroot : tree.root.lookup rules.root = .ok (.directory entries)) (p : Path) :
    p ∈ discover tree.root rules ↔
      ∃ names, Visible rules (.directory entries) names ∧
        ¬Displaced rules (.directory entries) names ∧ p = rules.root.below names := by
  have htop : (tree.lookedUp hroot).root = .directory entries := rfl
  rw [discover_eq hroot, List.mem_mergeSort, mem_preferTyped_iff, mem_walk_iff rules htop]
  constructor
  · rintro ⟨⟨names, hvisible, rfl⟩, hstays⟩
    exact ⟨names, hvisible, fun h => hstays ((displaced_iff rules htop hvisible).mpr h), rfl⟩
  · rintro ⟨names, hvisible, hstays, rfl⟩
    exact ⟨⟨names, hvisible, rfl⟩, fun h => hstays ((displaced_iff rules htop hvisible).mp h)⟩

theorem pathLe_trans (a b c : Path) (hab : pathLe a b) (hbc : pathLe b c) : pathLe a c := by
  simp only [pathLe, bne_iff_ne, ← Ordering.isLE_iff_ne_gt] at *
  exact TransCmp.isLE_trans hab hbc

theorem pathLe_total (a b : Path) : pathLe a b || pathLe b a := by
  have hswap : Path.order b a = (Path.order a b).swap := OrientedCmp.eq_swap
  cases horder : Path.order a b <;> simp [pathLe, hswap, horder]

/-- What is discovered stands in strictly increasing order: the sorting leaves
no order but `eq` open, and different files have different components. -/
theorem discover_pairwise (tree : Tree) {rules : RuleSet} {entries : List (String × Entry)}
    (hroot : tree.root.lookup rules.root = .ok (.directory entries)) :
    (discover tree.root rules).Pairwise fun p q => Path.order p q = .lt := by
  have hwf : (Entry.directory entries).isWellFormed := (tree.lookedUp hroot).wellFormed
  have hfiles : (preferTyped (filesIn rules rules.root entries)).Pairwise
      fun p q => p.components ≠ q.components :=
    (filesIn_pairwise rules rules.root entries hwf).filter _
  rw [discover_eq hroot]
  have hsorted := List.pairwise_mergeSort pathLe_trans pathLe_total
    (preferTyped (filesIn rules rules.root entries))
  have hdistinct := hfiles.perm (List.mergeSort_perm _ pathLe).symm fun h => h.symm
  refine hsorted.imp₂ (fun p q hle hne => ?_) hdistinct
  cases horder : Path.order p q with
  | lt => rfl
  | eq => exact absurd (Path.components_eq_of_order_eq horder) hne
  | gt => simp [pathLe, horder] at hle

/-- Discovery is exact: it gives, in strictly increasing order, the visible
files that are not displaced. In particular no file below an ignored directory
is among them, whatever the rules say about the file, and a plain script whose
typed twins are all ignored is. -/
theorem discover_exact (tree : Tree) (rules : RuleSet) (entries : List (String × Entry))
    (hroot : tree.root.lookup rules.root = .ok (.directory entries)) :
    (discover tree.root rules).Pairwise (fun p q => Path.order p q = .lt) ∧
    (∀ p, p ∈ discover tree.root rules ↔
      ∃ names, Visible rules (.directory entries) names ∧
        ¬Displaced rules (.directory entries) names ∧ p = rules.root.below names) ∧
    (∀ dir names content, dir <+: names → dir ≠ [] → dir ≠ names →
      (Entry.directory entries).at? names = some (.file content) →
      rules.isIgnored (rules.root.below dir) true →
      rules.root.below names ∉ discover tree.root rules) ∧
    (∀ dir stem, ∀ plain ∈ plainExtensions, stem ≠ "" →
      Visible rules (.directory entries) (dir ++ [stem ++ "." ++ plain]) →
      (∀ typed ∈ typedExtensions, ∀ content,
        (Entry.directory entries).at? (dir ++ [stem ++ "." ++ typed]) = some (.file content) →
        rules.isIgnored (rules.root.below (dir ++ [stem ++ "." ++ typed])) false) →
      rules.root.below (dir ++ [stem ++ "." ++ plain]) ∈ discover tree.root rules) := by
  have hmember := mem_discover_iff tree hroot
  refine ⟨discover_pairwise tree hroot, hmember, ?_, ?_⟩
  · intro dir names content hprefix hbelow hne hfile hignored hfound
    obtain ⟨names', hvisible, -, hsame⟩ := (hmember _).mp hfound
    have hnames := Entry.isName_of_at? (tree.lookedUp hroot).wellFormed hfile
    have hvisible' : Visible rules (tree.lookedUp hroot).root names' := hvisible
    obtain rfl :=
      rules.root.below_injective hnames hvisible'.isName (congrArg Path.components hsame)
    simp [hvisible.entered dir hprefix hbelow hne] at hignored
  · intro dir stem plain hplain hstem hvisible htwins
    refine (hmember _).mpr ⟨_, hvisible, ?_, rfl⟩
    rintro ⟨dir', stem', hstem', ⟨plain', hplain', hsame⟩, typed, htyped, htwin⟩
    -- the same name splits the same way
    obtain ⟨rfl, hname⟩ := List.append_inj' hsame rfl
    have hsplit := Path.splitName_dotted hstem (plain_no_dot plain hplain)
    rw [List.singleton_inj.mp hname,
      Path.splitName_dotted hstem' (plain_no_dot plain' hplain')] at hsplit
    obtain rfl : stem' = stem := String.toList_inj.mp (Prod.mk.inj hsplit).1
    obtain ⟨content, hfile⟩ := htwin.file
    have hignored := htwins typed htyped content hfile
    simp [htwin.kept] at hignored

end Project

end WebAudit
