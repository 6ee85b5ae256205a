import WebAudit.Proofs.SettingTrees
import WebAudit.Toml.Document

/-!
Tables that a document describes. No statement gives a name twice: an assignment
adds a name that is not there, and a header opens what is there or adds it. So
the layer of a document gives each of its names once, and so does each of its
tables.
-/

namespace WebAudit.Toml

/-- A run of steps that may fail keeps what each of its steps keeps. -/
theorem foldlM_keeps {σ α : Type} {step? : σ → α → Option σ} {P : σ → Prop} {items : List α}
    (hstep : ∀ item ∈ items, ∀ s s', step? s item = some s' → P s → P s') {s s' : σ}
    (hrun : items.foldlM step? s = some s') (hs : P s) : P s' := by
  induction items generalizing s with
  | nil =>
      cases hrun
      exact hs
  | cons item rest ih =>
      rw [List.foldlM_cons] at hrun
      obtain ⟨next, hnext, hrun⟩ := Option.bind_eq_some_iff.mp hrun
      obtain ⟨hitem, hrest⟩ := List.forall_mem_cons.mp hstep
      exact ih hrest hrun (hitem s next hnext hs)

def Value.IsDistinct : Value → Prop
  | .table entries => (entries.map Prod.fst).Nodup
  | _ => True

def Node.IsDistinct : Node → Prop
  | .value v => v.IsDistinct
  | .table _ _ entries => (entries.map Prod.fst).Nodup
  | .tables _ => True

section Names

theorem Node.map_fst_entryValues (entries : List (String × Node)) :
    (entryValues entries).map Prod.fst = entries.map Prod.fst := by
  induction entries with
  | nil => rfl
  | cons first rest ih => simp [entryValues, ih]

theorem Node.lookup_entryValues (name : String) (entries : List (String × Node)) :
    (entryValues entries).lookup name = (entries.lookup name).map toValue := by
  induction entries with
  | nil => rfl
  | cons first rest ih =>
      rw [entryValues, lookup_cons_ite, lookup_cons_ite, ih]
      split <;> rfl

theorem map_fst_ofEntries (entries : List (String × Value)) :
    (Setting.ofEntries entries).map Prod.fst = entries.map Prod.fst := by
  induction entries with
  | nil => rfl
  | cons first rest ih => simp [Setting.ofEntries, ih]

theorem lookup_ofEntries (name : String) (entries : List (String × Value)) :
    (Setting.ofEntries entries).lookup name = (entries.lookup name).map Setting.ofToml := by
  induction entries with
  | nil => rfl
  | cons first rest ih =>
      rw [Setting.ofEntries, lookup_cons_ite, lookup_cons_ite, ih]
      split <;> rfl

end Names

namespace Table

/-- A table that gives no name twice. -/
def HasNames (t : Table) : Prop := (t.entries.map Prod.fst).Nodup

structure IsDistinct (t : Table) : Prop where
  names : t.HasNames
  inner : ∀ name node, t.entries.lookup name = some node → node.IsDistinct

theorem HasNames.set {t : Table} (hnames : t.HasNames) (name : String) (node : Node) :
    (t.set name node).HasNames := by
  rw [HasNames, Table.set, put_eq]
  exact nodup_putNamed hnames

theorem IsDistinct.set {t : Table} (hdistinct : t.IsDistinct) (name : String) {node : Node}
    (hnode : node.IsDistinct) : (t.set name node).IsDistinct where
  names := hdistinct.names.set name node
  inner other node' hlookup := by
    rw [Table.set, put_eq, lookup_putNamed] at hlookup
    split at hlookup
    · exact Option.some.inj hlookup ▸ hnode
    · exact hdistinct.inner other node' hlookup

/-- A change after which tables still have a property. -/
def Keeps (P : Table → Prop) (change : Table → Option Table) : Prop :=
  ∀ t t', change t = some t' → P t → P t'

section Update

variable {byKey : Bool} {change : Table → Option Table} {path : List String}

theorem names_update (hnames : Keeps HasNames change) :
    Keeps HasNames (update byKey change path) := by
  intro t t' hupdate ht
  cases path with
  | nil => exact hnames t t' hupdate ht
  | cons name rest =>
      unfold update at hupdate
      repeat' split at hupdate
      any_goals cases hupdate
      all_goals
        obtain ⟨u, -, rfl⟩ := Option.map_eq_some_iff.mp hupdate
        exact ht.set name _

/-- A change at the end of a path keeps names apart all along. -/
theorem distinct_update (hnames : Keeps HasNames change) (hdistinct : Keeps IsDistinct change) :
    Keeps IsDistinct (update byKey change path) := by
  intro t t' hupdate ht
  cases path with
  | nil => exact hdistinct t t' hupdate ht
  | cons name rest =>
      have hnode : ((t.entries.lookup name).getD (.table true byKey [])).IsDistinct := by
        cases hlookup : t.entries.lookup name with
        | none => exact List.nodup_nil
        | some node => exact ht.inner name node hlookup
      unfold update at hupdate
      split at hupdate
      · cases hupdate
      · rename_i implicit dotted entries hentries
        rw [hentries] at hnode
        split at hupdate
        · cases hupdate
        · obtain ⟨u, hu, rfl⟩ := Option.map_eq_some_iff.mp hupdate
          exact ht.set name (names_update hnames _ u hu hnode)
      · split at hupdate
        · cases hupdate
        · obtain ⟨u, -, rfl⟩ := Option.map_eq_some_iff.mp hupdate
          exact ht.set name trivial

end Update

theorem entries_of_insert? {name : String} {v : Value} {t t' : Table}
    (hinsert : t.insert? name v = some t') :
    t.entries.lookup name = none ∧ t'.entries = t.entries ++ [(name, .value v)] := by
  unfold insert? at hinsert
  split at hinsert
  · cases hinsert
  · rename_i hnone
    cases hinsert
    exact ⟨hnone, rfl⟩

theorem names_insert? (name : String) (v : Value) : Keeps HasNames (insert? name v) := by
  intro t t' hinsert hnames
  obtain ⟨hnone, hentries⟩ := entries_of_insert? hinsert
  rw [HasNames, hentries, List.map_append]
  refine hnames.append (List.nodup_singleton name) ?_
  rw [List.map_singleton, List.disjoint_singleton]
  exact lookup_eq_none_iff_not_mem.mp hnone

theorem distinct_insert? (name : String) {v : Value} (hv : v.IsDistinct) :
    Keeps IsDistinct (insert? name v) := by
  intro t t' hinsert hdistinct
  refine ⟨names_insert? name v t t' hinsert hdistinct.names, ?_⟩
  intro other node hlookup
  rw [(entries_of_insert? hinsert).2, lookup_append, Option.or_eq_some_iff] at hlookup
  rcases hlookup with hold | ⟨-, hnew⟩
  · exact hdistinct.inner other node hold
  · rw [lookup_cons_ite] at hnew
    split at hnew
    · exact Option.some.inj hnew ▸ hv
    · cases hnew

/-- A change that is refused for some tables. -/
theorem Keeps.unless {P : Table → Prop} {change : Table → Option Table} (hkeeps : Keeps P change)
    (refused : Table → Bool) : Keeps P fun t => if refused t then none else change t := by
  intro t t' hchange
  dsimp only at hchange
  split at hchange
  · cases hchange
  · exact hkeeps t t' hchange

theorem names_assign? (path : List String) (v : Value) : Keeps HasNames (assign? path v) := by
  intro t t' hassign
  obtain ⟨⟨parents, name⟩, -, hupdate⟩ := Option.bind_eq_some_iff.mp hassign
  exact names_update ((names_insert? name v).unless _) t t' hupdate

theorem distinct_assign? (path : List String) {v : Value} (hv : v.IsDistinct) :
    Keeps IsDistinct (assign? path v) := by
  intro t t' hassign
  obtain ⟨⟨parents, name⟩, -, hupdate⟩ := Option.bind_eq_some_iff.mp hassign
  exact distinct_update ((names_insert? name v).unless _) ((distinct_insert? name hv).unless _)
    t t' hupdate

theorem distinct_openTable? (path : List String) : Keeps IsDistinct (openTable? path) := by
  intro t t' hopen
  obtain ⟨⟨parents, name⟩, -, hupdate⟩ := Option.bind_eq_some_iff.mp hopen
  refine distinct_update ?_ ?_ t t' hupdate
  · intro u u' hchange hnames
    dsimp only at hchange
    split at hchange <;> cases hchange <;> exact hnames.set name _
  · intro u u' hchange hdistinct
    dsimp only at hchange
    split at hchange <;> cases hchange
    · exact hdistinct.set name List.nodup_nil
    · rename_i entries hlookup
      have hentries : (entries.map Prod.fst).Nodup := hdistinct.inner name _ hlookup
      exact hdistinct.set name hentries

theorem distinct_openElement? (path : List String) : Keeps IsDistinct (openElement? path) := by
  intro t t' hopen
  obtain ⟨⟨parents, name⟩, -, hupdate⟩ := Option.bind_eq_some_iff.mp hopen
  refine distinct_update ?_ ?_ t t' hupdate
  · intro u u' hchange hnames
    dsimp only at hchange
    split at hchange <;> cases hchange <;> exact hnames.set name _
  · intro u u' hchange hdistinct
    dsimp only at hchange
    split at hchange <;> cases hchange <;> exact hdistinct.set name trivial

theorem names_ofPairs? {pairs : List (List String × Value)} {t : Table}
    (hpairs : ofPairs? pairs = some t) : t.HasNames := by
  apply foldlM_keeps _ hpairs List.nodup_nil
  exact fun pair _ u next hnext hu => names_assign? pair.1 pair.2 u next hnext hu

end Table

section Statements

variable {cs rest : List Char}

theorem scalar?_distinct {word : List Char} {v : Value} (hscalar : scalar? word = some v) :
    v.IsDistinct := by
  unfold scalar? at hscalar
  repeat' split at hscalar
  all_goals
    cases hscalar
    try exact trivial

theorem value?_distinct {fuel depth : Nat} {v : Value}
    (hvalue : value? fuel depth cs = some (v, rest)) : v.IsDistinct := by
  cases fuel with
  | zero => simp [value?] at hvalue
  | succ fuel =>
      unfold value? at hvalue
      split at hvalue
      · split at hvalue
        · cases hvalue
        · obtain ⟨⟨items, more⟩, -, hsame⟩ := Option.map_eq_some_iff.mp hvalue
          cases hsame
          exact trivial
      · split at hvalue
        · cases hvalue
        · split at hvalue
          · cases hvalue
            exact List.nodup_nil
          · obtain ⟨⟨pairs, more⟩, -, htable⟩ := Option.bind_eq_some_iff.mp hvalue
            obtain ⟨t, ht, hsame⟩ := Option.map_eq_some_iff.mp htable
            cases hsame
            rw [Value.IsDistinct, Table.values, Node.map_fst_entryValues]
            exact Table.names_ofPairs? ht
      · split at hvalue
        · cases hvalue
          exact trivial
        · obtain ⟨w, hscalar, hsame⟩ := Option.map_eq_some_iff.mp hvalue
          cases hsame
          exact scalar?_distinct hscalar

def Statement.IsDistinct : Statement → Prop
  | .assign _ v => v.IsDistinct
  | _ => True

theorem statement?_distinct {s : Statement} (hstatement : statement? cs = some (some s, rest)) :
    s.IsDistinct := by
  have hplain : ∀ {o : Option (List Char)} {given : Option Statement},
      o.map (fun rest => (given, rest)) = some (some s, rest) → given = some s := by
    intro o given hmap
    obtain ⟨more, -, hsame⟩ := Option.map_eq_some_iff.mp hmap
    exact congrArg Prod.fst hsame
  unfold statement? at hstatement
  split at hstatement
  · split at hstatement
    · cases hplain hstatement
      exact trivial
    · cases hstatement
  · split at hstatement
    · cases hplain hstatement
      exact trivial
    · cases hstatement
  · cases hstatement
  · cases hstatement
  · cases hplain hstatement
  · split at hstatement
    · split at hstatement
      · rename_i hvalue
        cases hplain hstatement
        exact value?_distinct hvalue
      · cases hstatement
    · cases hstatement

theorem statementsFrom?_distinct {fuel : Nat} {statements : List Statement}
    (hread : statementsFrom? fuel cs = some statements) : ∀ s ∈ statements, s.IsDistinct := by
  induction fuel generalizing cs statements with
  | zero => simp [statementsFrom?] at hread
  | succ fuel ih =>
      unfold statementsFrom? at hread
      split at hread
      · cases hread
        simp
      · obtain ⟨⟨first, more⟩, hfirst, hrest⟩ := Option.bind_eq_some_iff.mp hread
        obtain ⟨later, hlater, rfl⟩ := Option.map_eq_some_iff.mp hrest
        intro s hs
        rcases List.mem_append.mp hs with hs | hs
        · obtain rfl := Option.mem_toList.mp hs
          exact statement?_distinct hfirst
        · exact ih hlater s hs

end Statements

theorem Builder.step?_distinct {b b' : Builder} {s : Statement} (hs : s.IsDistinct)
    (hstep : b.step? s = some b') (hdistinct : b.root.IsDistinct) : b'.root.IsDistinct := by
  cases s with
  | table path =>
      obtain ⟨t, ht, rfl⟩ := Option.map_eq_some_iff.mp hstep
      exact Table.distinct_openTable? path _ t ht hdistinct
  | element path =>
      obtain ⟨t, ht, rfl⟩ := Option.map_eq_some_iff.mp hstep
      exact Table.distinct_openElement? path _ t ht hdistinct
  | assign path v =>
      obtain ⟨t, ht, rfl⟩ := Option.map_eq_some_iff.mp hstep
      exact Table.distinct_update (Table.names_assign? path v) (Table.distinct_assign? path hs)
        _ t ht hdistinct

/-- A run over statements keeps names apart. -/
theorem Builder.foldlM_distinct {statements : List Statement}
    (hstatements : ∀ s ∈ statements, s.IsDistinct) {b b' : Builder}
    (hrun : statements.foldlM step? b = some b') (hdistinct : b.root.IsDistinct) :
    b'.root.IsDistinct := by
  apply foldlM_keeps (P := fun b => b.root.IsDistinct) _ hrun hdistinct
  exact fun s hs b next hstep hb => step?_distinct (hstatements s hs) hstep hb

theorem Node.nodup_of_ofToml {node : Node} (hnode : node.IsDistinct)
    {m : List (String × Setting)} (hm : Setting.ofToml node.toValue = .map m) :
    (m.map Prod.fst).Nodup := by
  cases node with
  | value v =>
      cases v with
      | table entries =>
          cases hm
          rw [map_fst_ofEntries]
          exact hnode
      | datetime text =>
          cases hm
          exact List.nodup_singleton _
      | _ => simp [toValue, Setting.ofToml] at hm
  | table implicit dotted entries =>
      simp only [toValue, Setting.ofToml, Setting.map.injEq] at hm
      rw [← hm, map_fst_ofEntries, map_fst_entryValues]
      exact hnode
  | tables elements => simp [toValue, Setting.ofToml] at hm

/-- The settings of a document give each name once. -/
theorem parse?_distinct {text : String} {entries : List (String × Value)}
    (hparse : parse? text = some entries) : Setting.Distinct (Setting.ofEntries entries) := by
  obtain ⟨statements, hstatements, hvalues⟩ := Option.bind_eq_some_iff.mp hparse
  obtain ⟨b, hrun, rfl⟩ := Option.map_eq_some_iff.mp hvalues
  have hroot : b.root.IsDistinct :=
    Builder.foldlM_distinct (statementsFrom?_distinct hstatements) hrun ⟨List.nodup_nil, by simp⟩
  refine ⟨?_, ?_⟩
  · rw [map_fst_ofEntries, Table.values, Node.map_fst_entryValues]
    exact hroot.names
  · intro name m hm
    rw [lookup_ofEntries, Table.values, Node.lookup_entryValues, Option.map_map] at hm
    obtain ⟨node, hnode, hm⟩ := Option.map_eq_some_iff.mp hm
    exact Node.nodup_of_ofToml (hroot.inner name node hnode) hm

end WebAudit.Toml
