import WebAudit.Proofs.NamedEntries
import WebAudit.Proofs.TomlValues

/-!
Documents read back. A line is read as the statement that it was written for, a
block as its header and its assignments, and a document as the statements of its
blocks, one after the other. Names stand without quotes, and values are legible.
-/

namespace WebAudit.Toml

section Lines

def IsBareName (name : String) : Prop :=
  name.toList ≠ [] ∧ ∀ c ∈ name.toList, isBare c = true

theorem isBareName_iff (name : String) :
    (!name.toList.isEmpty && name.toList.all isBare) = true ↔ IsBareName name := by
  simp [IsBareName]

instance (name : String) : Decidable (IsBareName name) :=
  decidable_of_decidable_of_iff (isBareName_iff name)

theorem ne_of_isBare {c mark : Char} (hc : isBare c = true) (hmark : isBare mark = false) :
    c ≠ mark := by
  rintro rfl
  rw [hmark] at hc
  cases hc

/-- A name starts with a character that needs no quotes. -/
theorem IsBareName.exists_cons {name : String} (hname : IsBareName name) :
    ∃ c tail, name.toList = c :: tail ∧ isBare c = true := by
  obtain ⟨c, tail, htext⟩ := List.exists_cons_of_ne_nil hname.1
  exact ⟨c, tail, htext, hname.2 c (by simp [htext])⟩

/-- A name does not start with a mark. -/
theorem IsBareName.append_ne {name : String} (hname : IsBareName name) {mark : Char}
    (hmark : isBare mark = false) (rest tail : List Char) : name.toList ++ rest ≠ mark :: tail := by
  obtain ⟨c, more, htext, hc⟩ := hname.exists_cons
  rw [htext]
  exact fun heq => ne_of_isBare hc hmark (List.cons.inj heq).1

/-- A name ends at the first character that needs quotes. -/
theorem keyName?_bare {name : String} (hname : IsBareName name) {c : Char} (hc : isBare c = false)
    (rest : List Char) : keyName? (name.toList ++ c :: rest) = some (name, c :: rest) := by
  have hbare := hname.2
  have htake : (name.toList ++ c :: rest).takeWhile isBare = name.toList := by
    rw [List.takeWhile_append_of_pos hbare, List.takeWhile_cons, if_neg (by simp [hc]),
      List.append_nil]
  have hdrop : (name.toList ++ c :: rest).dropWhile isBare = c :: rest := by
    rw [List.dropWhile_append_of_pos hbare, List.dropWhile_cons, if_neg (by simp [hc])]
  unfold keyName?
  split
  · rename_i heq
    exact absurd heq (hname.append_ne (by decide) _ _)
  · rename_i heq
    exact absurd heq (hname.append_ne (by decide) _ _)
  · rw [htake, hdrop, if_neg (by simpa using hname.1), String.ofList_toList]

theorem skipSpaces_cons {c : Char} (hc : isSpace c = false) (rest : List Char) :
    skipSpaces (c :: rest) = c :: rest := by
  rw [skipSpaces, List.dropWhile_cons, if_neg (by simp [hc])]

theorem skipSpaces_bare {name : String} (hname : IsBareName name) (rest : List Char) :
    skipSpaces (name.toList ++ rest) = name.toList ++ rest := by
  obtain ⟨first, tail, htext, hfirst⟩ := hname.exists_cons
  rw [htext, List.cons_append]
  exact skipSpaces_cons (isSpace_eq_false rfl rfl hfirst) _

theorem toList_join_cons (sep name other : String) (path : List String) :
    (Text.join sep (name :: other :: path)).toList =
      name.toList ++ (sep.toList ++ (Text.join sep (other :: path)).toList) := by
  simp [Text.join, String.toList_intercalate]

theorem toList_join_singleton (sep name : String) :
    (Text.join sep [name]).toList = name.toList := by
  simp [Text.join]

/-- Bare names with dots between them are read up to what follows. -/
theorem keyNames?_join {name : String} {path : KeyPath}
    (hbare : ∀ n ∈ name :: path, IsBareName n) {c : Char} (hc : isBare c = false)
    {rest : List Char} (hdot : ∀ tail, skipSpaces (c :: rest) ≠ '.' :: tail) {fuel : Nat}
    (hfuel : path.length ≤ fuel) :
    keyNames? (fuel + 1) ((Text.join "." (name :: path)).toList ++ c :: rest) =
      some (name :: path, skipSpaces (c :: rest)) := by
  induction path generalizing name fuel with
  | nil =>
      have hname := hbare name List.mem_cons_self
      rw [toList_join_singleton, keyNames?, skipSpaces_bare hname, keyName?_bare hname hc,
        Option.bind_some]
      dsimp only
      split
      · rename_i heq
        exact absurd heq (hdot _)
      · rfl
  | cons other path ih =>
      obtain ⟨hname, hothers⟩ := List.forall_mem_cons.mp hbare
      obtain ⟨fuel, rfl⟩ : ∃ k, fuel = k + 1 := ⟨fuel - 1, by simp at hfuel; omega⟩
      have hlater := ih hothers (Nat.le_of_succ_le_succ hfuel)
      have hjoin : (Text.join "." (name :: other :: path)).toList ++ c :: rest =
          name.toList ++ '.' :: ((Text.join "." (other :: path)).toList ++ c :: rest) := by
        rw [toList_join_cons, List.append_assoc]
        rfl
      rw [hjoin, keyNames?, skipSpaces_bare hname, keyName?_bare hname (by decide),
        Option.bind_some]
      change (keyNames? (fuel + 1) _).map _ = _
      rw [hlater]
      rfl

theorem keyPath?_join {name : String} {path : KeyPath}
    (hbare : ∀ n ∈ name :: path, IsBareName n) (hshort : path.length + 1 < depthLimit) {c : Char}
    (hc : isBare c = false) {rest : List Char}
    (hdot : ∀ tail, skipSpaces (c :: rest) ≠ '.' :: tail) :
    keyPath? ((Text.join "." (name :: path)).toList ++ c :: rest) =
      some (name :: path, skipSpaces (c :: rest)) := by
  -- The reader may take as many names as there are characters.
  have hlength : path.length ≤ ((Text.join "." (name :: path)).toList ++ c :: rest).length := by
    clear hbare hshort hdot
    induction path generalizing name with
    | nil => exact Nat.zero_le _
    | cons other path ih =>
        have hlater := @ih other
        have hdot : ".".toList.length = 1 := rfl
        rw [toList_join_cons]
        simp only [List.length_append, List.length_cons] at hlater ⊢
        omega
  rw [keyPath?, keyNames?_join hbare hc hdot hlength, Option.bind_some]
  exact if_pos hshort

theorem exists_join {name : String} (hname : IsBareName name) (path : KeyPath) :
    ∃ c tail, (Text.join "." (name :: path)).toList = c :: tail ∧ isBare c = true := by
  obtain ⟨c, tail, htext, hc⟩ := hname.exists_cons
  cases path with
  | nil => exact ⟨c, tail, by rw [toList_join_singleton, htext], hc⟩
  | cons other path => exact ⟨c, _, by rw [toList_join_cons, htext]; rfl, hc⟩

section Headers

variable {name : String} {path : KeyPath} (hbare : ∀ n ∈ name :: path, IsBareName n)
  (hshort : path.length + 1 < depthLimit) (rest : List Char)

include hbare hshort

/-- The names in a header are read up to the bracket. -/
theorem keyPath?_header :
    keyPath? ((Text.join "." (name :: path)).toList ++ ']' :: rest) =
      some (name :: path, ']' :: rest) := by
  have hskip : skipSpaces (']' :: rest) = ']' :: rest := skipSpaces_cons (by decide) rest
  have hdot : ∀ tail, skipSpaces (']' :: rest) ≠ '.' :: tail := by simp [hskip]
  rw [keyPath?_join hbare hshort (by decide) hdot, hskip]

/-- The header of a table. -/
theorem statement?_table :
    statement? ('[' :: ((Text.join "." (name :: path)).toList ++ ']' :: '\n' :: rest)) =
      some (some (.table (name :: path)), rest) := by
  obtain ⟨c, tail, hjoin, hc⟩ := exists_join (hbare name List.mem_cons_self) path
  rw [statement?, skipSpaces_cons (by decide)]
  split
  · rename_i heq
    rw [hjoin] at heq
    exact absurd (List.cons.inj (List.cons.inj heq).2).1 (ne_of_isBare hc (by decide))
  · rename_i heq
    obtain rfl := (List.cons.inj heq).2
    rw [keyPath?_header hbare hshort]
    rfl
  · rename_i heq
    cases heq
  · rename_i heq
    cases heq
  · rename_i heq
    cases heq
  · rename_i hother _ _ _
    exact absurd rfl (hother _)

/-- The header of an element of an array of tables. -/
theorem statement?_element :
    statement? ('[' :: '[' :: ((Text.join "." (name :: path)).toList ++ ']' :: ']' :: '\n' :: rest)) =
      some (some (.element (name :: path)), rest) := by
  rw [statement?, skipSpaces_cons (by decide)]
  split
  · rename_i heq
    obtain rfl := (List.cons.inj (List.cons.inj heq).2).2
    rw [keyPath?_header hbare hshort]
    rfl
  · rename_i hother heq
    exact absurd (List.cons.inj heq).2.symm (hother _)
  · rename_i heq
    cases heq
  · rename_i heq
    cases heq
  · rename_i heq
    cases heq
  · rename_i hother _ _ _ _
    exact absurd rfl (hother _)

end Headers

/-- The line of an assignment. -/
theorem statement?_assign {name : String} (hname : IsBareName name) {v : Value}
    (hlegible : v.IsLegible) (rest : List Char) :
    statement? (name.toList ++ ' ' :: '=' :: ' ' :: (v.text.toList ++ '\n' :: rest)) =
      some (some (.assign [name] v), rest) := by
  obtain ⟨first, more, hvalue, hfirst⟩ := hlegible.starts
  have hread := hlegible.reads rest
  have hskip : skipSpaces (' ' :: (v.text.toList ++ '\n' :: rest)) =
      v.text.toList ++ '\n' :: rest := by
    rw [hvalue, List.cons_append]
    exact skipSpaces_cons hfirst _
  have hkey : keyPath? (name.toList ++ ' ' :: '=' :: ' ' :: (v.text.toList ++ '\n' :: rest)) =
      some ([name], '=' :: ' ' :: (v.text.toList ++ '\n' :: rest)) := by
    rw [← toList_join_singleton "." name]
    refine keyPath?_join (by simpa using hname) (by decide) (by decide) fun tail => ?_
    intro heq
    cases heq
  rw [statement?, skipSpaces_bare hname]
  split
  · rename_i heq
    exact absurd heq (hname.append_ne (by decide) _ _)
  · rename_i heq
    exact absurd heq (hname.append_ne (by decide) _ _)
  · rename_i heq
    exact absurd (List.append_eq_nil_iff.mp heq).1 hname.1
  · rename_i heq
    exact absurd heq (hname.append_ne (by decide) _ _)
  · rename_i heq
    exact absurd heq (hname.append_ne (by decide) _ _)
  · rw [hkey]
    split
    · rename_i heq
      cases heq
      rw [hskip, hread]
      rfl
    · rename_i hother
      exact absurd rfl (hother _ _)

end Lines

section Documents

/-- Whether a text, before any other one, is read as some statements. Each step of
the reader takes at least one character. -/
def Spells (cs : List Char) (statements : List Statement) : Prop :=
  ∃ steps ≤ cs.length, ∀ fuel rest,
    statementsFrom? (fuel + steps) (cs ++ rest) =
      (statementsFrom? fuel rest).map (statements ++ ·)

theorem Spells.nil : Spells [] [] :=
  ⟨0, Nat.le_refl 0, fun fuel rest => by simp⟩

theorem Spells.append {cs ds : List Char} {as bs : List Statement} (hcs : Spells cs as)
    (hds : Spells ds bs) : Spells (cs ++ ds) (as ++ bs) := by
  obtain ⟨m, hm, hcs⟩ := hcs
  obtain ⟨n, hn, hds⟩ := hds
  refine ⟨n + m, by rw [List.length_append]; omega, fun fuel rest => ?_⟩
  rw [← Nat.add_assoc, List.append_assoc, hcs, hds, Option.map_map]
  congr 1
  funext more
  exact (List.append_assoc as bs more).symm

theorem spells_of_statement? {cs : List Char} {s : Option Statement} (hne : cs ≠ [])
    (hread : ∀ rest, statement? (cs ++ rest) = some (s, rest)) : Spells cs s.toList := by
  refine ⟨1, List.length_pos_iff.mpr hne, fun fuel rest => ?_⟩
  rw [statementsFrom?, if_neg (by simp [hne]), hread, Option.bind_some]

theorem spells_line {line : String} {s : Statement} (hne : line.toList ≠ [])
    (hread : ∀ rest, statement? (line.toList ++ rest) = some (some s, rest)) :
    Spells line.toList [s] :=
  spells_of_statement? hne hread

theorem unifyLines_of_not_mem {cs : List Char} (hreturn : '\r' ∉ cs) : unifyLines cs = cs := by
  induction cs with
  | nil => rfl
  | cons c cs ih =>
      rw [List.mem_cons, not_or] at hreturn
      rw [unifyLines, ih hreturn.2]
      intro rest hc
      exact absurd hc.symm hreturn.1

/-- What is spelled by a text without a mark or carriage returns is read from
it. -/
theorem Spells.statements?_eq {cs : List Char} {statements : List Statement}
    (hspells : Spells cs statements) (hmark : dropMark cs = cs) (hreturn : '\r' ∉ cs) :
    statements? cs = some statements := by
  obtain ⟨steps, hsteps, hread⟩ := hspells
  have hread := hread (cs.length - steps + 1) []
  rw [List.append_nil, statementsFrom?, if_pos (by rfl), Option.map_some, List.append_nil,
    (by omega : cs.length - steps + 1 + steps = cs.length + 1)] at hread
  rw [statements?, hmark, unifyLines_of_not_mem hreturn]
  exact hread

namespace Block

structure IsLegible (b : Block) : Prop where
  path_ne : b.path ≠ []
  path_short : b.path.length < depthLimit
  path_bare : ∀ name ∈ b.path, IsBareName name
  names_bare : ∀ p ∈ b.entries, IsBareName p.1
  values : ∀ p ∈ b.entries, p.2.IsLegible

theorem spells_header {b : Block} (hlegible : b.IsLegible) :
    Spells b.header.toList [if b.isElement then .element b.path else .table b.path] := by
  obtain ⟨name, path, hpath⟩ := List.exists_cons_of_ne_nil hlegible.path_ne
  have hbare := hlegible.path_bare
  have hshort := hlegible.path_short
  rw [hpath] at hbare hshort
  rw [header, hpath]
  cases b.isElement with
  | true =>
      refine spells_line (by simp) fun rest => ?_
      have hread := statement?_element hbare hshort rest
      simpa [String.toList_append] using hread
  | false =>
      refine spells_line (by simp) fun rest => ?_
      have hread := statement?_table hbare hshort rest
      simpa [String.toList_append] using hread

theorem spells_entries {entries : List (String × Value)}
    (hnames : ∀ p ∈ entries, IsBareName p.1) (hvalues : ∀ p ∈ entries, p.2.IsLegible) :
    Spells (String.join (entries.map fun (name, v) => name ++ " = " ++ v.text ++ "\n")).toList
      (entries.map fun (name, v) => .assign [name] v) := by
  rw [String.toList_join]
  induction entries with
  | nil => exact Spells.nil
  | cons p entries ih =>
      obtain ⟨name, v⟩ := p
      obtain ⟨hname, hnames⟩ := List.forall_mem_cons.mp hnames
      obtain ⟨hvalue, hvalues⟩ := List.forall_mem_cons.mp hvalues
      have hline : Spells (name ++ " = " ++ v.text ++ "\n").toList [.assign [name] v] := by
        refine spells_line (by simp) fun rest => ?_
        have hread := statement?_assign hname hvalue rest
        simpa [String.toList_append] using hread
      simpa using hline.append (ih hnames hvalues)

/-- A block is read as its statements. -/
theorem spells_text {b : Block} (hlegible : b.IsLegible) : Spells b.text.toList b.statements := by
  rw [text, String.toList_append]
  exact (spells_header hlegible).append
    (spells_entries hlegible.names_bare hlegible.values)

theorem return_not_mem_join {path : KeyPath} (hbare : ∀ name ∈ path, IsBareName name) :
    '\r' ∉ (Text.join "." path).toList := by
  induction path with
  | nil => decide
  | cons name path ih =>
      obtain ⟨hname, hpath⟩ := List.forall_mem_cons.mp hbare
      have hfirst : '\r' ∉ name.toList := fun hmem => absurd (hname.2 _ hmem) (by decide)
      cases path with
      | nil => rwa [toList_join_singleton]
      | cons other path =>
          have hlater := ih hpath
          rw [toList_join_cons]
          simp [hfirst, hlater]

theorem return_not_mem_text {b : Block} (hlegible : b.IsLegible) : '\r' ∉ b.text.toList := by
  have hheader : '\r' ∉ b.header.toList := by
    have hjoin := return_not_mem_join hlegible.path_bare
    unfold header
    dsimp only
    split <;> simp [hjoin]
  rw [text, String.toList_append, String.toList_join, List.mem_append, not_or]
  refine ⟨hheader, ?_⟩
  simp only [List.mem_flatMap, List.mem_map]
  rintro ⟨line, ⟨⟨name, v⟩, hp, rfl⟩, hline⟩
  have hname : '\r' ∉ name.toList :=
    fun hmem => absurd ((hlegible.names_bare _ hp).2 _ hmem) (by decide)
  have hvalue : '\r' ∉ v.text.toList := (hlegible.values _ hp).unified
  simp [hname, hvalue] at hline

theorem document_singleton (b : Block) : (document [b]).toList = b.text.toList :=
  toList_join_singleton "\n" b.text

theorem document_cons (b other : Block) (blocks : List Block) :
    (document (b :: other :: blocks)).toList =
      b.text.toList ++ ('\n' :: (document (other :: blocks)).toList) :=
  toList_join_cons "\n" b.text other.text (blocks.map text)

/-- A document is read as the statements of its blocks. -/
theorem spells_document {blocks : List Block} (hlegible : ∀ b ∈ blocks, b.IsLegible) :
    Spells (document blocks).toList (blocks.flatMap statements) := by
  induction blocks with
  | nil => exact Spells.nil
  | cons b blocks ih =>
      obtain ⟨hb, hblocks⟩ := List.forall_mem_cons.mp hlegible
      cases blocks with
      | nil =>
          rw [document_singleton, List.flatMap_singleton]
          exact spells_text hb
      | cons other blocks =>
          have hblank : Spells ['\n'] (none : Option Statement).toList :=
            spells_of_statement? (by simp) fun _ => rfl
          rw [document_cons, List.flatMap_cons]
          exact (spells_text hb).append (hblank.append (ih hblocks))

theorem return_not_mem_document {blocks : List Block} (hlegible : ∀ b ∈ blocks, b.IsLegible) :
    '\r' ∉ (document blocks).toList := by
  induction blocks with
  | nil => decide
  | cons b blocks ih =>
      obtain ⟨hb, hblocks⟩ := List.forall_mem_cons.mp hlegible
      have hfirst := return_not_mem_text hb
      cases blocks with
      | nil => rwa [document_singleton]
      | cons other blocks =>
          have hlater := ih hblocks
          rw [document_cons]
          simp [hfirst, hlater]

theorem dropMark_document (blocks : List Block) :
    dropMark (document blocks).toList = (document blocks).toList := by
  have hbracket : ∀ b : Block, ∃ tail, b.text.toList = '[' :: tail := by
    intro b
    unfold text header
    cases b.isElement <;> simp [String.toList_append]
  cases blocks with
  | nil => rfl
  | cons b blocks =>
      obtain ⟨tail, htail⟩ := hbracket b
      cases blocks with
      | nil =>
          rw [document_singleton, htail]
          rfl
      | cons other blocks =>
          rw [document_cons, htail]
          rfl

/-- A document of legible blocks has their statements. -/
theorem statements?_document {blocks : List Block} (hlegible : ∀ b ∈ blocks, b.IsLegible) :
    statements? (document blocks).toList = some (blocks.flatMap statements) :=
  (spells_document hlegible).statements?_eq (dropMark_document blocks)
    (return_not_mem_document hlegible)

end Block

end Documents

section Building

/-- Statements one after the other. -/
theorem foldlM_append_of_some {b b' : Builder} {statements : List Statement}
    (hfirst : statements.foldlM Builder.step? b = some b') (more : List Statement) :
    (statements ++ more).foldlM Builder.step? b = more.foldlM Builder.step? b' := by
  rw [List.foldlM_append, hfirst]
  rfl

def valueNodes (entries : List (String × Value)) : List (String × Node) :=
  entries.map fun (name, v) => (name, .value v)

/-- A table that was made by a header. -/
def made (entries : List (String × Node)) : Table := ⟨false, false, entries⟩

/-- Whether a path leads to a table within a larger one, whose entries are given
as a function of those of the table. -/
def Focus (path : KeyPath) (place : List (String × Node) → List (String × Node)) : Prop :=
  ∀ (change : Table → Option Table) (entries entries' : List (String × Node)),
    change (made entries) = some (made entries') →
      (made (place entries)).update false change path = some (made (place entries'))

theorem put_last {before : List (String × Node)} {name : String}
    (hfresh : before.lookup name = none) (old node : Node) :
    Table.put name node (before ++ [(name, old)]) = before ++ [(name, node)] := by
  rw [Table.put_eq, putNamed_append hfresh, putNamed, if_pos rfl]

theorem put_fresh {before : List (String × Node)} {name : String}
    (hfresh : before.lookup name = none) (node : Node) :
    Table.put name node before = before ++ [(name, node)] := by
  have hput := putNamed_append hfresh node []
  rwa [List.append_nil, putNamed, ← Table.put_eq] at hput

theorem lookup_last {before : List (String × Node)} {name : String}
    (hfresh : before.lookup name = none) (node : Node) :
    (before ++ [(name, node)]).lookup name = some node := by
  rw [lookup_append, hfresh, Option.none_or, lookup_cons_ite, if_pos rfl]

theorem Focus.root : Focus [] id :=
  fun _ _ _ hchange => hchange

section Focus

variable {before : List (String × Node)} {name : String} (hfresh : before.lookup name = none)
  {path : KeyPath} {place : List (String × Node) → List (String × Node)}

include hfresh

/-- The way into a table that was made last. -/
theorem Focus.table (hfocus : Focus path place) :
    Focus (name :: path) fun entries => before ++ [(name, .table false false (place entries))] := by
  intro change entries entries' hchange
  have hinner := hfocus change entries entries' hchange
  unfold made at hinner ⊢
  rw [Table.update, lookup_last hfresh]
  simp only [Option.getD_some, Bool.false_and, Bool.false_eq_true, if_false, hinner,
    Option.map_some, Table.set, put_last hfresh]

/-- The way into the last element of an array of tables that was made last. -/
theorem Focus.element (elements : List (List (String × Node))) :
    Focus [name] fun entries => before ++ [(name, .tables (elements ++ [entries]))] := by
  intro change entries entries' hchange
  unfold made at hchange ⊢
  rw [Table.update, lookup_last hfresh]
  simp only [Option.getD_some, List.getLast?_concat, List.dropLast_concat, Table.update, hchange,
    Option.map_some, Table.set, put_last hfresh]

end Focus

/-- Assignments of names that are not there yet add to the entries. -/
theorem foldlM_assign {path : KeyPath} {place : List (String × Node) → List (String × Node)}
    (hfocus : Focus path place) (entries : List (String × Value)) {found : List (String × Node)}
    (hnodup : (found.map Prod.fst ++ entries.map Prod.fst).Nodup) :
    (entries.map fun (name, v) => Statement.assign [name] v).foldlM Builder.step?
        ⟨made (place found), path⟩ =
      some ⟨made (place (found ++ valueNodes entries)), path⟩ := by
  induction entries generalizing found with
  | nil => simp [valueNodes]
  | cons p entries ih =>
      obtain ⟨name, v⟩ := p
      have hfresh : found.lookup name = none := by
        rw [lookup_eq_none_iff_not_mem]
        intro hmem
        exact (List.nodup_append.mp hnodup).2.2 name hmem name List.mem_cons_self rfl
      have hassign : Table.assign? [name] v (made found) =
          some (made (found ++ [(name, .value v)])) := by
        simp [made, Table.assign?, Table.splitPath?, Table.update, Table.insert?, hfresh]
      have hstep : Builder.step? ⟨made (place found), path⟩ (.assign [name] v) =
          some ⟨made (place (found ++ [(name, .value v)])), path⟩ := by
        rw [Builder.step?]
        dsimp only
        rw [hfocus _ _ _ hassign]
        rfl
      have hnext : ((found ++ [(name, Node.value v)]).map Prod.fst ++
          entries.map Prod.fst).Nodup := by
        simpa using hnodup
      rw [List.map_cons, List.foldlM_cons, hstep]
      simpa [valueNodes] using ih hnext

/-- A block of its own adds a table. -/
theorem foldlM_table {before : List (String × Node)} {name : String}
    (hfresh : before.lookup name = none) {entries : List (String × Value)}
    (hnodup : (entries.map Prod.fst).Nodup) (current : KeyPath) :
    (Block.statements ⟨[name], false, entries⟩).foldlM Builder.step? ⟨made before, current⟩ =
      some ⟨made (before ++ [(name, .table false false (valueNodes entries))]), [name]⟩ := by
  have hopen : Builder.step? ⟨made before, current⟩ (.table [name]) =
      some ⟨made (before ++ [(name, .table false false [])]), [name]⟩ := by
    simp [Builder.step?, Table.openTable?, Table.splitPath?, Table.update, made, hfresh, Table.set,
      put_fresh hfresh]
  have hassigns := @foldlM_assign _ _ (Focus.root.table hfresh) entries [] (by simpa using hnodup)
  rw [Block.statements]
  simp only [Bool.false_eq_true, if_false]
  rw [List.foldlM_cons, hopen]
  simpa using hassigns

section Elements

variable {before base : List (String × Node)} {part name : String}
  (hpart : before.lookup part = none) (hname : base.lookup name = none)

include hpart hname

/-- The entries with an array of tables in the part that was made last. -/
theorem foldlM_element {elements : List (List (String × Node))} {opened : List (String × Node)}
    (hopened : opened = base ∧ elements = [] ∨ opened = base ++ [(name, .tables elements)])
    {entries : List (String × Value)} (hnodup : (entries.map Prod.fst).Nodup)
    (current : KeyPath) :
    (Block.statements ⟨[part, name], true, entries⟩).foldlM Builder.step?
        ⟨made (before ++ [(part, .table false false opened)]), current⟩ =
      some ⟨made (before ++ [(part, .table false false
        (base ++ [(name, .tables (elements ++ [valueNodes entries]))]))]), [part, name]⟩ := by
  have hopen : Builder.step? ⟨made (before ++ [(part, .table false false opened)]), current⟩
      (.element [part, name]) =
        some ⟨made (before ++ [(part, .table false false
          (base ++ [(name, .tables (elements ++ [[]]))]))]), [part, name]⟩ := by
    rw [Builder.step?]
    refine congrArg (Option.map fun t => (⟨t, [part, name]⟩ : Builder))
      (Focus.root.table hpart _ opened _ ?_)
    rcases hopened with ⟨rfl, rfl⟩ | rfl
    · simp [hname, made, Table.set, put_fresh hname]
    · simp [lookup_last hname, made, Table.set, put_last hname]
  have hfocus := (Focus.element hname elements).table hpart
  have hassigns := @foldlM_assign _ _ hfocus entries [] (by simpa using hnodup)
  rw [Block.statements]
  simp only [if_true]
  rw [List.foldlM_cons, hopen]
  simpa using hassigns

theorem foldlM_elements (rows : List (List (String × Value)))
    (hnodup : ∀ row ∈ rows, (row.map Prod.fst).Nodup)
    {elements : List (List (String × Node))} (current : KeyPath) :
    ∃ current', (rows.flatMap fun row => Block.statements ⟨[part, name], true, row⟩).foldlM
        Builder.step?
        ⟨made (before ++ [(part, .table false false (base ++ [(name, .tables elements)]))]),
          current⟩ =
      some ⟨made (before ++ [(part, .table false false
        (base ++ [(name, .tables (elements ++ rows.map valueNodes))]))]), current'⟩ := by
  induction rows generalizing elements current with
  | nil => exact ⟨current, by simp⟩
  | cons row rows ih =>
      obtain ⟨hrow, hrows⟩ := List.forall_mem_cons.mp hnodup
      have hfirst := foldlM_element hpart hname (Or.inr rfl : _ ∨ _ = base ++ [(name, .tables elements)])
        hrow current
      obtain ⟨current', hlater⟩ := @ih hrows (elements ++ [valueNodes row]) [part, name]
      refine ⟨current', ?_⟩
      rw [List.flatMap_cons, foldlM_append_of_some hfirst]
      simpa using hlater

/-- Blocks that are elements make an array of tables in the part before them. -/
theorem foldlM_elements_of_ne {rows : List (List (String × Value))} (hne : rows ≠ [])
    (hnodup : ∀ row ∈ rows, (row.map Prod.fst).Nodup) (current : KeyPath) :
    ∃ current', (rows.flatMap fun row => Block.statements ⟨[part, name], true, row⟩).foldlM
        Builder.step? ⟨made (before ++ [(part, .table false false base)]), current⟩ =
      some ⟨made (before ++ [(part, .table false false
        (base ++ [(name, .tables (rows.map valueNodes))]))]), current'⟩ := by
  obtain ⟨row, rows, rfl⟩ := List.exists_cons_of_ne_nil hne
  obtain ⟨hrow, hrows⟩ := List.forall_mem_cons.mp hnodup
  have hfirst := foldlM_element hpart hname (Or.inl ⟨rfl, rfl⟩) hrow current
  obtain ⟨current', hlater⟩ :=
    @foldlM_elements _ _ _ _ hpart hname rows hrows ([] ++ [valueNodes row]) [part, name]
  refine ⟨current', ?_⟩
  rw [List.flatMap_cons, foldlM_append_of_some hfirst]
  simpa using hlater

end Elements

theorem entryValues_append (nodes more : List (String × Node)) :
    Node.entryValues (nodes ++ more) = Node.entryValues nodes ++ Node.entryValues more := by
  induction nodes with
  | nil => rfl
  | cons p nodes ih => rw [List.cons_append, Node.entryValues, Node.entryValues, ih]; rfl

theorem entryValues_valueNodes (entries : List (String × Value)) :
    Node.entryValues (valueNodes entries) = entries := by
  induction entries with
  | nil => rfl
  | cons p entries ih =>
      rw [valueNodes, List.map_cons, Node.entryValues, Node.toValue]
      exact congrArg (p :: ·) ih

end Building

end WebAudit.Toml
