import Mathlib.Data.List.Basic
import WebAudit.Project.Discovery

/-!
Paths and their components. A path is a text, and components are read off its
pieces between slashes. Below any path, a name of a directory entry adds one
component at the end, whatever slashes and dots the path is written with. The
file name is the last component where that is a name, and the parent of such a
path has all components but that name. So rows of names and the paths below a
root determine each other. The order of paths is the lexicographic order of
their components. A relative text that leads nowhere up adds names only.
-/

namespace WebAudit

open Std

theorem Text.splitOn_eq (sep : Char) (cs : List Char) : Text.splitOn sep cs = cs.splitOn sep := by
  have hfrom : ∀ acc, Text.splitFrom (· == sep) acc cs =
      List.splitOnPPrepend (· == sep) cs acc := by
    induction cs with
    | nil => exact fun acc => rfl
    | cons c rest ih =>
        intro acc
        rw [Text.splitFrom, List.splitOnPPrepend_cons_eq_if, List.splitOnP_eq_splitOnPPrepend]
        split
        · rw [ih]
        · rw [ih]
  exact hfrom []

theorem Text.sep_not_mem_of_mem_splitOn {sep : Char} {cs piece : List Char}
    (hmember : piece ∈ cs.splitOn sep) : sep ∉ piece := by
  induction cs generalizing piece with
  | nil =>
      obtain rfl : piece = [] := by simpa using hmember
      exact List.not_mem_nil
  | cons c rest ih =>
      rw [List.splitOn_cons_eq_if_modifyHead] at hmember
      split at hmember
      · rcases List.mem_cons.mp hmember with rfl | hlater
        · exact List.not_mem_nil
        · exact ih hlater
      · rename_i hother
        cases hsplit : rest.splitOn sep with
        | nil => exact absurd hsplit (List.splitOn_ne_nil _ _)
        | cons first more =>
            rw [hsplit, List.modifyHead_cons] at hmember
            rcases List.mem_cons.mp hmember with rfl | hlater
            · have hfirst : sep ∉ first := ih (by simp [hsplit])
              simp only [List.mem_cons, not_or]
              exact ⟨fun hsep => hother (by simp [hsep]), hfirst⟩
            · exact ih (by simp [hsplit, hlater])

/-- The pieces of a text: without the separator, and joined by it they give the
text. -/
theorem Text.splitOn_eq_iff {sep : Char} {cs : List Char} {pieces : List (List Char)} :
    Text.splitOn sep cs = pieces ↔
      pieces ≠ [] ∧ (∀ piece ∈ pieces, sep ∉ piece) ∧ [sep].intercalate pieces = cs := by
  rw [Text.splitOn_eq]
  constructor
  · rintro rfl
    exact ⟨List.splitOn_ne_nil _ _, fun _ => Text.sep_not_mem_of_mem_splitOn,
      List.intercalate_splitOn sep⟩
  · rintro ⟨hnonempty, hclean, rfl⟩
    exact List.splitOn_intercalate sep hclean hnonempty

namespace Path

open Component (ofPiece?)

def isName (name : String) : Bool :=
  name != "" && name != "." && name != ".." && !name.toList.contains '/'

theorem isName_iff (name : String) :
    isName name ↔ name ≠ "" ∧ name ≠ "." ∧ name ≠ ".." ∧ '/' ∉ name.toList := by
  simp [isName, and_assoc]

theorem ofPiece?_name {name : String} (hname : isName name) :
    Component.ofPiece? name.toList = some (.name name) := by
  obtain ⟨hempty, hdot, hup, -⟩ := (isName_iff name).mp hname
  have htext : ∀ {text : String}, name ≠ text → name.toList ≠ text.toList :=
    fun hne heq => hne (String.toList_inj.mp heq)
  have hempty := htext hempty
  have hdot := htext hdot
  have hup := htext hup
  simp_all [Component.ofPiece?]

def componentsOf : List (List Char) → List Component
  | [] => []
  | first :: rest =>
    (if first.isEmpty then if rest.isEmpty then none else some .root
      else if first == ['.'] then some .here
      else Component.ofPiece? first).toList ++ rest.filterMap Component.ofPiece?

theorem components_eq (p : Path) : p.components = componentsOf p.pieces := by
  unfold components leading?
  cases p.pieces <;> rfl

theorem endsWith_slash_iff (text : String) :
    text.endsWith "/" ↔ ∃ before, text.toList = before ++ ['/'] := by
  rw [String.endsWith_eq_endsWith_toSlice, String.Slice.endsWith_string_iff, String.copy_toSlice]
  exact ⟨fun ⟨before, h⟩ => ⟨before, h.symm⟩, fun ⟨before, h⟩ => ⟨before, h.symm⟩⟩

theorem componentsOf_append_empty {pieces : List (List Char)} (hpieces : pieces ≠ [[]]) :
    componentsOf (pieces ++ [[]]) = componentsOf pieces := by
  match pieces with
  | [] => rfl
  | [first] =>
      have hfirst : first.isEmpty = false := by simpa using hpieces
      simp [componentsOf, hfirst, Component.ofPiece?]
  | first :: second :: rest => simp [componentsOf, List.filterMap_cons, Component.ofPiece?]

/-- The component of a first piece that others follow. -/
def front? (first : List Char) : Option Component :=
  if first.isEmpty then some .root
  else if first == ['.'] then some .here
  else ofPiece? first

theorem front?_of_piece {first : List Char} {c : Component} (hc : ofPiece? first = some c) :
    front? first = some c := by
  unfold ofPiece? at hc
  split at hc
  · cases hc
  · rename_i hnone
    rw [Bool.or_eq_true, not_or] at hnone
    rw [front?, if_neg hnone.1, if_neg hnone.2]
    unfold ofPiece?
    rwa [if_neg (by simpa using hnone)]

theorem componentsOf_cons {first : List Char} {rest : List (List Char)}
    (hpieces : first :: rest ≠ [[]]) :
    componentsOf (first :: rest) = (front? first).toList ++ rest.filterMap ofPiece? := by
  rw [componentsOf, front?]
  by_cases hfirst : first.isEmpty
  · have hrest : ¬rest.isEmpty := by
      intro hrest
      apply hpieces
      rw [List.isEmpty_iff.mp hfirst, List.isEmpty_iff.mp hrest]
    rw [if_pos hfirst, if_neg hrest, if_pos hfirst]
  · rw [if_neg hfirst, if_neg hfirst]

theorem componentsOf_append_name (front : List (List Char)) {name : String}
    (hname : isName name) :
    componentsOf (front ++ [name.toList]) = componentsOf (front ++ [[]]) ++ [.name name] := by
  cases front with
  | nil =>
      obtain ⟨hempty, hdot, -, -⟩ := (isName_iff name).mp hname
      have hdot : name.toList ≠ ['.'] := fun heq => hdot (String.toList_inj.mp heq)
      simp [componentsOf, hempty, hdot, ofPiece?_name hname]
  | cons first rest =>
      rw [List.cons_append, List.cons_append, componentsOf_cons (by simp),
        componentsOf_cons (by simp), List.filterMap_append, List.filterMap_append,
        List.filterMap_cons_some (ofPiece?_name hname)]
      simp [ofPiece?]

/-- A name below a path is one more piece. The pieces before it, with an empty
one at the end, have the components of the path. -/
theorem pieces_join (p : Path) {name : String} (hname : isName name) :
    ∃ front, (p.join name).pieces = front ++ [name.toList] ∧
      p.components = componentsOf (front ++ [[]]) := by
  obtain ⟨-, -, -, hslash⟩ := (isName_iff name).mp hname
  have hrelative : name.startsWith "/" = false := by
    rw [Bool.eq_false_iff, Ne, String.startsWith_string_iff]
    exact fun hlead => hslash (hlead.subset (by simp))
  have hsplit : ∀ before : List Char, (before ++ '/' :: name.toList).splitOn '/' =
      before.splitOn '/' ++ [name.toList] := by
    intro before
    rw [List.splitOn_append_cons_self, List.splitOn_eq_singleton hslash]
  simp only [join, hrelative, Bool.false_eq_true, if_false, components_eq, pieces, Text.splitOn_eq]
  split
  · rename_i hopen
    rcases Bool.or_eq_true _ _ ▸ hopen with hempty | hends
    · have htext : p.text = "" := by simpa using hempty
      exact ⟨[], by simp [htext, List.splitOn_eq_singleton hslash], by simp [htext]⟩
    · obtain ⟨before, htext⟩ := (endsWith_slash_iff p.text).mp hends
      refine ⟨before.splitOn '/', ?_, ?_⟩
      · rw [String.toList_append, htext, List.append_assoc]
        exact hsplit before
      · rw [htext, List.splitOn_append_cons_self]
        rfl
  · rename_i hclosed
    refine ⟨p.text.toList.splitOn '/', ?_, ?_⟩
    · rw [String.toList_append, String.toList_append, List.append_assoc]
      exact hsplit p.text.toList
    · refine (componentsOf_append_empty fun hempty => ?_).symm
      have hjoined : ['/'].intercalate (p.text.toList.splitOn '/') = p.text.toList :=
        List.intercalate_splitOn '/'
      rw [hempty] at hjoined
      have htext : p.text = "" := String.toList_inj.mp hjoined.symm
      simp [htext] at hclosed

/-- A name below a path adds one component. -/
theorem components_join (p : Path) {name : String} (hname : isName name) :
    (p.join name).components = p.components ++ [.name name] := by
  obtain ⟨front, hjoin, hcomponents⟩ := p.pieces_join hname
  rw [components_eq, hjoin, componentsOf_append_name front hname, hcomponents]

/-- Trimming drops pieces that stand for no component, up to the first piece of
the path. -/
theorem trimPieces_append (pieces : List (List Char)) (first : List Char) :
    ∃ kept, trimPieces (pieces ++ [first]) = kept ++ [first] ∧ kept.Sublist pieces ∧
      kept.filterMap Component.ofPiece? = pieces.filterMap Component.ofPiece? := by
  induction pieces with
  | nil => exact ⟨[], rfl, List.Sublist.slnil, rfl⟩
  | cons piece rest ih =>
      obtain ⟨kept, htrim, hsublist, hsame⟩ := ih
      have hstep : trimPieces (piece :: (rest ++ [first])) =
          if (Component.ofPiece? piece).isNone then trimPieces (rest ++ [first])
          else piece :: (rest ++ [first]) := by
        cases rest <;> rfl
      rw [List.cons_append, hstep]
      cases hpiece : Component.ofPiece? piece with
      | none =>
          exact ⟨kept, by simpa using htrim, hsublist.cons piece,
            by rw [hsame, List.filterMap_cons_none hpiece]⟩
      | some c => exact ⟨piece :: rest, by simp, List.Sublist.refl _, rfl⟩

theorem pieces_ofPieces {pieces : List (List Char)} (hpieces : pieces ≠ []) (hroot : pieces ≠ [[]])
    (hslash : ∀ piece ∈ pieces, '/' ∉ piece) : (ofPieces pieces).pieces = pieces := by
  have hunfold : ofPieces pieces = ⟨Text.join "/" (pieces.map String.ofList)⟩ := by
    unfold ofPieces
    split
    · contradiction
    · rfl
  have htext : (Text.join "/" (pieces.map String.ofList)).toList =
      ['/'].intercalate pieces := by
    rw [Text.join, String.toList_intercalate, List.map_map]
    simp [Function.comp_def]
  rw [hunfold, Path.pieces, Text.splitOn_eq, htext]
  exact List.splitOn_intercalate '/' hslash hpieces

theorem pieces_ne_nil (p : Path) : p.pieces ≠ [] := by
  rw [pieces, Text.splitOn_eq]
  exact List.splitOn_ne_nil _ _

theorem slash_not_mem_of_mem_pieces {p : Path} {piece : List Char} (hpiece : piece ∈ p.pieces) :
    '/' ∉ piece := by
  rw [pieces, Text.splitOn_eq] at hpiece
  exact Text.sep_not_mem_of_mem_splitOn hpiece

theorem components_ofPieces {first : List Char} {rest : List (List Char)}
    (hpieces : first :: rest ≠ [[]]) (hclean : ∀ piece ∈ first :: rest, '/' ∉ piece) :
    (ofPieces (first :: rest)).components =
      (front? first).toList ++ rest.filterMap ofPiece? := by
  rw [components_eq, pieces_ofPieces (List.cons_ne_nil _ _) hpieces hclean,
    componentsOf_cons hpieces]

theorem ofPiece?_of_trimPieces {pieces : List (List Char)} {last : List Char}
    {more : List (List Char)} (htrim : trimPieces pieces = last :: more) (hmore : more ≠ []) :
    ∃ c, ofPiece? last = some c := by
  fun_induction trimPieces pieces with
  | case1 => cases htrim
  | case2 first =>
      obtain ⟨-, rfl⟩ := List.cons.inj htrim
      exact absurd rfl hmore
  | case3 piece rest _ _ ih => exact ih htrim
  | case4 piece rest _ hpiece =>
      obtain ⟨rfl, -⟩ := List.cons.inj htrim
      exact Option.ne_none_iff_exists'.mp fun hnone => hpiece (by rw [hnone]; rfl)

theorem parent?_eq_of_trim {p : Path} {last first : List Char} {kept kept' : List (List Char)}
    (htrim : trimPieces p.pieces.reverse = last :: (kept ++ [first]))
    (htrim' : trimPieces (kept ++ [first]) = kept' ++ [first]) :
    p.parent? = some (if first :: kept'.reverse = [[]] then ⟨"/"⟩
      else ofPieces (first :: kept'.reverse)) := by
  have hreverse : (kept' ++ [first]).reverse = first :: kept'.reverse := by
    rw [List.reverse_append, List.reverse_singleton, List.singleton_append]
  obtain ⟨second, more, hmore⟩ : ∃ second more, kept ++ [first] = second :: more :=
    List.exists_cons_of_ne_nil (by simp)
  rw [hmore] at htrim htrim'
  simp only [parent?, htrim, htrim', hreverse]
  split
  · rename_i hroot
    rw [if_pos hroot]
  · rename_i hother
    rw [if_neg hother]

/-- The parent of a path that ends in a name has the components before it. -/
theorem components_parent? {p : Path} {front : List Component} {name : String}
    (hp : p.components = front ++ [.name name]) :
    ∃ parent, p.parent? = some parent ∧ parent.components = front := by
  obtain ⟨first, rest, hpieces⟩ := List.exists_cons_of_ne_nil p.pieces_ne_nil
  have hmore : first :: rest ≠ [[]] := by
    intro hone
    rw [components_eq, hpieces, hone] at hp
    exact absurd hp.symm (List.append_ne_nil_of_right_ne_nil _ (List.cons_ne_nil _ _))
  obtain ⟨kept, htrim, hsublist, hsame⟩ := trimPieces_append rest.reverse first
  have hcomponents : front ++ [.name name] =
      (front? first).toList ++ (kept.filterMap ofPiece?).reverse := by
    rw [← hp, components_eq, hpieces, componentsOf_cons hmore, hsame, List.filterMap_reverse,
      List.reverse_reverse]
  rw [← List.reverse_cons, ← hpieces] at htrim
  cases kept with
  | nil =>
      -- Only the first piece stands for a component, so it is the name.
      rw [List.filterMap_nil, List.reverse_nil, List.append_nil] at hcomponents
      cases hfront : front? first with
      | none => simp [hfront] at hcomponents
      | some c =>
          rw [hfront] at hcomponents
          have hsingle : front ++ [.name name] = [] ++ [c] := hcomponents
          obtain ⟨hnone, hlast⟩ := List.append_inj' hsingle rfl
          have hfirst : first.isEmpty = false := by
            rw [Bool.eq_false_iff]
            intro hempty
            rw [front?, if_pos hempty, Option.some.injEq] at hfront
            rw [← hfront, List.singleton_inj] at hlast
            cases hlast
          exact ⟨⟨""⟩, by simp [parent?, htrim, hfirst], hnone.symm⟩
  | cons last kept =>
      obtain ⟨c, hc⟩ := ofPiece?_of_trimPieces htrim (by simp)
      obtain ⟨kept', htrim', hsublist', hsame'⟩ := trimPieces_append kept first
      rw [List.filterMap_cons_some hc, List.reverse_cons, ← List.append_assoc, ← hsame',
        ← List.filterMap_reverse] at hcomponents
      refine ⟨_, parent?_eq_of_trim htrim htrim', ?_⟩
      rw [List.append_inj_left' hcomponents rfl]
      split
      · rename_i hroot
        obtain ⟨rfl, hnone⟩ := List.cons.inj hroot
        rw [hnone]
        rfl
      · rename_i hroot
        refine components_ofPieces hroot fun piece hpiece => ?_
        apply slash_not_mem_of_mem_pieces (p := p)
        rw [hpieces]
        rcases List.mem_cons.mp hpiece with rfl | hlater
        · exact List.mem_cons_self
        · apply List.mem_cons_of_mem
          have hkept := hsublist'.subset (List.mem_reverse.mp hlater)
          exact List.mem_reverse.mp (hsublist.subset (List.mem_cons_of_mem _ hkept))

/-- The path at the end of a row of names below a path. -/
def below (p : Path) (names : List String) : Path := names.foldl join p

theorem below_concat (p : Path) (names : List String) (name : String) :
    p.below (names ++ [name]) = (p.below names).join name := by
  simp [below]

theorem components_below (p : Path) {names : List String} (hnames : ∀ n ∈ names, isName n) :
    (p.below names).components = p.components ++ names.map .name := by
  induction names generalizing p with
  | nil => simp [below]
  | cons name rest ih =>
      have hrest : ∀ n ∈ rest, isName n := fun n hn => hnames n (List.mem_cons_of_mem _ hn)
      rw [below, List.foldl_cons, ← below, ih (p.join name) hrest,
        components_join p (hnames name List.mem_cons_self), List.append_assoc]
      rfl

/-- Rows of names below a path are told apart by the components of the
result. -/
theorem below_injective (p : Path) {names names' : List String} (hnames : ∀ n ∈ names, isName n)
    (hnames' : ∀ n ∈ names', isName n)
    (hsame : (p.below names).components = (p.below names').components) : names = names' := by
  rw [components_below p hnames, components_below p hnames', List.append_cancel_left_eq] at hsame
  exact List.map_injective_iff.mpr (fun _ _ h => Component.name.inj h) hsame

private theorem takeWhile_reverse_append {cs : List Char} (hdot : '.' ∉ cs) (rest : List Char) :
    (cs.reverse ++ rest).takeWhile (· != '.') = cs.reverse ++ rest.takeWhile (· != '.') := by
  apply List.takeWhile_append_of_pos
  intro c hc
  rw [bne_iff_ne]
  rintro rfl
  exact hdot (List.mem_reverse.mp hc)

/-- A name is split at the last of its dots, unless nothing comes before it. -/
private theorem splitName_of_dot {name : String} {stem ext : List Char}
    (hname : name.toList = stem ++ '.' :: ext) (hext : '.' ∉ ext) :
    splitName name = if stem.isEmpty then (name.toList, none) else (stem, some ext) := by
  have htail : Text.afterLast '.' name.toList = ext := by
    rw [Text.afterLast, hname, List.reverse_append, List.reverse_cons, List.append_assoc,
      takeWhile_reverse_append hext]
    simp
  have hstem : name.toList.take (name.toList.length - ext.length - 1) = stem := by
    have hlength : name.toList.length - ext.length - 1 = stem.length := by
      rw [hname, List.length_append, List.length_cons]
      omega
    rw [hlength, hname, List.take_left]
  have hshorter : (ext.length == name.toList.length) = false := by
    rw [beq_eq_false_iff_ne, hname, List.length_append, List.length_cons]
    omega
  simp only [splitName, htail, hstem, hshorter, Bool.false_or]

/-- A file name has an extension exactly when there is a dot behind its first
character; the extension comes after the last one. -/
theorem splitName_eq_iff (name : String) (stem ext : List Char) :
    splitName name = (stem, some ext) ↔
      name.toList = stem ++ '.' :: ext ∧ stem ≠ [] ∧ '.' ∉ ext := by
  constructor
  · intro hsplit
    by_cases hdot : '.' ∈ name.toList
    · obtain ⟨before, after, hname, hafter⟩ : ∃ before after,
          name.toList = before ++ '.' :: after ∧ '.' ∉ after := by
        obtain ⟨after, before, hreverse, hafter⟩ :=
          List.eq_append_cons_of_mem (List.mem_reverse.mpr hdot)
        refine ⟨before.reverse, after.reverse, ?_, by simpa using hafter⟩
        rw [← List.reverse_reverse name.toList, hreverse]
        simp
      rw [splitName_of_dot hname hafter] at hsplit
      split at hsplit
      · simp at hsplit
      · rename_i hbefore
        obtain ⟨rfl, hext⟩ := Prod.mk.inj hsplit
        obtain rfl := Option.some.inj hext
        exact ⟨hname, by simpa using hbefore, hafter⟩
    · have hwhole : Text.afterLast '.' name.toList = name.toList := by
        have hkept := takeWhile_reverse_append hdot []
        simp only [List.append_nil, List.takeWhile_nil] at hkept
        rw [Text.afterLast, hkept, List.reverse_reverse]
      simp [splitName, hwhole] at hsplit
  · rintro ⟨hname, hstem, hext⟩
    rw [splitName_of_dot hname hext, if_neg (by simpa using hstem)]

theorem splitName_dotted {stem ext : String} (hstem : stem ≠ "") (hext : '.' ∉ ext.toList) :
    splitName (stem ++ "." ++ ext) = (stem.toList, some ext.toList) := by
  rw [splitName_eq_iff]
  exact ⟨by simp, by simpa using hstem, hext⟩

theorem fileName?_eq_some_iff (p : Path) (name : String) :
    p.fileName? = some name ↔ ∃ front, p.components = front ++ [.name name] := by
  constructor
  · intro hname
    cases hlast : p.components.getLast? with
    | none => simp [fileName?, hlast] at hname
    | some c =>
        cases c <;> simp only [fileName?, hlast, reduceCtorEq, Option.some.injEq] at hname
        obtain ⟨front, hfront⟩ := List.getLast?_eq_some_iff.mp hlast
        exact ⟨front, hname ▸ hfront⟩
  · rintro ⟨front, hfront⟩
    simp [fileName?, hfront]

/-- A path has one of some extensions when its last component is a stem, a dot
and the extension. -/
theorem hasExtension_iff (p : Path) {extensions : List String}
    (hplain : ∀ ext ∈ extensions, '.' ∉ ext.toList) :
    p.hasExtension extensions ↔
      ∃ front stem, stem ≠ "" ∧ ∃ ext ∈ extensions,
        p.components = front ++ [.name (stem ++ "." ++ ext)] := by
  rw [hasExtension, extension?]
  constructor
  · intro hany
    cases hname : p.fileName? with
    | none => simp [hname] at hany
    | some name =>
        rw [hname, Option.bind_some] at hany
        cases hsplit : (splitName name).2 with
        | none => simp [hsplit] at hany
        | some ext =>
            have hmember : String.ofList ext ∈ extensions := by simpa [hsplit] using hany
            obtain ⟨htext, hstem, -⟩ := (splitName_eq_iff name (splitName name).1 ext).mp
              (Prod.ext rfl hsplit)
            obtain ⟨front, hfront⟩ := (p.fileName?_eq_some_iff name).mp hname
            have hdotted : name = String.ofList (splitName name).1 ++ "." ++ String.ofList ext := by
              apply String.toList_inj.mp
              simpa using htext
            exact ⟨front, _, by simpa using hstem, _, hmember, hdotted ▸ hfront⟩
  · rintro ⟨front, stem, hstem, ext, hmember, hfront⟩
    rw [(p.fileName?_eq_some_iff _).mpr ⟨front, hfront⟩, Option.bind_some,
      splitName_dotted hstem (hplain ext hmember)]
    simpa using hmember

theorem hasExtension_join_iff (p : Path) {name : String} (hname : isName name)
    {extensions : List String} (hplain : ∀ ext ∈ extensions, '.' ∉ ext.toList) :
    (p.join name).hasExtension extensions ↔
      ∃ stem, stem ≠ "" ∧ ∃ ext ∈ extensions, name = stem ++ "." ++ ext := by
  rw [hasExtension_iff _ hplain, components_join p hname]
  constructor
  · rintro ⟨front, stem, hstem, ext, hmember, hsame⟩
    have hlast := List.singleton_inj.mp (List.append_inj' hsame rfl).2
    exact ⟨stem, hstem, ext, hmember, Component.name.inj hlast⟩
  · rintro ⟨stem, hstem, ext, hmember, rfl⟩
    exact ⟨p.components, stem, hstem, ext, hmember, rfl⟩

/-- The directory and the stem of a path whose last component is a stem, a dot
and an extension. -/
theorem stemKey?_of_components {p : Path} {front : List Component} {stem ext : String}
    (hp : p.components = front ++ [.name (stem ++ "." ++ ext)]) (hstem : stem ≠ "")
    (hext : '.' ∉ ext.toList) : p.stemKey? = some (front, stem) := by
  obtain ⟨parent, hparent, hcomponents⟩ := components_parent? hp
  rw [stemKey?, hparent, fileStem?, (p.fileName?_eq_some_iff _).mpr ⟨front, hp⟩, Option.map_some,
    splitName_dotted hstem hext]
  simp [hcomponents]

theorem stemKey?_dotted (p : Path) {stem ext : String} (hname : isName (stem ++ "." ++ ext))
    (hstem : stem ≠ "") (hext : '.' ∉ ext.toList) :
    (p.join (stem ++ "." ++ ext)).stemKey? = some (p.components, stem) :=
  stemKey?_of_components (components_join p hname) hstem hext

end Path

namespace Component

def rank : Component → Nat
  | .root => 0
  | .here => 1
  | .up => 2
  | .name _ => 3

def text : Component → String
  | .name s => s
  | _ => ""

theorem order_eq_lex : order = compareLex (compareOn rank) (compareOn text) := by
  funext a b
  cases a <;> cases b <;> rfl

instance : TransCmp order := by
  rw [order_eq_lex]
  infer_instance

instance : LawfulEqCmp order where
  eq_of_compare {a b} horder := by
    cases a <;> cases b <;> simp_all [order]

theorem orderList_eq_compareLex (as bs : List Component) :
    orderList as bs = List.compareLex order as bs := by
  induction as generalizing bs with
  | nil => cases bs <;> rfl
  | cons a rest ih =>
      cases bs with
      | nil => rfl
      | cons b more =>
          rw [orderList, List.compareLex, ih]
          cases order a b <;> rfl

end Component

namespace Path

instance : TransCmp order where
  eq_swap {a b} := by
    simp only [order, Component.orderList_eq_compareLex]
    exact OrientedCmp.eq_swap
  isLE_trans {a b c} := by
    simp only [order, Component.orderList_eq_compareLex]
    exact TransCmp.isLE_trans

theorem components_eq_of_order_eq {a b : Path} (horder : order a b = .eq) :
    a.components = b.components := by
  rw [order, Component.orderList_eq_compareLex] at horder
  exact LawfulEqCmp.eq_of_compare horder

theorem text_join (p : Path) {name : String} (hname : isName name) :
    (p.join name).text ≠ "" ∧ (p.join name).text.endsWith "/" = false := by
  obtain ⟨hempty, -, -, hslash⟩ := (isName_iff name).mp hname
  obtain ⟨lead, htext⟩ : ∃ lead, (p.join name).text = lead ++ name := by
    unfold join
    split
    · exact ⟨"", by simp⟩
    · split
      · exact ⟨p.text, rfl⟩
      · exact ⟨p.text ++ "/", rfl⟩
  rw [htext]
  refine ⟨by simp [hempty], ?_⟩
  rw [Bool.eq_false_iff, Ne, endsWith_slash_iff]
  rintro ⟨before, hends⟩
  rw [String.toList_append] at hends
  have hlast : (lead.toList ++ name.toList).getLast? = some '/' := by simp [hends]
  rw [List.getLast?_append_of_ne_nil _ (by simpa using hempty)] at hlast
  exact hslash (List.mem_of_getLast? hlast)

theorem text_below (p : Path) {names : List String} (hnames : ∀ n ∈ names, isName n)
    (hbelow : names ≠ []) :
    (p.below names).text ≠ "" ∧ (p.below names).text.endsWith "/" = false := by
  obtain ⟨dir, name, rfl⟩ : ∃ dir name, names = dir ++ [name] :=
    ⟨_, _, (List.dropLast_concat_getLast hbelow).symm⟩
  rw [below_concat]
  exact (p.below dir).text_join (hnames name (by simp))

/-- A text that goes down from the directory it is joined to: it does not start
at the root and no component leads up. -/
structure IsPlain (text : String) : Prop where
  relative : text.startsWith "/" = false
  down : Component.up ∉ (Path.mk text).components

theorem componentsOf_append {front more : List (List Char)} (hfront : front ≠ [])
    (hmore : more ≠ []) :
    componentsOf (front ++ more) =
      componentsOf (front ++ [[]]) ++ more.filterMap Component.ofPiece? := by
  obtain ⟨first, rest, rfl⟩ := List.exists_cons_of_ne_nil hfront
  obtain ⟨second, others, rfl⟩ := List.exists_cons_of_ne_nil hmore
  simp [componentsOf, Component.ofPiece?]

/-- The components of a relative text come behind those of the path that it is
joined to. -/
theorem components_join_relative {p : Path} {text : String} (hp : p.text ≠ "")
    (hrelative : text.startsWith "/" = false) :
    (p.join text).components =
      p.components ++ (Path.mk text).pieces.filterMap Component.ofPiece? := by
  have hsplit : ∀ before after : List Char, (before ++ ['/'] ++ after).splitOn '/' =
      before.splitOn '/' ++ after.splitOn '/' := by
    intro before after
    rw [List.append_assoc]
    exact List.splitOn_append_cons_self before after
  -- the pieces in front have the components of the path, with an empty piece at the end
  obtain ⟨front, hfront, hpieces, hcomponents⟩ : ∃ front, front ≠ [] ∧
      (p.join text).pieces = front ++ (Path.mk text).pieces ∧
      p.components = componentsOf (front ++ [[]]) := by
    simp only [join, hrelative, Bool.false_eq_true, if_false, components_eq, pieces,
      Text.splitOn_eq]
    by_cases hends : p.text.endsWith "/"
    · obtain ⟨before, htext⟩ := (endsWith_slash_iff p.text).mp hends
      refine ⟨before.splitOn '/', List.splitOn_ne_nil _ _, ?_, ?_⟩
      · rw [if_pos (by simp [hends]), String.toList_append, htext, hsplit]
      · have hlast := hsplit before []
        rw [List.append_nil, List.splitOn_nil] at hlast
        rw [htext, hlast]
    · refine ⟨p.text.toList.splitOn '/', List.splitOn_ne_nil _ _, ?_, ?_⟩
      · rw [if_neg (by simp [hends, hp]), String.toList_append, String.toList_append]
        exact hsplit _ _
      · refine (componentsOf_append_empty fun hempty => hp ?_).symm
        have hjoined : ['/'].intercalate (p.text.toList.splitOn '/') = p.text.toList :=
          List.intercalate_splitOn '/'
        rw [hempty] at hjoined
        exact String.toList_inj.mp hjoined.symm
  have hmore : (Path.mk text).pieces ≠ [] := by
    rw [pieces, Text.splitOn_eq]
    exact List.splitOn_ne_nil _ _
  rw [components_eq, hpieces, componentsOf_append hfront hmore, hcomponents]

theorem mem_components_of_piece {p : Path} {piece : List Char} {c : Component}
    (hpiece : piece ∈ p.pieces) (hc : Component.ofPiece? piece = some c) : c ∈ p.components := by
  obtain ⟨first, rest, hpieces⟩ := List.exists_cons_of_ne_nil p.pieces_ne_nil
  rw [hpieces] at hpiece
  have hmore : first :: rest ≠ [[]] := by
    intro hone
    rw [hone, List.mem_singleton] at hpiece
    subst hpiece
    cases hc
  rw [components_eq, hpieces, componentsOf_cons hmore, List.mem_append]
  rcases List.mem_cons.mp hpiece with rfl | hlater
  · rw [front?_of_piece hc]
    exact Or.inl (List.mem_singleton_self c)
  · exact Or.inr (List.mem_filterMap.mpr ⟨piece, hlater, hc⟩)

/-- A plain text adds names only. -/
theorem IsPlain.components_join {p : Path} {text : String} (hplain : IsPlain text)
    (hp : p.text ≠ "") :
    ∃ names : List String, (p.join text).components = p.components ++ names.map .name := by
  let added := (Path.mk text).pieces.filterMap Component.ofPiece?
  have hadded : ∀ c ∈ added, Component.name c.text = c := by
    intro c hmember
    obtain ⟨piece, hpiece, hc⟩ := List.mem_filterMap.mp hmember
    have hdown : c ≠ .up := by
      rintro rfl
      exact hplain.down (mem_components_of_piece hpiece hc)
    unfold Component.ofPiece? at hc
    split at hc
    · cases hc
    · split at hc
      · exact absurd (Option.some.inj hc).symm hdown
      · obtain rfl := Option.some.inj hc
        rfl
  refine ⟨added.map Component.text, ?_⟩
  rw [components_join_relative hp hplain.relative, List.map_map]
  exact congrArg _ ((List.map_id' added).symm.trans
    (List.map_congr_left fun c hc => (hadded c hc).symm))

end Path

end WebAudit
