import Mathlib.Data.List.Basic
import WebAudit.Proofs.PathComponents

/-!
Relative paths by their components. A path relative to a base has the components
behind those of the base, however the two are written, and a path is relative to
a base exactly if it starts with the components of the base.
-/

namespace WebAudit.Path

open Component (ofPiece?)

/-- The pieces of a path without those at the end that stand for no component. -/
theorem exists_trimmed (first : List Char) (rest : List (List Char)) :
    ∃ kept, (trimPieces (first :: rest).reverse).reverse = first :: kept ∧ kept.Sublist rest ∧
      kept.filterMap ofPiece? = rest.filterMap ofPiece? := by
  obtain ⟨kept, htrim, hsublist, hsame⟩ := trimPieces_append rest.reverse first
  refine ⟨kept.reverse, ?_, ?_, ?_⟩
  · rw [List.reverse_cons, htrim, List.reverse_append, List.reverse_singleton,
      List.singleton_append]
  · rw [← List.reverse_reverse rest]
    exact hsublist.reverse
  · rw [List.filterMap_reverse, hsame, ← List.filterMap_reverse, List.reverse_reverse]

section Relative

variable {base p r : Path}

theorem dropPieces_isSuffix (n : Nat) (pieces : List (List Char)) :
    dropPieces n pieces <:+ pieces := by
  induction n generalizing pieces with
  | zero => exact List.dropWhile_suffix _
  | succ n ih =>
      exact (ih _).trans ((List.tail_suffix _).trans (List.dropWhile_suffix _))

/-- Either no piece stands for a component, or the first one that is left does. -/
theorem dropEmpty_cases (pieces : List (List Char)) :
    (dropEmpty pieces = [] ∧ pieces.filterMap ofPiece? = []) ∨
      ∃ piece rest c, dropEmpty pieces = piece :: rest ∧ ofPiece? piece = some c ∧
        pieces.filterMap ofPiece? = c :: rest.filterMap ofPiece? := by
  induction pieces with
  | nil => exact .inl ⟨rfl, rfl⟩
  | cons piece rest ih =>
      cases hpiece : ofPiece? piece with
      | none =>
          have hdrop : dropEmpty (piece :: rest) = dropEmpty rest := by
            simp [dropEmpty, hpiece]
          rwa [hdrop, List.filterMap_cons_none hpiece]
      | some c =>
          refine .inr ⟨piece, rest, c, ?_, hpiece, List.filterMap_cons_some hpiece⟩
          simp [dropEmpty, hpiece]

theorem dropPieces_cases (n : Nat) (pieces : List (List Char)) :
    (dropPieces n pieces = [] ∧ (pieces.filterMap ofPiece?).drop n = []) ∨
      ∃ piece rest c, dropPieces n pieces = piece :: rest ∧ ofPiece? piece = some c ∧
        (pieces.filterMap ofPiece?).drop n = c :: rest.filterMap ofPiece? := by
  induction n generalizing pieces with
  | zero => exact dropEmpty_cases pieces
  | succ n ih =>
      rw [dropPieces]
      rcases dropEmpty_cases pieces with ⟨hnil, hnone⟩ | ⟨piece, rest, c, hdrop, -, hsome⟩
      · have hrest := ih []
        rw [List.filterMap_nil, List.drop_nil] at hrest
        rw [hnil, hnone, List.drop_nil]
        exact hrest
      · rw [hdrop, hsome, List.drop_succ_cons]
        exact ih rest

theorem exists_front? (first : List Char) : ∃ c, front? first = some c := by
  rw [front?, ofPiece?]
  split
  · exact ⟨_, rfl⟩
  · split
    · exact ⟨_, rfl⟩
    · rename_i hempty hdot
      rw [if_neg (by simp [hempty, hdot])]
      split
      · exact ⟨_, rfl⟩
      · exact ⟨_, rfl⟩

theorem leading?_eq {first : List Char} {rest : List (List Char)}
    (hpieces : p.pieces = first :: rest) (hmore : first :: rest ≠ [[]]) :
    p.leading? = front? first := by
  rw [leading?, hpieces]
  cases first with
  | nil =>
      cases rest with
      | nil => exact absurd rfl hmore
      | cons second more => rfl
  | cons c cs => rfl

theorem components_trimmed {first : List Char} {rest : List (List Char)}
    (hclean : ∀ piece ∈ first :: rest, '/' ∉ piece)
    (hmore : (trimPieces (first :: rest).reverse).reverse ≠ [[]]) :
    (ofPieces (trimPieces (first :: rest).reverse).reverse).components =
      (front? first).toList ++ rest.filterMap ofPiece? := by
  obtain ⟨kept, htrim, hsublist, hsame⟩ := exists_trimmed first rest
  rw [htrim] at hmore ⊢
  rw [components_ofPieces hmore, hsame]
  intro piece hpiece
  apply hclean
  exact (hsublist.cons_cons first).subset hpiece

theorem ite_root_eq {pieces : List (List Char)} (hroot : pieces ≠ [[]]) (absolute : Bool) :
    (if pieces == [[]] && absolute then (⟨"/"⟩ : Path) else ofPieces pieces) =
      ofPieces pieces := by
  rw [beq_eq_false_iff_ne.mpr hroot, Bool.false_and]
  rfl

/-- A base without components leaves a path its components. -/
theorem components_relativeTo?_nil (hbase : base.components = [])
    (hr : relativeTo? base p = some r) : r.components = p.components := by
  obtain ⟨first, rest, hpieces⟩ := List.exists_cons_of_ne_nil p.pieces_ne_nil
  obtain ⟨kept, htrim, hsublist, hsame⟩ := exists_trimmed first rest
  have hclean : ∀ piece ∈ first :: rest, '/' ∉ piece :=
    fun piece hpiece => slash_not_mem_of_mem_pieces (hpieces ▸ hpiece)
  simp only [relativeTo?, hbase, List.length_nil, List.take_zero, BEq.rfl, if_true,
    Option.some.injEq, hpieces] at hr
  subst hr
  by_cases hroot : (trimPieces (first :: rest).reverse).reverse = [[]]
  · have hnone : rest.filterMap ofPiece? = [] := by
      rw [htrim] at hroot
      rw [← hsame, (List.cons.inj hroot).2, List.filterMap_nil]
    have hfirst : first = [] := by
      rw [htrim] at hroot
      exact (List.cons.inj hroot).1
    subst hfirst
    rw [hroot, components_eq p, hpieces]
    by_cases hrest : rest = []
    · have habsolute : p.isAbsolute = false := by
        rw [isAbsolute, leading?, hpieces, hrest]
        rfl
      rw [habsolute, hrest]
      rfl
    · have hmore : [] :: rest ≠ [[]] := fun hone => hrest (List.cons.inj hone).2
      have habsolute : p.isAbsolute = true := by
        rw [isAbsolute, leading?_eq hpieces hmore]
        rfl
      rw [habsolute, componentsOf_cons hmore, hnone]
      rfl
  · have hmore : first :: rest ≠ [[]] := by
      intro hone
      apply hroot
      obtain ⟨rfl, rfl⟩ := List.cons.inj hone
      rfl
    rw [ite_root_eq hroot, components_trimmed hclean hroot, components_eq p, hpieces,
      componentsOf_cons hmore]

/-- A base with components takes as many from the front of a path. -/
theorem components_relativeTo?_succ {n : Nat} (hbase : base.components.length = n + 1)
    (hr : relativeTo? base p = some r) : r.components = p.components.drop (n + 1) := by
  obtain ⟨first, rest, hpieces⟩ := List.exists_cons_of_ne_nil p.pieces_ne_nil
  obtain ⟨c, hc⟩ := exists_front? first
  have hclean : ∀ piece ∈ rest, '/' ∉ piece := fun piece hpiece =>
    slash_not_mem_of_mem_pieces (hpieces ▸ List.mem_cons_of_mem first hpiece)
  unfold relativeTo? at hr
  dsimp only at hr
  split at hr
  · rename_i htake
    have hmore : first :: rest ≠ [[]] := by
      intro hone
      have hlength := congrArg List.length (beq_iff_eq.mp htake)
      rw [components_eq p, hpieces, hone, hbase] at hlength
      cases hlength
    rw [components_eq p, hpieces, componentsOf_cons hmore, hc, Option.toList_some,
      List.singleton_append, List.drop_succ_cons]
    rw [leading?_eq hpieces hmore, hc, hbase, hpieces] at hr
    have hpositive : (n + 1 == 0) = false := rfl
    simp only [Option.isSome_some, if_true, Nat.add_one_sub_one, List.drop_succ_cons,
      List.drop_zero, Option.some.injEq, hpositive, Bool.false_eq_true, if_false] at hr
    subst hr
    rcases dropPieces_cases n rest with ⟨hnil, hnone⟩ | ⟨piece, more, d, hdrop, hd, hsome⟩
    · rw [hnil, hnone]
      rfl
    · have hsuffix := dropPieces_isSuffix n rest
      rw [hdrop] at hsuffix
      have hroot : (trimPieces (piece :: more).reverse).reverse ≠ [[]] := by
        obtain ⟨kept, htrim, -, -⟩ := exists_trimmed piece more
        rw [htrim]
        intro hone
        rw [(List.cons.inj hone).1] at hd
        cases hd
      rw [hdrop, hsome, ite_root_eq hroot,
        components_trimmed (fun piece hpiece => hclean piece (hsuffix.subset hpiece)) hroot,
        front?_of_piece hd]
      rfl
  · cases hr

/-- A path relative to a base has the components behind those of the base. -/
theorem components_relativeTo? (hr : relativeTo? base p = some r) :
    p.components = base.components ++ r.components := by
  have htake : base.components = p.components.take base.components.length := by
    unfold relativeTo? at hr
    dsimp only at hr
    split at hr
    · rename_i htake
      exact beq_iff_eq.mp htake
    · cases hr
  have hdrop : r.components = p.components.drop base.components.length := by
    cases hlength : base.components.length with
    | zero =>
        rw [components_relativeTo?_nil (List.length_eq_zero_iff.mp hlength) hr, List.drop_zero]
    | succ n => exact components_relativeTo?_succ hlength hr
  calc
    p.components = p.components.take base.components.length ++
        p.components.drop base.components.length := (List.take_append_drop _ _).symm
    _ = base.components ++ r.components := by rw [← htake, hdrop]

theorem relativeTo?_eq_none_iff :
    relativeTo? base p = none ↔ ¬base.components <+: p.components := by
  rw [List.prefix_iff_eq_take, relativeTo?]
  split
  · rename_i hsame
    simpa using hsame
  · rename_i hother
    simpa using hother

end Relative

end WebAudit.Path
