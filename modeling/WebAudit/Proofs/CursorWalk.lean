import Mathlib.Data.List.Forall2
import WebAudit.Proofs.TreeWalk

/-!
A walk as the moves of its cursor. Nodes are told apart by their addresses, the
positions of the children on the way down from the root, since the same tree
may stand at several addresses. The addresses of a tree in the order of a
recursive visit are those that lead to a node, in strictly increasing
lexicographic order: a node before what is below it, and children from left to
right.

The walk arrives at a node, visits it and goes on to its first child; where
there is none it leaves the node for the next sibling, or else for the parent,
which it then leaves in turn. From the arrival at a node it comes to leave that
node again, after two steps for each node below it and one for itself, and has
then visited what is at or below the node, address by address. It ends when it
leaves the root. Between two visits these single moves lead to what the walk
takes as its next place.
-/

namespace WebAudit.Script

namespace Node

mutual

/-- What holds of a tree whenever it holds of its children holds of all trees. -/
theorem induct {P : Node → Prop} (hstep : ∀ n, (∀ child ∈ n.children, P child) → P n) :
    ∀ n, P n
  | .mk _ _ _ _ children => hstep _ (inductAll hstep children)

private theorem inductAll {P : Node → Prop}
    (hstep : ∀ n, (∀ child ∈ n.children, P child) → P n) :
    ∀ ns : List Node, ∀ n ∈ ns, P n
  | [], _, hn => absurd hn List.not_mem_nil
  | first :: rest, n, hn => by
      rcases List.mem_cons.mp hn with hfirst | hrest
      · exact hfirst ▸ induct hstep first
      · exact inductAll hstep rest n hrest

end

theorem size_eq (n : Node) : n.size = sizeAll n.children + 1 := by
  cases n
  rw [size]
  rfl

theorem preorder_eq (n : Node) : n.preorder = n :: preorderAll n.children := by
  cases n
  rw [preorder]
  rfl

def at? (n : Node) : List Nat → Option Node
  | [] => some n
  | i :: rest => n.children[i]?.bind fun child => child.at? rest

theorem at?_append (n : Node) (p q : List Nat) :
    n.at? (p ++ q) = (n.at? p).bind fun m => m.at? q := by
  induction p generalizing n with
  | nil => rfl
  | cons i rest ih =>
      rw [List.cons_append, at?, at?, Option.bind_assoc]
      simp only [ih]

mutual

/-- The addresses of a tree, each before those below it, and those of children
from left to right. -/
def addresses : Node → List (List Nat)
  | mk _ _ _ _ children => [] :: addressesFrom 0 children

/-- The addresses of several children, of which the first has the given
position. -/
def addressesFrom (i : Nat) : List Node → List (List Nat)
  | [] => []
  | child :: later => child.addresses.map (i :: ·) ++ addressesFrom (i + 1) later

end

theorem addresses_eq (n : Node) : n.addresses = [] :: addressesFrom 0 n.children := by
  cases n
  rw [addresses]
  rfl

theorem mem_addressesFrom_iff {i : Nat} {children : List Node} {p : List Nat} :
    p ∈ addressesFrom i children ↔
      ∃ j child rest, children[j]? = some child ∧ rest ∈ child.addresses ∧ p = (i + j) :: rest := by
  induction children generalizing i with
  | nil => simp [addressesFrom]
  | cons first later ih =>
      rw [addressesFrom, List.mem_append, List.mem_map, ih]
      constructor
      · rintro (⟨rest, hrest, rfl⟩ | ⟨j, child, rest, hchild, hrest, rfl⟩)
        · exact ⟨0, first, rest, rfl, hrest, rfl⟩
        · exact ⟨j + 1, child, rest, hchild, hrest, by rw [Nat.add_right_comm, Nat.add_assoc]⟩
      · rintro ⟨j, child, rest, hchild, hrest, rfl⟩
        cases j with
        | zero =>
            obtain rfl : first = child := Option.some.inj hchild
            exact Or.inl ⟨rest, hrest, rfl⟩
        | succ j =>
            exact Or.inr ⟨j, child, rest, hchild, hrest, by rw [Nat.add_right_comm, Nat.add_assoc]⟩

/-- An address is listed exactly when it leads to a node. -/
theorem mem_addresses_iff (n : Node) (p : List Nat) : p ∈ n.addresses ↔ (n.at? p).isSome := by
  induction p generalizing n with
  | nil => simp [addresses_eq, at?]
  | cons i rest ih =>
      have hne : i :: rest ≠ [] := List.cons_ne_nil i rest
      rw [addresses_eq, List.mem_cons, or_iff_right hne, mem_addressesFrom_iff, at?]
      constructor
      · rintro ⟨j, child, rest', hchild, hrest, heq⟩
        obtain ⟨rfl, rfl⟩ : i = j ∧ rest = rest' := by simpa using heq
        rw [hchild, Option.bind_some, ← ih]
        exact hrest
      · intro hsome
        obtain ⟨m, hm⟩ := Option.isSome_iff_exists.mp hsome
        obtain ⟨child, hchild, hrest⟩ := Option.bind_eq_some_iff.mp hm
        have hlisted := (ih child).mpr (Option.isSome_of_eq_some hrest)
        exact ⟨i, child, rest, hchild, hlisted, by rw [Nat.zero_add]⟩

theorem addressesFrom_pairwise {children : List Node}
    (hchildren : ∀ child ∈ children, child.addresses.Pairwise (· < ·)) (i : Nat) :
    (addressesFrom i children).Pairwise (· < ·) := by
  induction children generalizing i with
  | nil => exact List.Pairwise.nil
  | cons first later ih =>
      obtain ⟨hfirst, hlater⟩ := List.forall_mem_cons.mp hchildren
      rw [addressesFrom, List.pairwise_append]
      refine ⟨hfirst.map _ fun p q hlt => List.cons_lt_cons_self.mpr hlt, ih hlater (i + 1), ?_⟩
      intro p hp q hq
      obtain ⟨rest, -, rfl⟩ := List.mem_map.mp hp
      obtain ⟨j, -, rest', -, -, rfl⟩ := mem_addressesFrom_iff.mp hq
      exact List.Lex.rel (by omega)

/-- Addresses stand in strictly increasing order, each once. -/
theorem addresses_pairwise (n : Node) : n.addresses.Pairwise (· < ·) := by
  induction n using induct with
  | hstep n ih =>
      rw [addresses_eq, List.pairwise_cons]
      refine ⟨?_, addressesFrom_pairwise ih 0⟩
      intro p hp
      obtain ⟨j, -, rest, -, -, rfl⟩ := mem_addressesFrom_iff.mp hp
      exact List.nil_lt_cons _ _

theorem map_at?_addressesFrom {n : Node} {earlier later : List Node}
    (hsplit : n.children = earlier ++ later)
    (hlater : ∀ child ∈ later, child.addresses.map child.at? = child.preorder.map some) :
    (addressesFrom earlier.length later).map n.at? = (preorderAll later).map some := by
  induction later generalizing earlier with
  | nil => rfl
  | cons child later ih =>
      obtain ⟨hchild, hrest⟩ := List.forall_mem_cons.mp hlater
      have hbelow : ∀ p, n.at? (earlier.length :: p) = child.at? p := by
        intro p
        simp [at?, hsplit]
      have hfirst : (child.addresses.map (earlier.length :: ·)).map n.at? =
          child.preorder.map some := by
        rw [List.map_map, ← hchild]
        exact List.map_congr_left fun p _ => hbelow p
      have hshift : n.children = (earlier ++ [child]) ++ later := by simp [hsplit]
      have hothers := ih hshift hrest
      rw [List.length_append, List.length_singleton] at hothers
      rw [addressesFrom, preorderAll, List.map_append, List.map_append, hfirst, hothers]

/-- The addresses lead, one after the other, to the nodes of the recursive
visit. -/
theorem map_at?_addresses (n : Node) : n.addresses.map n.at? = n.preorder.map some := by
  induction n using induct with
  | hstep n ih =>
      have hbelow : (addressesFrom 0 n.children).map n.at? = (preorderAll n.children).map some :=
        map_at?_addressesFrom (List.nil_append _).symm ih
      rw [addresses_eq, List.map_cons, hbelow, preorder_eq]
      rfl

end Node

namespace Cursor

inductive At (root : Node) : Cursor → List Nat → Prop
  | root : At root (.ofRoot root) []
  | child {p : List Nat} {parent child : Node} {frames : List Frame} {earlier later : List Node}
      (hparent : At root ⟨parent, frames⟩ p)
      (hchildren : parent.children = earlier ++ child :: later) :
      At root ⟨child, ⟨parent, later⟩ :: frames⟩ (p ++ [earlier.length])

theorem At.at?_eq {root : Node} {p : List Nat} {c : Cursor} (hat : At root c p) :
    root.at? p = some c.node := by
  induction hat with
  | root => rfl
  | child _ hchildren ih =>
      rw [Node.at?_append, ih, Option.bind_some]
      simp [Node.at?, hchildren]

/-- A cursor stands at one address only. -/
theorem At.unique {root : Node} {c : Cursor} {p q : List Nat} (hp : At root c p)
    (hq : At root c q) : p = q := by
  induction hp generalizing q with
  | root =>
      cases hq
      rfl
  | child _ hchildren ih =>
      cases hq with
      | child hparent' hchildren' =>
          have hlengths := congrArg List.length (hchildren.symm.trans hchildren')
          rw [List.length_append, List.length_append, Nat.add_right_cancel_iff] at hlengths
          rw [ih hparent', hlengths]

/-- Places one after the other, each the next one of a walk after the one before,
up to the place where the walk ends. -/
inductive Trail : Option Cursor → List Cursor → Prop
  | ended : Trail none []
  | visit {c : Cursor} {later : List Cursor} (hlater : Trail c.next? later) :
      Trail (some c) (c :: later)

/-- A walk that may take as many steps as its trail has places is not cut off. -/
theorem Trail.visits_eq {c : Cursor} {trail : List Cursor} (htrail : Trail (some c) trail)
    {steps : Nat} (hsteps : trail.length ≤ steps) : c.visits steps = trail.map node := by
  induction steps generalizing c trail with
  | zero =>
      cases htrail
      exact absurd hsteps (Nat.not_succ_le_zero _)
  | succ steps ih =>
      cases htrail with
      | visit hlater =>
          rw [List.length_cons, Nat.succ_le_succ_iff] at hsteps
          unfold visits
          split
          · rename_i d hnext
            rw [hnext] at hlater
            rw [ih hlater hsteps, List.map_cons]
          · rename_i hnext
            rw [hnext] at hlater
            cases hlater
            rfl

end Cursor

/-- Where a walk is between two steps: it arrives at a node that it has not
visited, or leaves one of which it has visited all that is at or below it, or it
has ended. -/
inductive Stage where
  | arrive (c : Cursor)
  | leave (c : Cursor)
  | ended

namespace Stage

/-- One step of a walk: to the first child, if there is one; from a node that is
left to its next sibling, or else to its parent, or else to the end. -/
def step : Stage → Stage
  | arrive c =>
    match c.firstChild? with
    | some d => arrive d
    | none => leave c
  | leave c =>
    match c.nextSibling? with
    | some d => arrive d
    | none =>
      match c.parent? with
      | some d => leave d
      | none => ended
  | ended => ended

def visited : Stage → List Cursor
  | arrive c => [c]
  | _ => []

def run : Nat → Stage → List Cursor × Stage
  | 0, s => ([], s)
  | steps + 1, s => (s.visited ++ (run steps s.step).1, (run steps s.step).2)

theorem run_append {a b : Nat} {s t u : Stage} {front rest : List Cursor}
    (hfront : run a s = (front, t)) (hrest : run b t = (rest, u)) :
    run (a + b) s = (front ++ rest, u) := by
  induction a generalizing s front with
  | zero =>
      obtain ⟨rfl, rfl⟩ := Prod.mk.inj hfront
      rw [Nat.zero_add, hrest, List.nil_append]
  | succ a ih =>
      rw [run] at hfront
      obtain ⟨rfl, rfl⟩ := Prod.mk.inj hfront
      rw [Nat.add_right_comm, run, ih rfl, List.append_assoc]

def upcoming : Stage → Option Cursor
  | arrive c => some c
  | leave c => Cursor.climb? c.frames
  | ended => none

theorem upcoming_step_arrive (c : Cursor) : (arrive c).step.upcoming = c.next? := by
  rw [step, Cursor.next?]
  cases c.firstChild? <;> rfl

theorem upcoming_step_leave (c : Cursor) : (leave c).step.upcoming = (leave c).upcoming := by
  obtain ⟨node, frames⟩ := c
  cases frames with
  | nil => rfl
  | cons frame up =>
      obtain ⟨parent, later⟩ := frame
      cases later <;> rfl

/-- Single moves that come to an end have visited the places of a walk. -/
theorem trail_of_run {steps : Nat} {s : Stage} {visits : List Cursor}
    (hrun : run steps s = (visits, ended)) : Cursor.Trail s.upcoming visits := by
  induction steps generalizing s visits with
  | zero =>
      obtain ⟨rfl, rfl⟩ := Prod.mk.inj hrun
      exact .ended
  | succ steps ih =>
      rw [run] at hrun
      obtain ⟨rfl, hend⟩ := Prod.mk.inj hrun
      have hlater : Cursor.Trail s.step.upcoming (run steps s.step).1 := ih (Prod.ext rfl hend)
      cases s with
      | arrive c =>
          rw [upcoming_step_arrive] at hlater
          exact .visit hlater
      | leave c =>
          rw [upcoming_step_leave] at hlater
          exact hlater
      | ended => exact hlater

/-- From its arrival at a node a walk comes to leave that node, and visits what
is at or below it, address by address. -/
def Tours (root n : Node) : Prop :=
  ∀ (c : Cursor) (p : List Nat), c.At root p → c.node = n →
    ∃ visits, run (2 * Node.sizeAll n.children + 1) (arrive c) = (visits, leave c) ∧
      List.Forall₂ (Cursor.At root) visits (n.addresses.map (p ++ ·))

/-- From the arrival at a child a walk comes to leave the parent, when it has
visited that child and the later ones. -/
theorem tour_children {root : Node} {c : Cursor} {p : List Nat} (hat : c.At root p)
    (htours : ∀ child ∈ c.node.children, Tours root child) {earlier later : List Node}
    {child : Node} (hchildren : c.node.children = earlier ++ child :: later) :
    ∃ visits,
      run (2 * Node.sizeAll (child :: later)) (arrive ⟨child, ⟨c.node, later⟩ :: c.frames⟩) =
        (visits, leave c) ∧
      List.Forall₂ (Cursor.At root) visits
        ((Node.addressesFrom earlier.length (child :: later)).map (p ++ ·)) := by
  -- the cursor holds the later siblings only, so the earlier ones are general
  induction later generalizing earlier child with
  | nil =>
      obtain ⟨visits, htour, hvisits⟩ :=
        htours child (by simp [hchildren]) _ _ (hat.child hchildren) rfl
      have hup : run 1 (leave ⟨child, ⟨c.node, []⟩ :: c.frames⟩) = ([], leave c) := rfl
      have hsteps : 2 * Node.sizeAll [child] = 2 * Node.sizeAll child.children + 1 + 1 := by
        rw [Node.sizeAll, Node.sizeAll, Node.size_eq]
        omega
      refine ⟨visits, ?_, ?_⟩
      · rw [hsteps, run_append htour hup, List.append_nil]
      · simpa [Node.addressesFrom] using hvisits
  | cons next later ih =>
      obtain ⟨visits, htour, hvisits⟩ :=
        htours child (by simp [hchildren]) _ _ (hat.child hchildren) rfl
      have hacross : run 1 (leave ⟨child, ⟨c.node, next :: later⟩ :: c.frames⟩) =
          ([], arrive ⟨next, ⟨c.node, later⟩ :: c.frames⟩) := rfl
      have hrest : c.node.children = (earlier ++ [child]) ++ next :: later := by simp [hchildren]
      obtain ⟨visits', htour', hvisits'⟩ := ih hrest
      have hsteps : 2 * Node.sizeAll (child :: next :: later) =
          2 * Node.sizeAll child.children + 1 + 1 + 2 * Node.sizeAll (next :: later) := by
        rw [Node.sizeAll, Node.size_eq]
        omega
      refine ⟨visits ++ visits', ?_, ?_⟩
      · rw [hsteps, run_append (run_append htour hacross) htour', List.append_nil]
      · have hfirst : List.Forall₂ (Cursor.At root) visits
            ((child.addresses.map (earlier.length :: ·)).map (p ++ ·)) := by
          simpa using hvisits
        have hlater : List.Forall₂ (Cursor.At root) visits'
            ((Node.addressesFrom (earlier.length + 1) (next :: later)).map (p ++ ·)) := by
          simpa using hvisits'
        rw [Node.addressesFrom, List.map_append]
        exact List.rel_append hfirst hlater

theorem tours (root n : Node) : Tours root n := by
  induction n using Node.induct with
  | hstep n ih =>
      rintro c p hat rfl
      rw [Node.addresses_eq, List.map_cons, List.append_nil]
      cases hchildren : c.node.children with
      | nil =>
          have hleaf : (arrive c).step = leave c := by simp [step, Cursor.firstChild?, hchildren]
          refine ⟨[c], ?_, .cons hat .nil⟩
          rw [Node.sizeAll, Nat.mul_zero, Nat.zero_add, run, run, hleaf]
          rfl
      | cons child later =>
          have hdown : run 1 (arrive c) = ([c], arrive ⟨child, ⟨c.node, later⟩ :: c.frames⟩) := by
            simp [run, step, visited, Cursor.firstChild?, hchildren]
          have hfirst : c.node.children = [] ++ child :: later := hchildren
          obtain ⟨visits, htour, hvisits⟩ := tour_children hat ih hfirst
          refine ⟨c :: visits, ?_, .cons hat hvisits⟩
          rw [Nat.add_comm, run_append hdown htour]
          rfl

end Stage

section Visits

variable {root : Node} {visits : List Cursor} {ps : List (List Nat)}

theorem Cursor.map_node_eq (hvisits : List.Forall₂ (Cursor.At root) visits ps) :
    (visits.map Cursor.node).map some = ps.map root.at? := by
  induction hvisits with
  | nil => rfl
  | cons hat _ ih => rw [List.map_cons, List.map_cons, List.map_cons, hat.at?_eq, ih]

theorem Cursor.exists_at_of_mem (hvisits : List.Forall₂ (Cursor.At root) visits ps) {c : Cursor}
    (hc : c ∈ visits) : ∃ p ∈ ps, c.At root p := by
  induction hvisits with
  | nil => exact absurd hc List.not_mem_nil
  | cons hat _ ih =>
      rcases List.mem_cons.mp hc with rfl | hrest
      · exact ⟨_, List.mem_cons_self, hat⟩
      · obtain ⟨p, hp, hat'⟩ := ih hrest
        exact ⟨p, List.mem_cons_of_mem _ hp, hat'⟩

theorem Cursor.nodup_visits (hvisits : List.Forall₂ (Cursor.At root) visits ps) (hps : ps.Nodup) :
    visits.Nodup := by
  induction hvisits with
  | nil => exact List.nodup_nil
  | cons hat hrest ih =>
      obtain ⟨hnew, hps⟩ := List.nodup_cons.mp hps
      refine List.nodup_cons.mpr ⟨fun hagain => ?_, ih hps⟩
      obtain ⟨q, hq, hat'⟩ := Cursor.exists_at_of_mem hrest hagain
      exact hnew (hat.unique hat' ▸ hq)

end Visits

/-- A walk ends, after two moves for each node, and no bound of at least one step
for each node cuts it off. It stands at no place twice and visits one after the
other the nodes at the addresses of the tree, which are all the addresses that
lead to a node, in strictly increasing order. What it visits is what the recursive
visit of the tree lists. -/
theorem walk_visits_each_node_once (root : Node) :
    ∃ visits : List Cursor,
      Stage.run (2 * root.size) (.arrive (.ofRoot root)) = (visits, .ended) ∧
      Cursor.Trail (some (.ofRoot root)) visits ∧
      (∀ steps ≥ root.size, (Cursor.ofRoot root).visits steps = walk root) ∧
      visits.map Cursor.node = walk root ∧ walk root = root.preorder ∧
      visits.Nodup ∧
      List.Forall₂ (fun c p => c.At root p ∧ root.at? p = some c.node) visits root.addresses ∧
      root.addresses.Pairwise (· < ·) ∧
      ∀ p, p ∈ root.addresses ↔ (root.at? p).isSome := by
  obtain ⟨visits, htour, hvisits⟩ := Stage.tours root root (.ofRoot root) [] .root rfl
  have hend : Stage.run 1 (.leave (.ofRoot root)) = ([], .ended) := rfl
  have hmoves : 2 * root.size = 2 * Node.sizeAll root.children + 1 + 1 := by
    rw [Node.size_eq]
    omega
  have hrun : Stage.run (2 * root.size) (.arrive (.ofRoot root)) = (visits, .ended) := by
    rw [hmoves, Stage.run_append htour hend, List.append_nil]
  have htrail : Cursor.Trail (some (.ofRoot root)) visits := Stage.trail_of_run hrun
  have hplaces : List.Forall₂ (Cursor.At root) visits root.addresses := by
    simpa using hvisits
  have hnodes : visits.map Cursor.node = root.preorder := by
    have hsome := (Cursor.map_node_eq hplaces).trans root.map_at?_addresses
    exact List.map_injective_iff.mpr (fun _ _ hsame => Option.some.inj hsame) hsome
  have hlength : visits.length = root.size := by
    rw [← root.length_preorder, ← hnodes, List.length_map]
  have hall : ∀ steps ≥ root.size, (Cursor.ofRoot root).visits steps = visits.map Cursor.node :=
    fun steps hsteps => htrail.visits_eq (Nat.le_trans (Nat.le_of_eq hlength) hsteps)
  have hwalk : walk root = visits.map Cursor.node := hall root.size (Nat.le_refl _)
  have hordered := root.addresses_pairwise
  have hdistinct : root.addresses.Nodup := by
    apply hordered.imp
    intro p q hlt hsame
    exact List.lt_irrefl q (hsame ▸ hlt)
  rw [hwalk]
  exact ⟨visits, hrun, htrail, hall, rfl, hnodes, Cursor.nodup_visits hplaces hdistinct,
    hplaces.imp fun _ _ hat => ⟨hat, hat.at?_eq⟩, hordered, root.mem_addresses_iff⟩

end WebAudit.Script
