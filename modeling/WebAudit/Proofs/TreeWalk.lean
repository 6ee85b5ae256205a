import WebAudit.Script.Walk

/-!
A walk visits every node of a tree once, each before its children. What a cursor
still has to visit is the tree at its node and then the trees to the right of
the way up to the root. A move of the walk takes the first node off this list,
so a walk of as many steps as there are nodes visits them all.
-/

namespace WebAudit.Script

namespace Node

mutual

theorem length_preorder : ∀ n : Node, n.preorder.length = n.size
  | .mk _ _ _ _ children => by rw [preorder, size, List.length_cons, length_preorderAll children]

theorem length_preorderAll : ∀ ns : List Node, (preorderAll ns).length = sizeAll ns
  | [] => rfl
  | n :: rest => by
      rw [preorderAll, sizeAll, List.length_append, length_preorder n, length_preorderAll rest]

end

end Node

namespace Cursor

/-- The nodes to the right of the way up through some frames. -/
def above (frames : List Frame) : List Node := frames.flatMap fun f => Node.preorderAll f.later

/-- The nodes from a cursor on, in the order of a walk. -/
def pending (c : Cursor) : List Node := c.node.preorder ++ above c.frames

theorem above_of_climb? {frames : List Frame} {d : Cursor} (hclimb : climb? frames = some d) :
    above frames = d.pending := by
  induction frames with
  | nil => cases hclimb
  | cons frame up ih =>
      obtain ⟨parent, later⟩ := frame
      cases later with
      | nil => exact ih hclimb
      | cons sibling later =>
          obtain rfl := Option.some.inj hclimb
          simp [above, pending, Node.preorderAll]

theorem above_eq_nil {frames : List Frame} (hclimb : climb? frames = none) : above frames = [] := by
  induction frames with
  | nil => rfl
  | cons frame up ih =>
      obtain ⟨parent, later⟩ := frame
      cases later with
      | nil => exact ih hclimb
      | cons sibling later => cases hclimb

theorem pending_of_next? {c d : Cursor} (hnext : c.next? = some d) :
    c.pending = c.node :: d.pending := by
  obtain ⟨⟨kind, role, start, stop, children⟩, frames⟩ := c
  cases children with
  | nil => rw [← above_of_climb? hnext]; rfl
  | cons child later =>
      obtain rfl := Option.some.inj hnext
      simp [pending, above, Node.preorder, Node.preorderAll]

theorem pending_eq_singleton {c : Cursor} (hnext : c.next? = none) : c.pending = [c.node] := by
  obtain ⟨⟨kind, role, start, stop, children⟩, frames⟩ := c
  cases children with
  | nil => rw [pending, above_eq_nil hnext]; rfl
  | cons child later => cases hnext

theorem visits_eq_take (steps : Nat) (c : Cursor) : c.visits steps = c.pending.take steps := by
  induction steps generalizing c with
  | zero => rfl
  | succ steps ih =>
      unfold visits
      split
      · rename_i d hnext
        rw [pending_of_next? hnext, ih, List.take_succ_cons]
      · rename_i hnext
        rw [pending_eq_singleton hnext, List.take_succ_cons, List.take_nil]

end Cursor

theorem walk_eq_preorder (root : Node) : walk root = root.preorder := by
  have hpending : (Cursor.ofRoot root).pending = root.preorder := List.append_nil _
  rw [walk, Cursor.visits_eq_take, hpending, ← Node.length_preorder, List.take_length]

end WebAudit.Script
