import WebAudit.Script.Tree

/-!
Walking a tree with a cursor, which moves to the first child, to the next
sibling or to the parent and never leaves the tree that it was made for.
-/

namespace WebAudit.Script

/-- An ancestor of the cursor, with the siblings that follow the child on the
way to the cursor. -/
structure Frame where
  parent : Node
  later : List Node

structure Cursor where
  node : Node
  frames : List Frame

namespace Cursor

def ofRoot (root : Node) : Cursor := ⟨root, []⟩

def firstChild? (c : Cursor) : Option Cursor :=
  match c.node.children with
  | [] => none
  | child :: later => some ⟨child, ⟨c.node, later⟩ :: c.frames⟩

def nextSibling? (c : Cursor) : Option Cursor :=
  match c.frames with
  | ⟨parent, sibling :: later⟩ :: up => some ⟨sibling, ⟨parent, later⟩ :: up⟩
  | _ => none

def parent? (c : Cursor) : Option Cursor :=
  match c.frames with
  | frame :: up => some ⟨frame.parent, up⟩
  | [] => none

/-- The next sibling of the nearest node that has one, on the way up through the
given frames. -/
def climb? : List Frame → Option Cursor
  | [] => none
  | ⟨parent, sibling :: later⟩ :: up => some ⟨sibling, ⟨parent, later⟩ :: up⟩
  | ⟨_, []⟩ :: up => climb? up

/-- The next place of a walk: the first child, or else the next sibling of the
nearest node that has one. -/
def next? (c : Cursor) : Option Cursor :=
  match c.firstChild? with
  | some d => some d
  | none => climb? c.frames

/-- The nodes that a walk visits within a number of steps. -/
def visits : Nat → Cursor → List Node
  | 0, _ => []
  | steps + 1, c =>
    match c.next? with
    | some d => c.node :: visits steps d
    | none => [c.node]

end Cursor

def walk (root : Node) : List Node := (Cursor.ofRoot root).visits root.size

end WebAudit.Script
