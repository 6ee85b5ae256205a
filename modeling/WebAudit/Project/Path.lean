import WebAudit.Text.Basic

/-!
Paths of a project tree. A path is kept as it was written; its components are
read off the text, so repeated slashes and inner dots do not tell two paths
apart when components are compared.

Every path is a text of Unicode characters. File names of other bytes are not
modelled.
-/

namespace WebAudit

structure Path where
  text : String
  deriving DecidableEq, Repr, Inhabited

/-- A component of a path. The constructors stand in their order of
comparison. -/
inductive Component where
  | root
  | here
  | up
  | name (s : String)
  deriving DecidableEq, Repr, Inhabited

namespace Component

/-- The order of components: the kinds first, then names by code points. -/
def order : Component → Component → Ordering
  | .root, .root => .eq
  | .root, _ => .lt
  | _, .root => .gt
  | .here, .here => .eq
  | .here, _ => .lt
  | _, .here => .gt
  | .up, .up => .eq
  | .up, _ => .lt
  | _, .up => .gt
  | .name a, .name b => compare a b

/-- The component that a piece between slashes stands for; empty pieces and
single dots stand for none. -/
def ofPiece? (piece : List Char) : Option Component :=
  if piece.isEmpty || piece == ['.'] then none
  else if piece == ['.', '.'] then some .up
  else some (.name (String.ofList piece))

def orderList : List Component → List Component → Ordering
  | [], [] => .eq
  | [], _ :: _ => .lt
  | _ :: _, [] => .gt
  | a :: as, b :: bs =>
    match order a b with
    | .eq => orderList as bs
    | o => o

end Component

namespace Path

def pieces (p : Path) : List (List Char) := Text.splitOn '/' p.text.toList

/-- The component at the front of a path, which may be the root or a dot. -/
def leading? (p : Path) : Option Component :=
  match p.pieces with
  | [] => none
  | first :: rest =>
    if first.isEmpty then if rest.isEmpty then none else some .root
    else if first == ['.'] then some .here
    else Component.ofPiece? first

def components (p : Path) : List Component :=
  p.leading?.toList ++ p.pieces.tail.filterMap Component.ofPiece?

def order (a b : Path) : Ordering := Component.orderList a.components b.components

def same (a b : Path) : Bool := a.components == b.components

def isAbsolute (p : Path) : Bool := p.leading? == some .root

def fileName? (p : Path) : Option String :=
  match p.components.getLast? with
  | some (.name s) => some s
  | _ => none

/-- A file name cut at its last dot. A name whose only dot comes first is all
stem. -/
def splitName (name : String) : List Char × Option (List Char) :=
  let cs := name.toList
  let tail := Text.afterLast '.' cs
  let stem := cs.take (cs.length - tail.length - 1)
  if tail.length == cs.length || stem.isEmpty then (cs, none) else (stem, some tail)

def extension? (p : Path) : Option String :=
  p.fileName?.bind fun name => (splitName name).2.map String.ofList

def fileStem? (p : Path) : Option String :=
  p.fileName?.map fun name => String.ofList (splitName name).1

/-- Drops from a reversed list of pieces those that stand for no component; the
first piece of the path is kept. -/
def trimPieces : List (List Char) → List (List Char)
  | [] => []
  | [first] => [first]
  | piece :: rest =>
    if (Component.ofPiece? piece).isNone then trimPieces rest else piece :: rest

def ofPieces (pieces : List (List Char)) : Path :=
  match pieces with
  | [[]] => ⟨""⟩
  | _ => ⟨Text.join "/" (pieces.map String.ofList)⟩

/-- The path without its last component; none for the root and the empty
path. -/
def parent? (p : Path) : Option Path :=
  match trimPieces p.pieces.reverse with
  | [] => none
  | [first] => if first.isEmpty then none else some ⟨""⟩
  | _ :: rest =>
    match (trimPieces rest).reverse with
    | [[]] => some ⟨"/"⟩
    | pieces => some (ofPieces pieces)

/-- Drops pieces that stand for no component from the front. -/
def dropEmpty (pieces : List (List Char)) : List (List Char) :=
  pieces.dropWhile fun piece => (Component.ofPiece? piece).isNone

/-- Drops a number of components from pieces behind the first one. -/
def dropPieces : Nat → List (List Char) → List (List Char)
  | 0, pieces => dropEmpty pieces
  | n + 1, pieces => dropPieces n (dropEmpty pieces).tail

/-- The path relative to a base whose components it starts with. A base without
components leaves the root a root. -/
def relativeTo? (base p : Path) : Option Path :=
  let count := base.components.length
  if base.components == p.components.take count then
    let front := if p.leading?.isSome then 1 else 0
    let rest :=
      if count == 0 then p.pieces
      else dropPieces (count - front) (p.pieces.drop front)
    let kept := (trimPieces rest.reverse).reverse
    some (if kept == [[]] && p.isAbsolute then ⟨"/"⟩ else ofPieces kept)
  else none

/-- A path below another one. An absolute path stands for itself. -/
def join (p : Path) (below : String) : Path :=
  if below.startsWith "/" then ⟨below⟩
  else if p.text.isEmpty || p.text.endsWith "/" then ⟨p.text ++ below⟩
  else ⟨p.text ++ "/" ++ below⟩

end Path

end WebAudit
