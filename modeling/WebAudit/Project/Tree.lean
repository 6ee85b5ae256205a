import WebAudit.Project.Path

/-!
Trees of files, directories and symbolic links, and what a path leads to in
one. The directory that paths start from is the root of the tree; nothing lies
above it.
-/

namespace WebAudit

inductive Content where
  | text (s : String)
  | binary (bytes : List UInt8)
  deriving DecidableEq, Repr, Inhabited

namespace Content

def ofBytes (bytes : List UInt8) : Content :=
  match String.fromUTF8? (ByteArray.mk bytes.toArray) with
  | some s => .text s
  | none => .binary bytes

def size : Content → Nat
  | .text s => Text.byteLength s.toList
  | .binary bytes => bytes.length

end Content

inductive Entry where
  | file (content : Content)
  | link (target : String)
  | directory (entries : List (String × Entry))
  deriving Inhabited

inductive FileFault where
  | notFound
  | notDirectory
  | isDirectory
  | tooManyLinks
  | notText
  | exists
  deriving DecidableEq, Repr, Inhabited

def FileFault.message : FileFault → String
  | .notFound => "No such file or directory (os error 2)"
  | .notDirectory => "Not a directory (os error 20)"
  | .isDirectory => "Is a directory (os error 21)"
  | .tooManyLinks => "Too many levels of symbolic links (os error 40)"
  | .notText => "stream did not contain valid UTF-8"
  | .exists => "File exists (os error 17)"

namespace Entry

def empty : Entry := .directory []

def child? (name : String) : Entry → Option Entry
  | .directory entries => entries.lookup name
  | _ => none

def isDirectory : Entry → Bool
  | .directory _ => true
  | _ => false

/-- The entry at the end of a row of names, without following links. -/
def at? (root : Entry) : List String → Option Entry
  | [] => some root
  | name :: rest => (root.child? name).bind fun e => e.at? rest

/-- How many links are followed on the way along a path. -/
def maxLinks : Nat := 40

/-- The names that lead to where a path leads, when links are followed. `here`
holds the names of the directory that has been reached, the last one first, and
`links` is the number of links that may still be followed. A missing last entry
is a fault. -/
def resolveFrom (root : Entry) :
    Nat → Nat → List String → List Component → Except FileFault (List String)
  | 0, _, _, _ => .error .tooManyLinks
  | _ + 1, _, here, [] => .ok here.reverse
  | fuel + 1, links, here, c :: rest =>
    match root.at? here.reverse with
    | some (.directory _) =>
      match c with
      | .root => resolveFrom root fuel links [] rest
      | .here => resolveFrom root fuel links here rest
      | .up => resolveFrom root fuel links here.tail rest
      | .name n =>
        match root.at? (n :: here).reverse with
        | none => .error .notFound
        | some (.link target) =>
          match links with
          | 0 => .error .tooManyLinks
          | links + 1 =>
            resolveFrom root fuel links here ((Path.mk target).components ++ rest)
        | some _ => resolveFrom root fuel links (n :: here) rest
    | _ => .error .notDirectory

/-- An upper bound of the steps along a path: each link that is followed may add
the components of its target. -/
def stepBound (root : Entry) (components : List Component) : Nat :=
  components.length + (maxLinks + 1) * (longestTarget root + 2) + 2
where
  /-- The length of the longest target of a link. -/
  longestTarget : Entry → Nat
    | .file _ => 0
    | .link target => target.length
    | .directory entries => longestIn entries
  /-- The length of the longest target of a link in one of some entries. -/
  longestIn : List (String × Entry) → Nat
    | [] => 0
    | (_, e) :: rest => max (longestTarget e) (longestIn rest)

/-- The names that lead to where a path leads, when links are followed. -/
def resolve (root : Entry) (path : Path) : Except FileFault (List String) :=
  let components := path.components
  resolveFrom root (stepBound root components) maxLinks [] components

/-- The entry that a path leads to, when links are followed. A path that ends
in a slash has to lead to a directory. -/
def lookup (root : Entry) (path : Path) : Except FileFault Entry :=
  if path.text.isEmpty then .error .notFound
  else
    match resolve root path with
    | .error e => .error e
    | .ok names =>
      match root.at? names with
      | some e =>
        if path.text.endsWith "/" && !e.isDirectory then .error .notDirectory else .ok e
      | none => .error .notFound

def hasDirectory (root : Entry) (path : Path) : Bool :=
  match root.lookup path with
  | .ok e => e.isDirectory
  | .error _ => false

def hasFile (root : Entry) (path : Path) : Bool :=
  match root.lookup path with
  | .ok (.file _) => true
  | _ => false

def hasAny (root : Entry) (path : Path) : Bool := (root.lookup path).toOption.isSome

def content (root : Entry) (path : Path) : Except FileFault Content :=
  match root.lookup path with
  | .ok (.file c) => .ok c
  | .ok _ => .error .isDirectory
  | .error e => .error e

def read (root : Entry) (path : Path) : Except FileFault String :=
  match root.content path with
  | .ok (.text s) => .ok s
  | .ok (.binary _) => .error .notText
  | .error e => .error e

def read? (root : Entry) (path : Path) : Option String := (root.read path).toOption

/-- Entries with the entry of a name put in or replaced; new ones come last. -/
def putIn (name : String) (entry : Entry) : List (String × Entry) → List (String × Entry)
  | [] => [(name, entry)]
  | (n, e) :: rest => if n == name then (name, entry) :: rest else (n, e) :: putIn name entry rest

/-- A tree with an entry at the end of a row of names. Missing directories on
the way are made; what is no directory is replaced. -/
def put (entry : Entry) : List String → Entry → Entry
  | [], _ => entry
  | name :: rest, .directory entries =>
    .directory (putIn name (put entry rest ((entries.lookup name).getD empty)) entries)
  | name :: rest, _ => .directory [(name, put entry rest empty)]

/-- Writes a text to a path. The directory has to be there. -/
def write (root : Entry) (path : Path) (text : String) : Except FileFault Entry :=
  match root.lookup path with
  | .ok (.file _) =>
    (resolve root path).map fun names => put (.file (.text text)) names root
  | .ok _ => .error .isDirectory
  | .error .notFound =>
    match path.fileName?, path.parent? with
    | some name, some parent =>
      if path.text.endsWith "/" then .error .isDirectory
      else
        match resolve root parent with
        | .ok names =>
          match root.at? names with
          | some (.directory _) => .ok (put (.file (.text text)) (names ++ [name]) root)
          | _ => .error .notDirectory
        | .error e => .error e
    | _, _ => .error .notFound
  | .error e => .error e

/-- Makes the directories along components that are missing, from a directory
on. -/
def makeFrom : Entry → List String → List Component → Except FileFault Entry
  | tree, _, [] => .ok tree
  | tree, here, c :: rest =>
    match c with
    | .root => makeFrom tree [] rest
    | .here => makeFrom tree here rest
    | .up => makeFrom tree here.dropLast rest
    | .name n =>
      match resolve tree ⟨Text.join "/" (here ++ [n])⟩ with
      | .ok names =>
        match tree.at? names with
        | some (.directory _) => makeFrom tree names rest
        | _ => .error (if rest.isEmpty then .exists else .notDirectory)
      | .error .notFound =>
        match tree.at? (here ++ [n]) with
        | none => makeFrom (put empty (here ++ [n]) tree) (here ++ [n]) rest
        | some _ => .error (if rest.isEmpty then .exists else .notFound)
      | .error e => .error e

/-- Makes the directories along a path that are missing. -/
def makeDirectories (root : Entry) (path : Path) : Except FileFault Entry :=
  makeFrom root [] path.components

end Entry

end WebAudit
