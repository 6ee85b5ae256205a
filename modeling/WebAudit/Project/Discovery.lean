import WebAudit.Ignore.RuleSet

/-!
The files of a project that a scan looks at: regular files that no rule
ignores, and of a script in two forms the typed one.
-/

namespace WebAudit

def typedExtensions : List String := ["ts", "tsx", "mts", "cts"]

def plainExtensions : List String := ["js", "jsx", "mjs", "cjs"]

def Path.hasExtension (path : Path) (extensions : List String) : Bool :=
  path.extension?.any extensions.contains

def Path.stemKey? (path : Path) : Option (List Component × String) :=
  match path.parent?, path.fileStem? with
  | some parent, some stem => some (parent.components, stem)
  | _, _ => none

/-- Files without those plain scripts for which a typed one with the same stem
stands in the same directory. -/
def preferTyped (files : List Path) : List Path :=
  let typed := (files.filter fun p => p.hasExtension typedExtensions).filterMap Path.stemKey?
  files.filter fun p =>
    !p.hasExtension plainExtensions || !(p.stemKey?.any typed.contains)

namespace Project

mutual

/-- The regular files at or below an entry that no rule ignores. Ignored
directories are not entered, and links are not followed. -/
def filesAt (rules : RuleSet) (path : Path) : Entry → List Path
  | .file _ => if rules.isIgnored path false then [] else [path]
  | .link _ => []
  | .directory entries => if rules.isIgnored path true then [] else filesIn rules path entries

def filesIn (rules : RuleSet) (directory : Path) : List (String × Entry) → List Path
  | [] => []
  | (name, entry) :: rest =>
    filesAt rules (directory.join name) entry ++ filesIn rules directory rest

end

def pathLe (a b : Path) : Bool := Path.order a b != .gt

/-- The files below the root of the rules that a scan looks at, in the order of
their components. -/
def discover (tree : Entry) (rules : RuleSet) : List Path :=
  match tree.lookup rules.root with
  | .ok (.directory entries) =>
    (preferTyped (filesIn rules rules.root entries)).mergeSort pathLe
  | .ok (.file _) => [rules.root]
  | _ => []

end Project

end WebAudit
