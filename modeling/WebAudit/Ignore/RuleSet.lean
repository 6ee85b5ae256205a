import WebAudit.Ignore.Rule
import WebAudit.Project.Tree

/-!
The ignore rules of a scan: those that always hold, then the lines of the
project's own ignore file, then the patterns of the settings. The last rule
that matches a path decides.
-/

namespace WebAudit

/-- Patterns that always hold: what tools make, lock files, logs and files that
are no text. -/
def defaultIgnorePatterns : List String :=
  [".git/", ".hg/", ".svn/",
    "node_modules/", "bower_components/", "dist/", "build/", "out/", ".next/", ".nuxt/",
    ".output/", ".svelte-kit/", ".turbo/", ".vercel/", ".cache/", "coverage/", "target/",
    "__pycache__/", ".venv/", "venv/",
    "package-lock.json", "npm-shrinkwrap.json", "yarn.lock", "pnpm-lock.yaml", "bun.lockb",
    "Cargo.lock", "poetry.lock",
    "*.log", "*.tmp", "*.temp", "*.swp", "*.map", "*.min.js", "*.min.css", ".DS_Store",
    "*.png", "*.jpg", "*.jpeg", "*.gif", "*.ico", "*.webp", "*.pdf", "*.zip", "*.gz", "*.tar",
    "*.woff", "*.woff2", "*.ttf", "*.eot", "*.mp3", "*.mp4"]

/-- Why a pattern of the settings is refused: its glob is not strictly well
formed, or its line is not. -/
inductive PatternFault where
  | strict (cause : GlobError)
  | line (cause : GlobError)
  deriving DecidableEq, Repr, Inhabited

structure InvalidPattern where
  pattern : String
  fault : PatternFault
  deriving DecidableEq, Repr, Inhabited

def InvalidPattern.reason (e : InvalidPattern) : String :=
  match e.fault with
  | .strict cause => cause.message
  | .line cause =>
    "error parsing glob '" ++ String.ofList (IgnoreRule.trimLine e.pattern.toList) ++ "': " ++
      cause.message

def InvalidPattern.message (e : InvalidPattern) : String :=
  "invalid ignore pattern '" ++ e.pattern ++ "': " ++ e.reason

structure RuleSet where
  root : Path
  rules : List IgnoreRule
  /-- The number of patterns that the rules were made from. -/
  size : Nat
  deriving Repr, Inhabited

namespace RuleSet

/-- The rules of lines that are well formed, and their number. Lines without a
rule count too. -/
def ofLines (lines : List (List Char)) : List IgnoreRule × Nat :=
  let read := lines.filterMap fun line => (IgnoreRule.ofLine line).toOption
  (read.filterMap id, read.length)

/-- The lines of a project's ignore file that are no comments and not blank. -/
def projectLines (text : String) : List (List Char) :=
  ((Text.lines text.toList).map Text.trimEnd).filter fun line =>
    !(Text.trim line).isEmpty && (Text.trimStart line).head? != some '#'

/-- The glob of a pattern that is checked strictly: without the mark that takes
back and without slashes at either end. -/
def strictText (pattern : String) : List Char :=
  let trimmed := Text.trim pattern.toList
  let body := match trimmed with
    | '!' :: rest => rest
    | _ => trimmed
  let isSlash (c : Char) : Bool := c == '/'
  ((body.dropWhile isSlash).reverse.dropWhile isSlash).reverse

def configured (pattern : String) : Except InvalidPattern (Option IgnoreRule) :=
  match Glob.parse false (strictText pattern) with
  | .error e => .error ⟨pattern, .strict e⟩
  | .ok _ =>
    match IgnoreRule.ofLine pattern.toList with
    | .error e => .error ⟨pattern, .line e⟩
    | .ok rule => .ok rule

/-- The rules of patterns of the settings; the first one that is refused
decides. -/
def configuredAll : List String → Except InvalidPattern (List IgnoreRule)
  | [] => .ok []
  | pattern :: rest => do
    let rule ← configured pattern
    let more ← configuredAll rest
    return rule.toList ++ more

/-- The rules below a root, given the text of the project's ignore file if there
is one, and the patterns of the settings. -/
def build (root : Path) (projectText : Option String) (patterns : List String) :
    Except InvalidPattern RuleSet := do
  let (always, alwaysCount) := ofLines (defaultIgnorePatterns.map String.toList)
  let (own, ownCount) := ofLines ((projectText.map projectLines).getD [])
  let extra ← configuredAll patterns
  return ⟨root, always ++ own ++ extra, alwaysCount + ownCount + patterns.length⟩

def isEmpty (s : RuleSet) : Bool := s.size == 0

/-- A path without a leading dot component. -/
def dropDot (cs : List Char) : List Char := (Text.after? "./".toList cs).getD cs

/-- The part of a path below the root of the rules. A path of one component is
taken as it is. -/
def below (s : RuleSet) (path : Path) : List Char :=
  let root := dropDot s.root.text.toList
  let cs := dropDot path.text.toList
  if root == ['.'] || !cs.contains '/' then cs
  else
    match Text.after? root cs with
    | some ('/' :: rest) => rest
    | some rest => rest
    | none => cs

/-- Whether the rules ignore a path. The root itself is never ignored. -/
def isIgnored (s : RuleSet) (path : Path) (isDirectory : Bool) : Bool :=
  !path.same s.root && ignores s.rules (Text.bytes (s.below path)) isDirectory

end RuleSet

end WebAudit
