import WebAudit.Ignore.Glob

/-!
Lines of ignore files. A line is a glob with marks around it: it may take back
what earlier lines ignore, be bound to the root, or be meant for directories
only.
-/

namespace WebAudit

structure IgnoreRule where
  glob : Glob
  /-- The rule takes back what earlier ones ignore. -/
  negated : Bool
  /-- The rule is for directories only. -/
  directoriesOnly : Bool
  deriving Repr, Inhabited

namespace IgnoreRule

structure Marked where
  text : List Char
  negated : Bool := false
  anchored : Bool := false
  directoriesOnly : Bool := false

/-- Takes the marks off the front of a line. An escaped mark is no mark. -/
def takeLeading (line : List Char) : Marked :=
  match line with
  | '\\' :: '!' :: rest => { text := '!' :: rest }
  | '\\' :: '#' :: rest => { text := '#' :: rest }
  | _ =>
    let (negated, rest) := match line with
      | '!' :: rest => (true, rest)
      | rest => (false, rest)
    match rest with
    | '/' :: rest => { text := rest, negated := negated, anchored := true }
    | rest => { text := rest, negated := negated }

/-- Takes the mark for directories off the end, with a backslash before it. -/
def takeTrailing (m : Marked) : Marked :=
  match m.text.reverse with
  | '/' :: '\\' :: before => { m with text := before.reverse, directoriesOnly := true }
  | '/' :: before => { m with text := before.reverse, directoriesOnly := true }
  | _ => m

def hasDirectories (text : List Char) : Bool :=
  text == "**".toList || Text.startsWith "**/".toList text

/-- The glob text of a line. Without a slash it may match below any directory;
two stars at the end match what is inside a directory and not the directory. -/
def globText (m : Marked) : List Char :=
  let text :=
    if !m.anchored && !m.text.contains '/' && !hasDirectories m.text then
      "**/".toList ++ m.text
    else m.text
  if Text.endsWith "/**".toList text then text ++ "/*".toList else text

/-- A line without the blanks at its end; a last blank that is escaped
stays, and so do those before it. -/
def trimLine (line : List Char) : List Char :=
  if Text.endsWith "\\ ".toList line then line else Text.trimEnd line

def ofLine (line : List Char) : Except GlobError (Option IgnoreRule) :=
  if line.head? == some '#' then .ok none
  else
    let line := trimLine line
    if line.isEmpty then .ok none
    else
      let m := takeTrailing (takeLeading line)
      match Glob.parse true (globText m) with
      | .ok glob => .ok (some ⟨glob, m.negated, m.directoriesOnly⟩)
      | .error e => .error e

def accepts (r : IgnoreRule) (path : List UInt8) (isDirectory : Bool) : Bool :=
  (isDirectory || !r.directoriesOnly) && r.glob.accepts path

end IgnoreRule

/-- The last of some rules that matches a path below the root. -/
def decidingRule? (rules : List IgnoreRule) (path : List UInt8) (isDirectory : Bool) :
    Option IgnoreRule :=
  rules.reverse.find? fun r => r.accepts path isDirectory

def ignores (rules : List IgnoreRule) (path : List UInt8) (isDirectory : Bool) : Bool :=
  (decidingRule? rules path isDirectory).any fun r => !r.negated

end WebAudit
