import WebAudit.Dependency.Technologies
import WebAudit.Script.Call

/-!
What a check on one file may look at, and the mark that silences checks on a
line.
-/

namespace WebAudit

structure FileContext where
  path : Path
  content : String
  technologies : Technologies := {}
  /-- The directory that the scan started from. -/
  root : Option Path := none

namespace FileContext

/-- The path below the root; the whole path if it is not below it. -/
def relativePath (ctx : FileContext) : Path :=
  (ctx.root.bind fun root => Path.relativeTo? root ctx.path).getD ctx.path

def fileName (ctx : FileContext) : String := ctx.path.fileName?.getD ""

def extension? (ctx : FileContext) : Option String :=
  ctx.path.extension?.map fun e => String.ofList (Text.lowerAscii e.toList)

def language? (ctx : FileContext) : Option Script.Language := Script.Language.ofPath? ctx.path

def isScript (ctx : FileContext) : Bool := ctx.language?.isSome

/-- The script in the file, if the file is one and all of it can be parsed. -/
def script? (ctx : FileContext) : Option Script.Source :=
  (Script.Source.ofFile ctx.path ctx.content).toOption

def lines (ctx : FileContext) : List (List Char) := Text.lines ctx.content.toList

end FileContext

/-- Whether a line bears the mark that silences checks. -/
def isSuppressed (line : List Char) : Bool := Text.occursIn "shipguard:ignore".toList line

def isSuppressedAt (lines : List (List Char)) (line : Nat) : Bool :=
  (lines[line - 1]?).any isSuppressed

/-- The line, counted from one, that holds the character after the given
ones. -/
def lineAfter (before : List Char) : Nat := before.count '\n' + 1

/-- The first item of each key, in order; `seen` holds the keys before. -/
def firstOfEachFrom {α β : Type} [BEq β] (key : α → β) (seen : List β) : List α → List α
  | [] => []
  | a :: rest =>
    if seen.contains (key a) then firstOfEachFrom key seen rest
    else a :: firstOfEachFrom key (key a :: seen) rest

def firstOfEach {α β : Type} [BEq β] (key : α → β) (items : List α) : List α :=
  firstOfEachFrom key [] items

end WebAudit
