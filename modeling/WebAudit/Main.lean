import WebAudit.Command.Run
import WebAudit.Report.Timestamp

/-!
The program. It copies the files that a command may look at into a tree, runs
the command on it, and then prints and writes what the run gives.
-/

namespace WebAudit.Program

/-- The names of a path, as far as it only goes down. -/
def names (path : Path) : List String :=
  path.components.filterMap fun c =>
    match c with
    | .name s => some s
    | _ => none

def pathOf (names : List String) : String := "/" ++ Text.join "/" names

/-- The entry at a path with all that is below it. What lies elsewhere is a
link. -/
partial def load (path : String) : IO Entry := do
  let real ← IO.FS.realPath path
  if real.toString != path then return .link real.toString
  else if ← real.isDir then
    let mut entries : List (String × Entry) := []
    for child in ← real.readDir do
      try
        entries := (child.fileName, ← load (path ++ "/" ++ child.fileName)) :: entries
      catch _ => pure ()
    return .directory entries
  else return .file (.ofBytes (← IO.FS.readBinFile path).toList)

/-- A tree with the entry at some names, if there is one. Of a directory only
the fact that it is there is taken. -/
def place (files : Entry) (names : List String) : IO Entry := do
  if (files.at? names).isSome then return files
  try
    let real ← IO.FS.realPath (pathOf names)
    if ← real.isDir then return Entry.put .empty names files
    else
      let bytes ← IO.FS.readBinFile (pathOf names)
      return Entry.put (.file (.ofBytes bytes.toList)) names files
  catch _ => return files

/-- A tree with all that stands along a path. -/
def placeAlong (files : Entry) (path : Path) : IO Entry :=
  ((List.range ((names path).length + 1)).map fun n => (names path).take n).foldlM place files

/-- A tree with a path and all that is below it. -/
def placeBelow (files : Entry) (path : Path) : IO Entry := do
  let files ← placeAlong files path
  try
    let real ← IO.FS.realPath path.text
    let loaded ← load real.toString
    let files := Entry.put loaded (names ⟨real.toString⟩) files
    if real.toString == pathOf (names path) then return files
    else return Entry.put (.link real.toString) (names path) files
  catch _ => return files

def environment : IO Environment := do
  let bytes ← IO.FS.readBinFile "/proc/self/environ"
  let text := (String.fromUTF8? bytes).getD ""
  return (Text.splitOn '\x00' text.toList).filterMap fun line =>
    match Text.splitAt? ['='] line with
    | some (name, value) => some (String.ofList name, String.ofList value)
    | none => none

def now : IO Timestamp := do
  let data ← (← IO.FS.realPath "/proc/self").metadata
  return ⟨data.modified.sec.toNat, data.modified.nsec.toNat⟩

/-- The files of a command that are looked at by name, and the directories that
are looked through. -/
def footprint (m : Machine) : Request → List Path × List Path
  | .run i =>
    let shared := i.logDirectory.toList ++ m.userFile?.toList
    let (single, deep) : List Path × List Path :=
      match i.command with
      | .scan r => (r.output.toList ++ r.config.toList, [r.path])
      | .initialise workspace => ([Machine.workspaceFile workspace], [])
      | .show workspace config => (Machine.workspaceFile workspace :: config.toList, [])
    ((shared ++ single).map m.locate, deep.map m.locate)
  | _ => ([], [])

def perform : Effect → IO Unit
  | .makeDirectories path => IO.FS.createDirAll path.text
  | .write path text => IO.FS.writeFile path.text text

end WebAudit.Program

open WebAudit in
def main (args : List String) : IO UInt32 := do
  let start : Machine :=
    { files := .empty
      directory := ⟨(← IO.currentDir).toString⟩
      environment := ← Program.environment
      now := (← Program.now).text }
  let (single, deep) := Program.footprint start (Arguments.parse args)
  let files ← single.foldlM Program.placeAlong start.files
  let files ← deep.foldlM Program.placeBelow files
  let outcome := Machine.run { start with files := files } args
  for effect in outcome.effects do
    Program.perform effect
  IO.print outcome.stdout
  IO.eprint outcome.stderr
  return outcome.code.toUInt32
