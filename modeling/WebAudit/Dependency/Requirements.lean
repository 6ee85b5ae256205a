import WebAudit.Dependency.Record
import WebAudit.Text.Lowercase

/-!
Requirement lists: one requirement on a line. Only a pinned requirement
`name==version` can be looked up; every other one is kept as unsupported.
-/

namespace WebAudit.Requirements

/-- Starts of lines that are no requirement: options, addresses and paths. -/
def skippedStarts : List String := ["-", "http://", "https://", "/", "."]

def isSpecifierStart (c : Char) : Bool :=
  c == '>' || c == '<' || c == '~' || c == '!' || c == '='

/-- A requirement without its environment marker, cut into the text of its
name, its version, and whether it cannot be looked up. -/
def split (cs : List Char) : List Char × List Char × Bool :=
  match Text.splitAt? "==".toList cs with
  | some (name, rest) =>
    let version := Text.trim (rest.takeWhile (· != ','))
    (Text.trim name, version, version.isEmpty)
  | none =>
    (Text.trim (cs.takeWhile fun c => !isSpecifierStart c),
      Text.trim (cs.dropWhile fun c => !isSpecifierStart c), true)

def parseLine? (manifest : Path) (line : List Char) : Option Dependency :=
  let body := Text.trim (line.takeWhile (· != '#'))
  if body.isEmpty || skippedStarts.any (fun s => Text.startsWith s.toList body) then none
  else
    let (name, version, unsupported) := split (Text.trim (body.takeWhile (· != ';')))
    let name := Text.trim (name.takeWhile (· != '['))
    if name.isEmpty then none
    else
      some
        { name := String.ofList (Text.lower name)
          version := if version.isEmpty then "*" else String.ofList version
          ecosystem := .pypi
          manifest := manifest
          isDev := false
          unsupported := unsupported }

def parse (content : String) (manifest : Path) : List Dependency :=
  (Text.lines content.toList).filterMap (parseLine? manifest)

end WebAudit.Requirements
