import WebAudit.Settings.Inline

/-!
The layer of settings that environment variables give. A variable counts if its
name starts with the lead `SHIPGUARD_`; two underscores in the rest of the name
go one step down in the tree, and the case of letters does not matter.
-/

namespace WebAudit

abbrev Environment := List (String × String)

namespace Environment

def lead : String := "SHIPGUARD_"

/-- A text with a dot for every two underscores. -/
def dotted : List Char → List Char
  | '_' :: '_' :: rest => '.' :: dotted rest
  | c :: rest => c :: dotted rest
  | [] => []

/-- The names that a variable leads to; each of them has at least one letter. -/
def names? (key : String) : Option (List String) :=
  let name := Text.lowerAscii (Text.trim key.toList)
  (Text.after? (Text.lowerAscii lead.toList) name).bind fun rest =>
    let parts := Text.splitOn '.' (Text.trim (dotted rest))
    if parts.any List.isEmpty then none else some (parts.map String.ofList)

def nest (value : Setting) : List String → Setting
  | [] => value
  | name :: rest => .map [(name, nest value rest)]

/-- The layer of some variables; a later one is laid over those before it. -/
def settings (pairs : Environment) : List (String × Setting) :=
  pairs.foldl
    (fun found (key, line) =>
      match names? key with
      | some (name :: rest) =>
        Setting.overlayEntries found [(name, nest (Setting.ofLine line) rest)]
      | _ => found)
    []

end Environment

end WebAudit
