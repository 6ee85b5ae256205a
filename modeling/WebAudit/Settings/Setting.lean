import WebAudit.Number.Decimal
import WebAudit.Text.Escaped
import WebAudit.Toml.Document

/-!
Trees of settings as the layers of a configuration give them, and how a layer
is laid over the ones before it: maps are joined key by key, and anything else
is replaced as a whole.
-/

namespace WebAudit

inductive Setting where
  | text (s : String)
  | letter (c : Char)
  | flag (b : Bool)
  | signed (n : Int)
  | unsigned (n : Nat)
  | float (x : Number.Binary)
  | list (items : List Setting)
  | map (entries : List (String × Setting))
  deriving Inhabited

inductive SettingStep where
  | name (s : String)
  | index (n : Nat)
  deriving DecidableEq, Repr, Inhabited

def SettingStep.text : SettingStep → String
  | .name s => s
  | .index n => toString n

abbrev SettingPath := List SettingStep

namespace Setting

def put (name : String) (value : Setting) : List (String × Setting) → List (String × Setting)
  | [] => [(name, value)]
  | (n, old) :: rest =>
    if n == name then (n, value) :: rest else (n, old) :: put name value rest

mutual

def overlay (old : Setting) : Setting → Setting
  | .map entries =>
    match old with
    | .map base => .map (overlayEntries base entries)
    | _ => .map entries
  | value => value

def overlayEntries (base : List (String × Setting)) :
    List (String × Setting) → List (String × Setting)
  | [] => base
  | (name, value) :: rest =>
    let joined :=
      match base.lookup name with
      | some old => overlay old value
      | none => value
    overlayEntries (put name joined base) rest

end

def get? : SettingPath → Setting → Option Setting
  | [], value => some value
  | .name s :: rest, .map entries => (entries.lookup s).bind (get? rest)
  | .index n :: rest, .list items => items[n]?.bind (get? rest)
  | _ :: _, _ => none

/-- The key under which a date or a time shows up. -/
def datetimeKey : String := "$__toml_private_datetime"

mutual

def ofToml : Toml.Value → Setting
  | .string s => .text s
  | .integer n => .signed n
  | .float x => .float x
  | .boolean b => .flag b
  | .datetime s => .map [(datetimeKey, .text s)]
  | .array items => .list (ofItems items)
  | .table entries => .map (ofEntries entries)

def ofItems : List Toml.Value → List Setting
  | [] => []
  | v :: rest => ofToml v :: ofItems rest

def ofEntries : List (String × Toml.Value) → List (String × Setting)
  | [] => []
  | (name, v) :: rest => (name, ofToml v) :: ofEntries rest

end

def describe : Setting → String
  | .text s => "string " ++ Text.inQuotes s
  | .letter c => "string " ++ Text.inQuotes (String.singleton c)
  | .flag b => if b then "bool true" else "bool false"
  | .signed n => s!"signed int `{n}`"
  | .unsigned n => s!"unsigned int `{n}`"
  | .float x => "float `" ++ Number.plainText .double x ++ "`"
  | .list _ => "sequence"
  | .map _ => "map"

end Setting

end WebAudit
