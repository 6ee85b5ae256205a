import WebAudit.Toml.Value

/-!
Tables while they are built. A table that a header or a dotted key only passes
through is implicit until a header of its own makes it explicit; keys with dots
extend only tables that were made by such keys.
-/

namespace WebAudit.Toml

inductive Node where
  | value (v : Value)
  | table (implicit dotted : Bool) (entries : List (String × Node))
  | tables (elements : List (List (String × Node)))
  deriving Inhabited

structure Table where
  implicit : Bool := false
  dotted : Bool := false
  entries : List (String × Node) := []

mutual

def Node.toValue : Node → Value
  | .value v => v
  | .table _ _ entries => .table (Node.entryValues entries)
  | .tables elements => .array (Node.elementValues elements)

def Node.entryValues : List (String × Node) → List (String × Value)
  | [] => []
  | (name, node) :: rest => (name, node.toValue) :: Node.entryValues rest

def Node.elementValues : List (List (String × Node)) → List Value
  | [] => []
  | entries :: rest => .table (Node.entryValues entries) :: Node.elementValues rest

end

namespace Table

def values (t : Table) : List (String × Value) := Node.entryValues t.entries

/-- Puts a node under a name, in place of the one that is there. -/
def put (name : String) (node : Node) : List (String × Node) → List (String × Node)
  | [] => [(name, node)]
  | (n, old) :: rest => if n == name then (n, node) :: rest else (n, old) :: put name node rest

def set (t : Table) (name : String) (node : Node) : Table :=
  { t with entries := put name node t.entries }

/-- Changes the table at the end of some names. Missing tables are made on the
way; in an array of tables the way goes on in the last one. Keys with dots do
not extend a table that a header has made. -/
def update (byKey : Bool) (change : Table → Option Table) : List String → Table → Option Table
  | [], t => change t
  | name :: rest, t =>
    match (t.entries.lookup name).getD (.table true byKey []) with
    | .value _ => none
    | .table implicit dotted entries =>
      if byKey && !implicit then none
      else
        (update byKey change rest ⟨implicit, dotted, entries⟩).map fun u =>
          t.set name (.table u.implicit u.dotted u.entries)
    | .tables elements =>
      match elements.getLast? with
      | none => none
      | some entries =>
        (update byKey change rest ⟨false, false, entries⟩).map fun u =>
          t.set name (.tables (elements.dropLast ++ [u.entries]))

/-- Adds a key that is not there yet. -/
def insert? (name : String) (v : Value) (t : Table) : Option Table :=
  match t.entries.lookup name with
  | some _ => none
  | none => some { t with entries := t.entries ++ [(name, .value v)] }

/-- The names before the last one, and the last one. -/
def splitPath? (path : List String) : Option (List String × String) :=
  path.getLast?.map fun name => (path.dropLast, name)

/-- Assigns a value to a key with or without dots. A key with dots ends in a
table that such keys have made, and one without does not. -/
def assign? (path : List String) (v : Value) (t : Table) : Option Table :=
  (splitPath? path).bind fun (parents, name) =>
    t.update true
      (fun u => if u.dotted == parents.isEmpty then none else u.insert? name v) parents

/-- Opens the table of a header, which no header has made before. -/
def openTable? (path : List String) (t : Table) : Option Table :=
  (splitPath? path).bind fun (parents, name) =>
    t.update false
      (fun u =>
        match u.entries.lookup name with
        | none => some (u.set name (.table false false []))
        | some (.table true false entries) => some (u.set name (.table false false entries))
        | some _ => none)
      parents

def openElement? (path : List String) (t : Table) : Option Table :=
  (splitPath? path).bind fun (parents, name) =>
    t.update false
      (fun u =>
        match u.entries.lookup name with
        | none => some (u.set name (.tables [[]]))
        | some (.tables elements) => some (u.set name (.tables (elements ++ [[]])))
        | some _ => none)
      parents

def ofPairs? (pairs : List (List String × Value)) : Option Table :=
  pairs.foldlM (fun t (path, v) => t.assign? path v) {}

end Table

end WebAudit.Toml
