import WebAudit.Toml.Quoted
import WebAudit.Toml.Scalar
import WebAudit.Toml.Table

/-!
The statements of a TOML document: headers of tables, headers of elements of an
array of tables, and assignments of values to keys.
-/

namespace WebAudit.Toml

/-- A key with the names that lead to it, the last one being the key itself. -/
abbrev KeyPath := List String

inductive Statement where
  | table (path : KeyPath)
  | element (path : KeyPath)
  | assign (path : KeyPath) (value : Value)
  deriving Inhabited

/-- How deep values may be nested, and the bound of names in a key. -/
def depthLimit : Nat := 80

def keyName? (cs : List Char) : Option (String × List Char) :=
  match cs with
  | '"' :: rest =>
    (quotedBody .basic (.plain 0 false) rest).map fun (s, rest) => (String.ofList s, rest)
  | '\'' :: rest =>
    (quotedBody .literal (.plain 0 false) rest).map fun (s, rest) => (String.ofList s, rest)
  | cs =>
    let name := cs.takeWhile isBare
    if name.isEmpty then none else some (String.ofList name, cs.dropWhile isBare)

/-- The names of a key with dots between them, and what follows the blanks after
it. -/
def keyNames? : Nat → List Char → Option (KeyPath × List Char)
  | 0, _ => none
  | fuel + 1, cs =>
    (keyName? (skipSpaces cs)).bind fun (name, rest) =>
      match skipSpaces rest with
      | '.' :: more => (keyNames? fuel more).map fun (names, rest) => (name :: names, rest)
      | rest => some ([name], rest)

def keyPath? (cs : List Char) : Option (KeyPath × List Char) :=
  (keyNames? (cs.length + 1) cs).bind fun (path, rest) =>
    if path.length < depthLimit then some (path, rest) else none

/-- What follows the blanks, comments and line ends between the items of an
array. -/
def skipFiller (inComment : Bool) : List Char → Option (List Char)
  | [] => some []
  | c :: rest =>
    if inComment then
      if c == '\n' then skipFiller false rest
      else if isPlain c then skipFiller true rest
      else none
    else if isSpace c || c == '\n' then skipFiller false rest
    else if c == '#' then skipFiller true rest
    else some (c :: rest)

mutual

/-- A value and what follows it; `depth` is how deep it may be nested. -/
def value? : Nat → Nat → List Char → Option (Value × List Char)
  | 0, _, _ => none
  | fuel + 1, depth, cs =>
    match cs with
    | '[' :: rest =>
      match depth with
      | 0 => none
      | depth + 1 => (items? fuel depth rest).map fun (items, rest) => (.array items, rest)
    | '\x7b' :: rest =>
      match depth with
      | 0 => none
      | depth + 1 =>
        match skipSpaces rest with
        | '\x7d' :: rest => some (.table [], rest)
        | rest =>
          (pairs? fuel depth rest).bind fun (pairs, rest) =>
            (Table.ofPairs? pairs).map fun table => (.table table.values, rest)
    | cs =>
      match readQuoted? cs with
      | some (s, rest) => some (.string (String.ofList s), rest)
      | none =>
        let (word, rest) := takeWord cs
        (scalar? word).map fun v => (v, rest)

def items? : Nat → Nat → List Char → Option (List Value × List Char)
  | 0, _, _ => none
  | fuel + 1, depth, cs =>
    match skipFiller false cs with
    | some (']' :: rest) => some ([], rest)
    | some cs =>
      match value? fuel depth cs with
      | none => none
      | some (v, rest) =>
        match skipFiller false rest with
        | some (',' :: rest) =>
          (items? fuel depth rest).map fun (items, rest) => (v :: items, rest)
        | some (']' :: rest) => some ([v], rest)
        | _ => none
    | none => none

/-- The assignments of an inline table up to its closing brace, and what follows
that. There is at least one, and no comma after the last. -/
def pairs? : Nat → Nat → List Char → Option (List (KeyPath × Value) × List Char)
  | 0, _, _ => none
  | fuel + 1, depth, cs =>
    match keyPath? cs with
    | some (path, '=' :: rest) =>
      match value? fuel depth (skipSpaces rest) with
      | none => none
      | some (v, rest) =>
        match skipSpaces rest with
        | ',' :: rest =>
          (pairs? fuel depth rest).map fun (pairs, rest) => ((path, v) :: pairs, rest)
        | '\x7d' :: rest => some ([(path, v)], rest)
        | _ => none
    | _ => none

end

/-- A value that stands right in a document, and what follows it. -/
def topValue? (cs : List Char) : Option (Value × List Char) :=
  value? (2 * cs.length + 2) depthLimit.pred cs

def afterComment? : List Char → Option (List Char)
  | [] => some []
  | c :: rest =>
    if c == '\n' then some rest
    else if isPlain c then afterComment? rest
    else none

/-- What follows the rest of a line that may only hold blanks and a comment. -/
def afterLine? (cs : List Char) : Option (List Char) :=
  match skipSpaces cs with
  | [] => some []
  | '\n' :: rest => some rest
  | '#' :: rest => afterComment? rest
  | _ => none

/-- The statement at the start of a text, if there is one on its first line, and
what follows the line. -/
def statement? (cs : List Char) : Option (Option Statement × List Char) :=
  match skipSpaces cs with
  | '[' :: '[' :: rest =>
    match keyPath? rest with
    | some (path, ']' :: ']' :: rest) =>
      (afterLine? rest).map fun rest => (some (.element path), rest)
    | _ => none
  | '[' :: rest =>
    match keyPath? rest with
    | some (path, ']' :: rest) => (afterLine? rest).map fun rest => (some (.table path), rest)
    | _ => none
  | [] => some (none, [])
  | '\n' :: rest => some (none, rest)
  | '#' :: rest => (afterComment? rest).map fun rest => (none, rest)
  | cs =>
    match keyPath? cs with
    | some (path, '=' :: rest) =>
      match topValue? (skipSpaces rest) with
      | some (v, rest) => (afterLine? rest).map fun rest => (some (.assign path v), rest)
      | none => none
    | _ => none

def statementsFrom? : Nat → List Char → Option (List Statement)
  | 0, _ => none
  | fuel + 1, cs =>
    if cs.isEmpty then some []
    else
      (statement? cs).bind fun (s, rest) =>
        (statementsFrom? fuel rest).map fun more => s.toList ++ more

/-- A text without a byte order mark. -/
def dropMark : List Char → List Char
  | '\ufeff' :: rest => rest
  | cs => cs

def statements? (cs : List Char) : Option (List Statement) :=
  let cs := unifyLines (dropMark cs)
  statementsFrom? (cs.length + 1) cs

end WebAudit.Toml
