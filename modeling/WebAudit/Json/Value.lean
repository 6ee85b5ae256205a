import WebAudit.Number.Decimal

/-!
JSON values and their text. An object is a list of members; a reader keeps
them sorted by name with one member for a name, a writer keeps the order it is
given.
-/

namespace WebAudit

inductive JsonNumber where
  | int (n : Int)
  | double (b : Number.Binary)
  | single (b : Number.Binary)
  deriving DecidableEq, Repr, Inhabited

inductive Json where
  | null
  | bool (b : Bool)
  | number (n : JsonNumber)
  | string (s : String)
  | array (items : List Json)
  | object (members : List (String × Json))
  deriving Inhabited

namespace JsonNumber

/-- Doubles are written positionally up to sixteen digits before the point and
down to four zeros after it. -/
def doubleLayout : Number.Layout := ⟨-5, 16⟩

/-- Singles are written positionally up to thirteen digits before the point and
down to five zeros after it. -/
def singleLayout : Number.Layout := ⟨-6, 13⟩

/-- The text of a number; values that are not finite are written `null`. -/
def text : JsonNumber → String
  | .int n => toString n
  | .double b => (Number.shortestText? .double doubleLayout b).getD "null"
  | .single b => (Number.shortestText? .single singleLayout b).getD "null"

end JsonNumber

namespace Json

/-- A member put into a sorted list of members in place of one with its name. -/
def insertMember (name : String) (value : Json) : List (String × Json) → List (String × Json)
  | [] => [(name, value)]
  | (n, v) :: rest =>
    match compare name n with
    | .lt => (name, value) :: (n, v) :: rest
    | .eq => (name, value) :: rest
    | .gt => (n, v) :: insertMember name value rest

mutual

/-- A value whose objects have one member for a name, the last one, in the order
of names. -/
def canonical : Json → Json
  | .array items => .array (canonicalItems items)
  | .object members => .object (canonicalMembers [] members)
  | v => v

def canonicalItems : List Json → List Json
  | [] => []
  | v :: vs => canonical v :: canonicalItems vs

/-- Members put one after the other, in their canonical form, into those so
far. -/
def canonicalMembers (sofar : List (String × Json)) :
    List (String × Json) → List (String × Json)
  | [] => sofar
  | (name, v) :: rest => canonicalMembers (insertMember name (canonical v) sofar) rest

end

def member? (name : String) : Json → Option Json
  | .object members => members.lookup name
  | _ => none

def string? : Json → Option String
  | .string s => some s
  | _ => none

def items? : Json → Option (List Json)
  | .array xs => some xs
  | _ => none

def hex4 (n : Nat) : List Char :=
  [n / 4096 % 16, n / 256 % 16, n / 16 % 16, n % 16].map fun d =>
    if d < 10 then Char.ofNat (48 + d) else Char.ofNat (87 + d)

def escapeChar (c : Char) : List Char :=
  if c == '"' then ['\\', '"']
  else if c == '\\' then ['\\', '\\']
  else if c == '\n' then ['\\', 'n']
  else if c == '\r' then ['\\', 'r']
  else if c == '\t' then ['\\', 't']
  else if c.toNat == 8 then ['\\', 'b']
  else if c.toNat == 12 then ['\\', 'f']
  else if c.toNat < 32 then '\\' :: 'u' :: hex4 c.toNat
  else [c]

def quote (s : String) : List Char := '"' :: (s.toList.flatMap escapeChar ++ ['"'])

mutual

def compactChars : Json → List Char
  | .null => "null".toList
  | .bool b => (if b then "true" else "false").toList
  | .number n => n.text.toList
  | .string s => quote s
  | .array items => '[' :: (compactItems items ++ [']'])
  | .object members => '\x7b' :: (compactMembers members ++ ['\x7d'])

def compactItems : List Json → List Char
  | [] => []
  | [x] => compactChars x
  | x :: rest => compactChars x ++ ',' :: compactItems rest

def compactMembers : List (String × Json) → List Char
  | [] => []
  | [(n, v)] => quote n ++ ':' :: compactChars v
  | (n, v) :: rest => quote n ++ ':' :: (compactChars v ++ ',' :: compactMembers rest)

end

def compact (v : Json) : String := String.ofList (compactChars v)

def newline (level : Nat) : List Char := '\n' :: List.replicate (2 * level) ' '

mutual

def prettyChars (level : Nat) : Json → List Char
  | .array [] => ['[', ']']
  | .array items => '[' :: (prettyItems (level + 1) items ++ newline level ++ [']'])
  | .object [] => ['\x7b', '\x7d']
  | .object members => '\x7b' :: (prettyMembers (level + 1) members ++ newline level ++ ['\x7d'])
  | .null => "null".toList
  | .bool b => (if b then "true" else "false").toList
  | .number n => n.text.toList
  | .string s => quote s

def prettyItems (level : Nat) : List Json → List Char
  | [] => []
  | [x] => newline level ++ prettyChars level x
  | x :: rest => newline level ++ prettyChars level x ++ ',' :: prettyItems level rest

def prettyMembers (level : Nat) : List (String × Json) → List Char
  | [] => []
  | [(n, v)] => newline level ++ quote n ++ ':' :: ' ' :: prettyChars level v
  | (n, v) :: rest =>
    newline level ++ quote n ++ ':' :: ' ' :: (prettyChars level v ++ ',' :: prettyMembers level rest)

end

def pretty (v : Json) : String := String.ofList (prettyChars 0 v)

end Json

end WebAudit
