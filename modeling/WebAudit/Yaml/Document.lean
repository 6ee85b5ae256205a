import WebAudit.Json.Value
import WebAudit.Yaml.Event

/-!
Documents of YAML as JSON values. Plain scalars are read as null, booleans and
numbers where they look like them; aliases stand for what their anchor names.
-/

namespace WebAudit.Yaml

def inBase? (base : Nat) (cs : List Char) : Option Nat :=
  if cs.isEmpty then none
  else
    cs.foldlM
      (fun n c => (hexValue? c).bind fun d => if d < base then some (n * base + d) else none) 0

/-- Whether a text has digits with a zero in front of them; such a text is no
number. -/
def hasLeadingZero (cs : List Char) : Bool :=
  let body := match cs with
    | '-' :: rest => rest
    | '+' :: rest => rest
    | _ => cs
  match body with
  | '0' :: d :: rest => (d :: rest).all Char.isDigit
  | _ => false

/-- The base that a text announces, and the digits after it. -/
def basedDigits? (cs : List Char) : Option (Nat × List Char) :=
  match cs with
  | '0' :: 'x' :: rest => some (16, rest)
  | '0' :: 'o' :: rest => some (8, rest)
  | '0' :: 'b' :: rest => some (2, rest)
  | _ => none

/-- An integer without a minus sign, if it does not exceed a limit. -/
def unsigned? (limit : Nat) (cs : List Char) : Option Nat :=
  let body := match cs with
    | '+' :: rest => rest
    | _ => cs
  let number := match basedDigits? body with
    | some (base, digits) => inBase? base digits
    | none => if hasLeadingZero cs then none else inBase? 10 body
  number.filter (· ≤ limit)

def negative? (limit : Nat) (cs : List Char) : Option Int :=
  match cs with
  | '-' :: body =>
    let number := match basedDigits? body with
      | some (base, digits) => inBase? base digits
      | none => if hasLeadingZero cs then none else inBase? 10 body
    (number.filter (· ≤ limit)).map fun n => -(n : Int)
  | _ => none

inductive IntegerReading where
  | fits (n : Int)
  | tooLarge
  | no
  deriving DecidableEq, Repr

/-- Reads a text as an integer. One of up to 128 bits that does not fit into 64
is known to be too large. -/
def readInteger (cs : List Char) : IntegerReading :=
  match unsigned? (Nat.pow 2 64 - 1) cs, negative? (Nat.pow 2 63) cs with
  | some n, _ => .fits n
  | none, some n => .fits n
  | none, none =>
    if (unsigned? (Nat.pow 2 128 - 1) cs).isSome || (negative? (Nat.pow 2 127) cs).isSome then
      .tooLarge
    else .no

def readFloat? (cs : List Char) : Option Number.Binary :=
  let text := String.ofList cs
  let body := match cs with
    | '+' :: rest => rest
    | _ => cs
  if [".inf", ".Inf", ".INF"].contains (String.ofList body) then some (.infinite false)
  else if ["-.inf", "-.Inf", "-.INF"].contains text then some (.infinite true)
  else if [".nan", ".NaN", ".NAN"].contains text then some .nan
  else if cs.head? == some '+' && (body.head? == some '+' || body.head? == some '-') then none
  else (Number.readNumeral? .double body).filter Number.Binary.isFinite

def readBool? (cs : List Char) : Option Bool :=
  let text := String.ofList cs
  if ["true", "True", "TRUE"].contains text then some true
  else if ["false", "False", "FALSE"].contains text then some false
  else none

def isNull (cs : List Char) : Bool := ["null", "Null", "NULL", "~"].contains (String.ofList cs)

/-- The JSON value of a number with a fraction; one that is not finite has
none. -/
def floatValue (b : Number.Binary) : Json := if b.isFinite then .number (.double b) else .null

/-- The value of a plain scalar without a tag. -/
def plainValue? (cs : List Char) : Option Json :=
  if cs.isEmpty || isNull cs then some .null
  else
    match readBool? cs with
    | some b => some (.bool b)
    | none =>
      match readInteger cs with
      | .fits n => some (.number (.int n))
      | .tooLarge => none
      | .no =>
        match if hasLeadingZero cs then none else readFloat? cs with
        | some b => some (floatValue b)
        | none => some (.string (String.ofList cs))

/-- The value of a scalar. A tag of the core schema decides what the text has
to be; a tag of the document itself has no value. -/
def scalarValue? (tag : Option (List Char)) (cs : List Char) (plain : Bool) : Option Json :=
  match tag with
  | none => if plain then plainValue? cs else some (.string (String.ofList cs))
  | some t =>
    if t.head? == some '!' then none
    else
      match String.ofList t with
      | "tag:yaml.org,2002:bool" => (readBool? cs).map .bool
      | "tag:yaml.org,2002:int" =>
        match readInteger cs with
        | .fits n => some (.number (.int n))
        | _ => none
      | "tag:yaml.org,2002:float" => (readFloat? cs).map floatValue
      | "tag:yaml.org,2002:null" => if isNull cs then some .null else none
      | _ => some (.string (String.ofList cs))

/-- Events with the numbers of anchors in the place of names, and the position
of the event that each number stands for. -/
structure Linked where
  events : Array Event
  /-- For each alias its number, by its position. -/
  aliases : List (Nat × Nat)
  /-- For each number the position of its event, the last one first. -/
  targets : List (Nat × Nat)

def Event.anchor? : Event → Option (List Char)
  | .scalar anchor .. => anchor
  | .sequenceStart anchor _ => anchor
  | .mappingStart anchor _ => anchor
  | _ => none

structure Links where
  names : List (List Char × Nat) := []
  aliases : List (Nat × Nat) := []
  targets : List (Nat × Nat) := []

/-- Links the event at a position. The number of an anchor is the number of
names before it; an alias needs a name that is known. -/
def Links.add? (l : Links) (event : Event) (position : Nat) : Option Links :=
  match event with
  | .reference name =>
    (l.names.lookup name).map fun id => { l with aliases := (position, id) :: l.aliases }
  | _ =>
    match event.anchor? with
    | some name =>
      let id := l.names.length
      let others := l.names.filter fun (n, _) => n != name
      some { l with names := (name, id) :: others, targets := (id, position) :: l.targets }
    | none => some l

def Linked.ofEvents? (events : List Event) : Option Linked :=
  (events.zipIdx.foldlM (fun (l : Links) (e, i) => l.add? e i) {}).map fun (l : Links) =>
    ⟨events.toArray, l.aliases, l.targets⟩

/-- A value, the position after it, and the number of aliases followed. -/
abbrev Read (α : Type) := Option (α × Nat × Nat)

namespace Linked

/-- The event that an alias at a position stands for; how often aliases are
followed is bounded by the number of events. -/
def follow? (d : Linked) (position jumps : Nat) : Option Nat :=
  if jumps + 1 > d.events.size * 100 then none
  else (d.aliases.lookup position).bind fun id => d.targets.lookup id

def items (d : Linked) (value : Nat → Nat → Read Json) : Nat → Nat → Nat → Read (List Json)
  | 0, _, _ => none
  | fuel + 1, position, jumps =>
    match d.events[position]? with
    | some .sequenceEnd => some ([], position + 1, jumps)
    | some _ =>
      (value position jumps).bind fun (v, next, jumps) =>
        (items d value fuel next jumps).map fun (vs, rest) => (v :: vs, rest)
    | none => none

/-- The key at a position: the text of a scalar. -/
def key (d : Linked) (position jumps : Nat) : Read String :=
  match d.events[position]? with
  | some (.scalar _ _ text _) => some (String.ofList text, position + 1, jumps)
  | some (.reference _) =>
    (d.follow? position jumps).bind fun target =>
      match d.events[target]? with
      | some (.scalar _ _ text _) => some (String.ofList text, position + 1, jumps + 1)
      | _ => none
  | _ => none

/-- The members of a mapping from a position on, after those so far; the last
one of a name counts. -/
def members (d : Linked) (value : Nat → Nat → Read Json) :
    Nat → List (String × Json) → Nat → Nat → Read (List (String × Json))
  | 0, _, _, _ => none
  | fuel + 1, sofar, position, jumps =>
    match d.events[position]? with
    | some .mappingEnd => some (sofar, position + 1, jumps)
    | some _ =>
      (d.key position jumps).bind fun (name, next, jumps) =>
        (value next jumps).bind fun (v, next, jumps) =>
          members d value fuel (Json.insertMember name v sofar) next jumps
    | none => none

/-- Whether a tag is one of the document itself. -/
def isLocal (tag : Option (List Char)) : Bool := tag.any fun t => t.head? == some '!'

/-- The value of an event that is no alias; `inner` reads what a sequence or a
mapping holds, if it may hold anything. -/
def direct (d : Linked) (inner : Option (Nat → Nat → Read Json)) (position jumps : Nat) :
    Read Json :=
  match d.events[position]?, inner with
  | some (.scalar _ tag text plain), _ =>
    (scalarValue? tag text plain).map fun v => (v, position + 1, jumps)
  | some (.sequenceStart _ tag), some value =>
    if isLocal tag then none
    else
      (d.items value (d.events.size + 1) (position + 1) jumps).map fun (vs, rest) =>
        (.array vs, rest)
  | some (.mappingStart _ tag), some value =>
    if isLocal tag then none
    else
      (d.members value (d.events.size + 1) [] (position + 1) jumps).map fun (ms, rest) =>
        (.object ms, rest)
  | _, _ => none

def node (d : Linked) (inner : Option (Nat → Nat → Read Json)) (position jumps : Nat) :
    Read Json :=
  match d.events[position]? with
  | some (.reference _) =>
    (d.follow? position jumps).bind fun target =>
      (d.direct inner target (jumps + 1)).map fun (v, _, jumps) => (v, position + 1, jumps)
  | _ => d.direct inner position jumps

/-- The value at a position whose parts nest at most `depth` deep. -/
def valueAt (d : Linked) : Nat → Nat → Nat → Read Json
  | 0 => d.node none
  | depth + 1 => d.node (some (d.valueAt depth))

end Linked

/-- How deep the parts of a document may nest. -/
def maxDepth : Nat := 128

def documentValue? (events : List Event) : Option Json :=
  (Linked.ofEvents? events).bind fun d => (d.valueAt maxDepth 0 0).map Prod.fst

def documents? (text : String) : Option (List Json) :=
  (events? text.toList).bind fun docs => docs.mapM documentValue?

end WebAudit.Yaml
