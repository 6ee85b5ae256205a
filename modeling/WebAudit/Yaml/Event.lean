import WebAudit.Yaml.Scan

/-!
The structure that tokens describe, as a row of events: the starts and ends of
sequences and mappings, scalars and aliases.
-/

namespace WebAudit.Yaml

inductive Event where
  | reference (name : List Char)
  | scalar (anchor : Option (List Char)) (tag : Option (List Char)) (text : List Char)
      (plain : Bool)
  | sequenceStart (anchor : Option (List Char)) (tag : Option (List Char))
  | sequenceEnd
  | mappingStart (anchor : Option (List Char)) (tag : Option (List Char))
  | mappingEnd
  deriving DecidableEq, Repr, Inhabited

/-- What is left to read, the events so far with the last one first, and the
handles of tags. -/
structure Outline where
  tokens : List Token
  events : List Event := []
  handles : List (List Char × List Char) := []

abbrev Parse (α : Type) := StateT Outline Option α

namespace Parse

def peek : Parse (Option Token) := do return (← get).tokens.head?

def skip : Parse Unit := modify fun s => { s with tokens := s.tokens.tail }

def emit (e : Event) : Parse Unit := modify fun s => { s with events := e :: s.events }

def emitEmpty : Parse Unit := emit (.scalar none none [] true)

def require (condition : Bool) : Parse Unit := if condition then return () else failure

/-- Repeats a step as long as it asks for more, at most `fuel` times. -/
def repeatFrom (step : Parse Bool) : Nat → Parse Unit
  | 0 => failure
  | fuel + 1 => do if ← step then repeatFrom step fuel else return ()

/-- Repeats a step as long as it asks for more. Each time it moves past a
token. -/
def loop (step : Parse Bool) : Parse Unit := do repeatFrom step ((← get).tokens.length + 2)

/-- Reads a node unless one of some tokens comes next; then there is none, and
an empty scalar takes its place. -/
def nodeUnless (stops : List Token) (node : Parse Unit) : Parse Unit := do
  match ← peek with
  | some t => if stops.contains t then emitEmpty else node
  | none => emitEmpty

/-- The handles that every document has. -/
def commonHandles : List (List Char × List Char) :=
  [(['!'], ['!']), ("!!".toList, "tag:yaml.org,2002:".toList)]

def resolveTag (handle suffix : List Char) : Parse (List Char) := do
  if handle.isEmpty then return suffix
  else
    match ((← get).handles).lookup handle with
    | some lead => return lead ++ suffix
    | none => failure

/-- The anchor and the tag in front of a node, in either order. -/
def properties : Parse (Option (List Char) × Option (List Char)) := do
  match ← peek with
  | some (.anchor name) =>
    skip
    match ← peek with
    | some (.tag handle suffix) =>
      skip
      return (some name, some (← resolveTag handle suffix))
    | _ => return (some name, none)
  | some (.tag handle suffix) =>
    skip
    match ← peek with
    | some (.anchor name) =>
      skip
      return (some name, some (← resolveTag handle suffix))
    | _ => return (none, some (← resolveTag handle suffix))
  | _ => return (none, none)

def blockItems (node : Parse Unit) : Parse Unit :=
  loop do
    match ← peek with
    | some .blockEntry =>
      skip
      nodeUnless [.blockEntry, .blockEnd] node
      return true
    | some .blockEnd =>
      skip
      return false
    | _ => failure

/-- The items of a sequence that is not indented. -/
def indentlessItems (node : Parse Unit) : Parse Unit :=
  loop do
    match ← peek with
    | some .blockEntry =>
      skip
      nodeUnless [.blockEntry, .key, .value, .blockEnd] node
      return true
    | _ => return false

def blockPairs (node : Parse Unit) : Parse Unit :=
  let stops : List Token := [.key, .value, .blockEnd]
  let pairValue : Parse Unit := do
    match ← peek with
    | some .value =>
      skip
      nodeUnless stops node
    | _ => emitEmpty
  loop do
    match ← peek with
    | some .key =>
      skip
      nodeUnless stops node
      pairValue
      return true
    | some .blockEnd =>
      skip
      return false
    | _ => failure

/-- A pair in brackets of a sequence, after the mark of its key. Where the key
is missing, the token in its place is passed over. -/
def flowPair (node : Parse Unit) : Parse Unit := do
  emit (.mappingStart none none)
  match ← peek with
  | some .value =>
    skip
    emitEmpty
  | some .flowEntry =>
    skip
    emitEmpty
  | some .flowSequenceEnd =>
    skip
    emitEmpty
  | _ => node
  match ← peek with
  | some .value =>
    skip
    nodeUnless [.flowEntry, .flowSequenceEnd] node
  | _ => emitEmpty
  emit .mappingEnd

def flowItems (node : Parse Unit) : Parse Unit := do
  let item : Parse Bool := do
    match ← peek with
    | some .flowSequenceEnd => return false
    | some .key =>
      skip
      flowPair node
      return true
    | _ =>
      node
      return true
  if ← item then
    loop do
      match ← peek with
      | some .flowEntry =>
        skip
        item
      | some .flowSequenceEnd => return false
      | _ => failure
  skip

def flowPairs (node : Parse Unit) : Parse Unit := do
  let pair : Parse Bool := do
    match ← peek with
    | some .flowMappingEnd => return false
    | some .key =>
      skip
      nodeUnless [.value, .flowEntry, .flowMappingEnd] node
      match ← peek with
      | some .value =>
        skip
        nodeUnless [.flowEntry, .flowMappingEnd] node
      | _ => emitEmpty
      return true
    | _ =>
      node
      emitEmpty
      return true
  if ← pair then
    loop do
      match ← peek with
      | some .flowEntry =>
        skip
        pair
      | some .flowMappingEnd => return false
      | _ => failure
  skip

/-- A node with its properties. `inBlock` tells whether a block may open here,
`indentless` whether a sequence may start that is not indented. -/
def nodeBody (node : Bool → Bool → Parse Unit) (inBlock indentless : Bool) : Parse Unit := do
  match ← peek with
  | some (.reference name) =>
    skip
    emit (.reference name)
  | _ =>
    let (anchor, tag) ← properties
    match ← peek with
    | some (.scalar text plain) =>
      skip
      emit (.scalar anchor tag text plain)
    | some .flowSequenceStart =>
      skip
      emit (.sequenceStart anchor tag)
      flowItems (node false false)
      emit .sequenceEnd
    | some .flowMappingStart =>
      skip
      emit (.mappingStart anchor tag)
      flowPairs (node false false)
      emit .mappingEnd
    | next =>
      if indentless && next == some .blockEntry then
        emit (.sequenceStart anchor tag)
        indentlessItems (node true false)
        emit .sequenceEnd
      else if inBlock && next == some .blockSequenceStart then
        skip
        emit (.sequenceStart anchor tag)
        blockItems (node true false)
        emit .sequenceEnd
      else if inBlock && next == some .blockMappingStart then
        skip
        emit (.mappingStart anchor tag)
        blockPairs (node true true)
        emit .mappingEnd
      else
        require (anchor.isSome || tag.isSome)
        emit (.scalar anchor tag [] true)

def nodeFrom : Nat → Bool → Bool → Parse Unit
  | 0, _, _ => failure
  | fuel + 1, inBlock, indentless => nodeBody (nodeFrom fuel) inBlock indentless

def root : Parse Unit := do nodeFrom ((← get).tokens.length + 1) true false

/-- Reads directives. Tells whether a version was given before. -/
def directives : Nat → Bool → Parse Unit
  | 0, _ => failure
  | fuel + 1, versioned => do
    match ← peek with
    | some (.version major minor) =>
      require (!versioned && major == 1 && (minor == 1 || minor == 2))
      skip
      directives fuel true
    | some (.handle name lead) =>
      require (((← get).handles.lookup name).isNone)
      modify fun s => { s with handles := s.handles ++ [(name, lead)] }
      skip
      directives fuel versioned
    | _ => return ()

/-- Adds the common handles behind those of the document. -/
def addCommonHandles : Parse Unit :=
  modify fun s => { s with handles := s.handles ++ commonHandles }

def explicitDocument : Parse Unit := do
  directives ((← get).tokens.length + 1) false
  addCommonHandles
  require ((← peek) == some .documentStart)
  skip
  match ← peek with
  | some (.version ..) => emitEmpty
  | some (.handle ..) => emitEmpty
  | some .documentStart => emitEmpty
  | some .documentEnd => emitEmpty
  | some .streamEnd => emitEmpty
  | _ => root

/-- Whether a token starts a document that needs no mark. -/
def startsContent : Option Token → Bool
  | some (.version ..) => false
  | some (.handle ..) => false
  | some .documentStart => false
  | some .streamEnd => false
  | _ => true

/-- One document of a stream, if another one follows. The first one needs no
mark. -/
def document? (first : Bool) : Parse (Option (List Event)) := do
  modify fun s => { s with events := [], handles := [] }
  if !first then
    loop do
      if (← peek) == some .documentEnd then
        skip
        return true
      else return false
  let next ← peek
  if next == some .streamEnd then return none
  else
    if first && startsContent next then
      addCommonHandles
      root
    else explicitDocument
    if (← peek) == some .documentEnd then skip
    return some (← get).events.reverse

def documents : Nat → Bool → Parse (List (List Event))
  | 0, _ => failure
  | fuel + 1, first => do
    match ← document? first with
    | some es => return es :: (← documents fuel false)
    | none => return []

end Parse

def events? (cs : List Char) : Option (List (List Event)) :=
  (tokens? cs).bind fun ts =>
    (Parse.documents (ts.length + 1) true |>.run { tokens := ts }).map Prod.fst

end WebAudit.Yaml
