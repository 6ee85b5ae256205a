import WebAudit.Project.Path

/-!
The arguments of the command line: options that may stand anywhere, and the
commands with the options and paths of their own.
-/

namespace WebAudit

structure ScanRequest where
  path : Path := ⟨"."⟩
  highOnly : Bool := false
  json : Bool := false
  output : Option Path := none
  config : Option Path := none
  noDeps : Bool := false
  suggest : Bool := false
  deriving DecidableEq, Repr, Inhabited

inductive Command where
  | scan (request : ScanRequest)
  | initialise (workspace : Path)
  | show (workspace : Path) (config : Option Path)
  deriving DecidableEq, Repr, Inhabited

structure Invocation where
  logDirectory : Option Path := none
  command : Command
  deriving DecidableEq, Repr, Inhabited

inductive Request where
  | run (invocation : Invocation)
  | version
  | help
  | refused
  deriving DecidableEq, Repr, Inhabited

structure OptionSpec where
  name : String
  letter : Option Char := none
  takesValue : Bool := false
  repeatable : Bool := false
  deriving DecidableEq, Repr, Inhabited

structure Collected where
  options : List (String × String) := []
  operands : List String := []
  deriving DecidableEq, Repr, Inhabited

namespace Collected

def has (c : Collected) (name : String) : Bool := c.options.any fun o => o.1 == name

def path? (c : Collected) (name : String) : Option Path := (c.options.lookup name).map Path.mk

/-- Adds an option, unless it may be given only once and has been. Values are
not empty. -/
def add? (c : Collected) (spec : OptionSpec) (value : String) : Option Collected :=
  if (c.has spec.name && !spec.repeatable) || (spec.takesValue && value.isEmpty) then none
  else some { c with options := c.options ++ [(spec.name, value)] }

end Collected

inductive Stop where
  | version
  | help
  | refused
  deriving DecidableEq, Repr, Inhabited

structure Level where
  options : List OptionSpec
  commands : List String := []

namespace Level

def stopOf : String → Option Stop
  | "help" => some .help
  | "version" => some .version
  | _ => none

/-- A value that stands in the next argument, and the arguments after it. What
looks like an option is no value. -/
def nextValue? : List String → Option (String × List String)
  | [] => none
  | arg :: rest => if arg.startsWith "-" && arg != "-" then none else some (arg, rest)

def letters (level : Level) (c : Collected) (rest : List String) :
    List Char → Except Stop (Collected × List String)
  | [] => .ok (c, rest)
  | letter :: more =>
    match level.options.find? fun spec => spec.letter == some letter with
    | none => .error .refused
    | some spec =>
      match stopOf spec.name with
      | some stop => .error stop
      | none =>
        if spec.takesValue then
          let inline :=
            match more with
            | '=' :: value => value
            | value => value
          let read :=
            if more.isEmpty then nextValue? rest else some (String.ofList inline, rest)
          match read.bind fun (value, rest) => (c.add? spec value).map fun c => (c, rest) with
          | some result => .ok result
          | none => .error .refused
        else
          match c.add? spec "" with
          | some c => letters level c rest more
          | none => .error .refused

def long (level : Level) (c : Collected) (rest : List String) (text : List Char) :
    Except Stop (Collected × List String) :=
  let name := String.ofList (text.takeWhile (· != '='))
  let value := text.dropWhile (· != '=')
  match level.options.find? fun spec => spec.name == name with
  | none => .error .refused
  | some spec =>
    let read : Option (String × List String) :=
      match value, spec.takesValue with
      | [], true => nextValue? rest
      | [], false => some ("", rest)
      | _ :: given, true => some (String.ofList given, rest)
      | _ :: _, false => none
    match read with
    | none => .error .refused
    | some (value, rest) =>
      match stopOf spec.name with
      | some stop => .error stop
      | none =>
        match c.add? spec value with
        | some c => .ok (c, rest)
        | none => .error .refused

/-- Reads the arguments of a command up to the name of a command below it. -/
def collect (level : Level) : Nat → Collected → List String →
    Except Stop (Collected × Option (String × List String))
  | 0, _, _ => .error .refused
  | _, c, [] => .ok (c, none)
  | fuel + 1, c, arg :: rest =>
    if level.commands.contains arg then .ok (c, some (arg, rest))
    else if arg == "--" then .ok ({ c with operands := c.operands ++ rest }, none)
    else
      match arg.toList with
      | '-' :: '-' :: text => do
        let (c, rest) ← level.long c rest text
        level.collect fuel c rest
      | '-' :: letter :: more => do
        let (c, rest) ← level.letters c rest (letter :: more)
        level.collect fuel c rest
      | _ => level.collect fuel { c with operands := c.operands ++ [arg] } rest

def read (level : Level) (args : List String) :
    Except Stop (Collected × Option (String × List String)) :=
  level.collect (args.length + 1) {} args

end Level

namespace Arguments

def shared : List OptionSpec :=
  [⟨"verbose", some 'v', false, true⟩, ⟨"quiet", some 'q', false, false⟩,
    ⟨"log-file", none, true, false⟩, ⟨"help", some 'h', false, false⟩]

def top : Level := ⟨shared ++ [⟨"version", some 'V', false, false⟩], ["scan", "config", "help"]⟩

def scanLevel : Level :=
  ⟨shared ++
    [⟨"high-only", none, false, false⟩, ⟨"json", none, false, false⟩,
      ⟨"output", some 'o', true, false⟩, ⟨"config", some 'c', true, false⟩,
      ⟨"no-deps", none, false, false⟩, ⟨"suggest", none, false, false⟩], []⟩

def configLevel : Level := ⟨shared, ["init", "show", "help"]⟩

def initLevel : Level := ⟨shared, []⟩

def showLevel : Level := ⟨shared ++ [⟨"config", some 'c', true, false⟩], []⟩

/-- The one path that a command takes; the working directory if there is none. -/
def operand? : List String → Option Path
  | [] => some ⟨"."⟩
  | [text] => if text.isEmpty then none else some ⟨text⟩
  | _ => none

def leaf (level : Level) (args : List String) (make : Collected → Path → Command) :
    Except Stop (Collected × Command) := do
  let (c, _) ← level.read args
  match operand? c.operands with
  | some path => return (c, make c path)
  | none => .error .refused

def scanCommand (c : Collected) (path : Path) : Command :=
  .scan
    { path := path
      highOnly := c.has "high-only"
      json := c.has "json"
      output := c.path? "output"
      config := c.path? "config"
      noDeps := c.has "no-deps"
      suggest := c.has "suggest" }

/-- Reads the arguments of the commands about settings; all that was collected
on the way comes first. -/
def configCommand (args : List String) : Except Stop (List Collected × Command) := do
  let (outer, next) ← configLevel.read args
  if !outer.operands.isEmpty then .error .refused
  else
    match next with
    | some ("init", rest) =>
      let (inner, command) ← leaf initLevel rest fun _ path => .initialise path
      return ([outer, inner], command)
    | some ("show", rest) =>
      let (inner, command) ←
        leaf showLevel rest fun c path => .show path (c.path? "config")
      return ([outer, inner], command)
    | some _ => .error .help
    | none => .error .refused

/-- The directory for logs; the one that was given last counts. -/
def logDirectory? (collected : List Collected) : Option Path :=
  (collected.filterMap fun c => c.path? "log-file").getLast?

def invocation (args : List String) : Except Stop Invocation := do
  let (outer, next) ← top.read args
  if !outer.operands.isEmpty then .error .refused
  else
    match next with
    | some ("scan", rest) =>
      let (inner, command) ← leaf scanLevel rest scanCommand
      return ⟨logDirectory? [outer, inner], command⟩
    | some ("config", rest) =>
      let (inner, command) ← configCommand rest
      return ⟨logDirectory? (outer :: inner), command⟩
    | some _ => .error .help
    | none => .error .refused

def parse (args : List String) : Request :=
  match invocation args with
  | .ok i => .run i
  | .error .version => .version
  | .error .help => .help
  | .error .refused => .refused

end Arguments

end WebAudit
