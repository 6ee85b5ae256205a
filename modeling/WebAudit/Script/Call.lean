import WebAudit.Script.Parse
import WebAudit.Script.Walk

/-!
Calls and constructions in a script, and the shape of the objects that are
passed to them.
-/

namespace WebAudit.Script

inductive Callee where
  | name (text : List Char)
  | member (object property : List Char)
  | other
  deriving DecidableEq, Repr, Inhabited

namespace Callee

/-- The last name of the object whose member is called, without the marks of an
optional chain. -/
def objectName? : Callee → Option (List Char)
  | .member object _ =>
    some ((Text.afterLast '.' object).reverse.dropWhile (· == '?')).reverse
  | _ => none

def property? : Callee → Option (List Char)
  | .member _ property => some property
  | _ => none

/-- What a node is as the thing that is called. -/
def ofNode (text : List Char) (n : Node) : Callee :=
  match n.kind with
  | .identifier => .name (n.text text)
  | .member =>
    match n.child? .object, n.child? .property with
    | some object, some property => .member (object.text text) (property.text text)
    | _, _ => .other
  | _ => .other

end Callee

structure Call where
  node : Node
  callee : Callee
  arguments : List Node
  constructs : Bool
  /-- Counted from one. -/
  line : Nat

namespace Call

/-- The arguments of a call: none if a template takes their place. -/
def argumentsOf (n : Node) : List Node :=
  match n.child? .arguments with
  | some args => if args.kind == .arguments then args.children else []
  | none => []

def ofNode? (text : List Char) (n : Node) : Option Call :=
  if n.kind == .call || n.kind == .construct then
    (n.child? .callee).map fun callee =>
      ⟨n, .ofNode text callee, argumentsOf n, n.kind == .construct, n.line text⟩
  else none

def argument? (c : Call) (i : Nat) : Option Node := c.arguments[i]?

end Call

/-- The calls of a script in the order of a walk. -/
def Source.calls (s : Source) : List Call := (walk s.root).filterMap (Call.ofNode? s.text)

structure ObjectShape where
  keys : List (List Char) := []
  /-- Another object is spread into it, so it may have more properties. -/
  hasSpread : Bool := false
  deriving DecidableEq, Repr, Inhabited

namespace ObjectShape

def hasKey (s : ObjectShape) (key : String) : Bool := s.keys.contains key.toList

def hasAny (s : ObjectShape) (keys : List String) : Bool := keys.any s.hasKey

end ObjectShape

def isQuote (c : Char) : Bool := c == '"' || c == '\'' || c == '`'

def trimQuotes (cs : List Char) : List Char :=
  ((cs.dropWhile isQuote).reverse.dropWhile isQuote).reverse

/-- A text without one pair of brackets around it. -/
def stripBrackets (cs : List Char) : List Char :=
  match cs with
  | '[' :: rest =>
    match rest.reverse with
    | ']' :: inner => inner.reverse
    | _ => cs
  | _ => cs

namespace Node

/-- The name of a property as a key: without brackets and quotes. -/
def key (text : List Char) (n : Node) : List Char := trimQuotes (stripBrackets (n.text text))

/-- The key that a member of an object adds. -/
def memberKey? (text : List Char) (n : Node) : Option (List Char) :=
  match n.kind with
  | .pair => (n.child? .key).map (key text)
  | .method => (n.child? .name).map (key text)
  | .shorthand => some (n.text text)
  | _ => none

/-- The shape of an object; other nodes have none. -/
def shape? (text : List Char) (n : Node) : Option ObjectShape :=
  if n.kind == .object then
    some ⟨n.children.filterMap (memberKey? text), n.children.any fun c => c.kind == .spread⟩
  else none

/-- The value of the first pair of an object that has a key. -/
def propertyValue? (text : List Char) (name : List Char) (n : Node) : Option Node :=
  (n.children.find? fun c =>
    c.kind == .pair && ((c.child? .key).map (key text)) == some name).bind (child? · .value)

end Node

end WebAudit.Script
