import WebAudit.Text.Basic

/-!
Syntax trees of scripts. A node has a kind, the part that it plays in its
parent, and the span of characters that it covers.
-/

namespace WebAudit.Script

/-- The kinds of nodes that checks tell apart; all other constructs are
`other`. -/
inductive Kind where
  | program
  | identifier
  | member
  | subscript
  | call
  | construct
  | arguments
  | object
  | pair
  | method
  | shorthand
  | defaulted
  | spread
  | array
  | arrowFunction
  | functionExpression
  | declarator
  | assignment
  | parenthesized
  | nonNull
  | undefined
  | update
  | operation
  | element
  | pattern
  | other
  deriving DecidableEq, Repr, Inhabited

inductive Role where
  | callee
  | arguments
  | object
  | property
  | key
  | name
  | value
  | item
  deriving DecidableEq, Repr, Inhabited

/-- A node of a syntax tree. It covers the characters from `start` up to, and
without, `stop`. -/
inductive Node where
  | mk (kind : Kind) (role : Role) (start stop : Nat) (children : List Node)
  deriving Inhabited

namespace Node

def kind : Node → Kind
  | mk k _ _ _ _ => k

def role : Node → Role
  | mk _ r _ _ _ => r

def start : Node → Nat
  | mk _ _ s _ _ => s

def stop : Node → Nat
  | mk _ _ _ e _ => e

def children : Node → List Node
  | mk _ _ _ _ cs => cs

def withRole (n : Node) (role : Role) : Node := mk n.kind role n.start n.stop n.children

def withKind (n : Node) (kind : Kind) : Node := mk kind n.role n.start n.stop n.children

def child? (n : Node) (role : Role) : Option Node := n.children.find? fun c => c.role == role

def text (source : List Char) (n : Node) : List Char :=
  (source.drop n.start).take (n.stop - n.start)

/-- The line that a node starts on, counted from one. -/
def line (source : List Char) (n : Node) : Nat := (source.take n.start).count '\n' + 1

mutual

/-- The nodes of a tree, each before its children, and children from left to
right. -/
def preorder : Node → List Node
  | mk k r s e cs => mk k r s e cs :: preorderAll cs

def preorderAll : List Node → List Node
  | [] => []
  | n :: rest => preorder n ++ preorderAll rest

end

mutual

def size : Node → Nat
  | mk _ _ _ _ cs => sizeAll cs + 1

def sizeAll : List Node → Nat
  | [] => 0
  | n :: rest => size n + sizeAll rest

end

end Node

end WebAudit.Script
