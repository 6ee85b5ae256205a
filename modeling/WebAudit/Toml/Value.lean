import WebAudit.Number.Decimal

/-!
The values of a TOML document, and the characters that its lines are made of.
-/

namespace WebAudit.Toml

inductive Value where
  | string (s : String)
  | integer (n : Int)
  | float (x : Number.Binary)
  | boolean (b : Bool)
  | datetime (text : String)
  | array (items : List Value)
  | table (entries : List (String × Value))
  deriving Inhabited

def isSpace (c : Char) : Bool := c == ' ' || c == '\t'

/-- The characters that a comment may hold: the tab and all that are no ASCII
control characters. -/
def isPlain (c : Char) : Bool := c == '\t' || (' '.toNat ≤ c.toNat && c.toNat != 0x7F)

def isBare (c : Char) : Bool := c.isAlphanum || c == '_' || c == '-'

def skipSpaces (cs : List Char) : List Char := cs.dropWhile isSpace

/-- A text in which a carriage return before a line feed is left out. -/
def unifyLines : List Char → List Char
  | [] => []
  | '\r' :: '\n' :: rest => '\n' :: unifyLines rest
  | c :: rest => c :: unifyLines rest

def hexDigit? (c : Char) : Option Nat :=
  if c.isDigit then some (c.toNat - '0'.toNat)
  else if 'a'.toNat ≤ c.toNat && c.toNat ≤ 'f'.toNat then some (c.toNat - 'a'.toNat + 10)
  else if 'A'.toNat ≤ c.toNat && c.toNat ≤ 'F'.toNat then some (c.toNat - 'A'.toNat + 10)
  else none

end WebAudit.Toml
