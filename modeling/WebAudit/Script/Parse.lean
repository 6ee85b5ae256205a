import WebAudit.Script.Grammar.Statement

/-!
Parsing of whole scripts. The rules of the grammar refer to each other; a
supply of steps, which the length of the text bounds, ends the recursion.
-/

namespace WebAudit.Script

open Reader

/-- The rules of a language, nested at most `fuel` deep. -/
def parseRule (language : Language) : Nat → Rule → Reader Node
  | 0, _ => failure
  | fuel + 1, rule =>
    let g : Grammar := ⟨language, parseRule language fuel⟩
    match rule with
    | .expression mode => g.expressionBody mode
    | .statement => g.statement
    | .type ends => g.type ends
    | .literal => g.literal
    | .parameters => g.parameters
    | .arguments => g.arguments
    | .element => g.element
    | .block => g.block

/-- The characters of a first line that names an interpreter. -/
def interpreterLine (cs : List Char) : Nat :=
  match cs with
  | '#' :: '!' :: _ => (cs.takeWhile fun c => !isLineEnd c).length
  | _ => 0

def program (statement : Reader Node) : Reader Node := do
  advance (interpreterLine (← place).rest)
  let statements ← many statement
  skipToOperand
  require (← place).rest.isEmpty
  node .program 0 statements

/-- How deep the rules may nest in a text: each character opens only a few of
them. -/
def nesting (cs : List Char) : Nat := 20 * (cs.length + 1) + 50

/-- The tree of a text, if all of the text follows the grammar. -/
def parse? (language : Language) (cs : List Char) : Option Node :=
  (program (parseRule language (nesting cs) .statement) (Place.start cs)).map Prod.fst

inductive ParseError where
  | unsupported (path : Path)
  | malformed (path : Path)

def ParseError.message : ParseError → String
  | .unsupported path => "unsupported language for '" ++ path.text ++ "'"
  | .malformed path => "parse error for '" ++ path.text ++ "': source contains syntax errors"

structure Source where
  language : Language
  text : List Char
  root : Node

def Source.ofFile (path : Path) (content : String) : Except ParseError Source :=
  match Language.ofPath? path with
  | none => .error (.unsupported path)
  | some language =>
    match parse? language content.toList with
    | some root => .ok ⟨language, content.toList, root⟩
    | none => .error (.malformed path)

end WebAudit.Script
