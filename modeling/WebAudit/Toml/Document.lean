import WebAudit.Text.Basic
import WebAudit.Toml.Statement

/-!
TOML documents. Reading takes the statements of a text and builds the table
they describe. Writing lays out tables one after the other, each with a header
and a line for every key.
-/

namespace WebAudit.Toml

structure Builder where
  root : Table := {}
  current : KeyPath := []

def Builder.step? (b : Builder) : Statement → Option Builder
  | .table path => (b.root.openTable? path).map fun t => ⟨t, path⟩
  | .element path => (b.root.openElement? path).map fun t => ⟨t, path⟩
  | .assign path v => (b.root.update false (Table.assign? path v) b.current).map fun t => ⟨t, b.current⟩

def ofStatements? (statements : List Statement) : Option (List (String × Value)) :=
  (statements.foldlM Builder.step? {}).map fun b => b.root.values

def parse? (text : String) : Option (List (String × Value)) :=
  (statements? text.toList).bind ofStatements?

/-- The text of a float: the fewest digits that read back, without an exponent. -/
def floatText (x : Number.Binary) : String :=
  match x with
  | .nan => "nan"
  | .infinite _ => Number.plainText .double x
  | .finite .. =>
    let text := Number.plainText .double x
    if text.toList.contains '.' then text else text ++ ".0"

mutual

/-- The text of a value. An array of two items or more has a line for each. -/
def Value.text : Value → String
  | .string s => String.ofList (quote s.toList)
  | .integer n => toString n
  | .float x => floatText x
  | .boolean b => if b then "true" else "false"
  | .datetime s => s
  | .array items =>
    match items with
    | [] => "[]"
    | [v] => "[" ++ v.text ++ "]"
    | items => "[" ++ Value.itemLines items ++ "\n]"
  | .table entries => "\x7b " ++ Value.pairsText entries ++ " \x7d"

def Value.itemLines : List Value → String
  | [] => ""
  | v :: rest => "\n    " ++ v.text ++ "," ++ Value.itemLines rest

def Value.pairsText : List (String × Value) → String
  | [] => ""
  | [(name, v)] => name ++ " = " ++ v.text
  | (name, v) :: rest => name ++ " = " ++ v.text ++ ", " ++ Value.pairsText rest

end

structure Block where
  path : KeyPath
  isElement : Bool := false
  entries : List (String × Value)

namespace Block

def header (b : Block) : String :=
  let name := Text.join "." b.path
  if b.isElement then "[[" ++ name ++ "]]\n" else "[" ++ name ++ "]\n"

def text (b : Block) : String :=
  b.header ++ String.join (b.entries.map fun (name, v) => name ++ " = " ++ v.text ++ "\n")

def statements (b : Block) : List Statement :=
  (if b.isElement then .element b.path else .table b.path) ::
    b.entries.map fun (name, v) => .assign [name] v

/-- The text of tables one after the other, with an empty line between them. -/
def document (blocks : List Block) : String := Text.join "\n" (blocks.map text)

end Block

end WebAudit.Toml
