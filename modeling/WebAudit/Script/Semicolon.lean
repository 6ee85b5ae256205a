import WebAudit.Script.Lexeme

/-!
Automatic semicolons: where a statement may end without one being written.
The decision looks at the line break after the statement and at the token that
follows it.
-/

namespace WebAudit.Script

/-- What the decision depends on besides the text: the language, whether an
operator may follow here, and whether the body of a function may. -/
structure SemicolonContext where
  language : Language
  operator : Bool
  body : Bool := false

/-- The blanks that the decision passes over. -/
def isPlainBlank (c : Char) : Bool := Text.isAsciiBlank c

def breaksLine (language : Language) (c : Char) : Bool :=
  c == '\n' || (!language.isTyped && (c.toNat == 0x2028 || c.toNat == 0x2029))

/-- Whether a text goes on with a keyword and no further letter. -/
def goesOnWith (word cs : List Char) : Bool :=
  match Text.after? word cs with
  | some (c :: _) => !c.isAlpha
  | some [] => true
  | none => false

/-- Whether a semicolon may be put before the token at the start of the next
line. -/
def mayPrecede (ctx : SemicolonContext) (cs : List Char) : Bool :=
  match cs with
  | [] => true
  | c :: rest =>
    let next := rest.head?
    if "`,:;*%><=?^|&/".toList.contains c then false
    else if c == '[' || c == '(' then ctx.language.isTyped && !ctx.operator
    else if c == '\x7b' then !(ctx.language.isTyped && ctx.body)
    else if c == '.' then !ctx.language.isTyped && (next.map Char.isDigit).getD false
    else if c == '+' || c == '-' then next == some c
    else if c == '!' then next != some '='
    else if c == 'i' then !(goesOnWith "in".toList cs || goesOnWith "instanceof".toList cs)
    else true

/-- Whether a closing brace ends a statement. In a typed language it does not
before a colon, unless an operator may follow. -/
def braceEnds (ctx : SemicolonContext) (rest : List Char) : Bool :=
  if ctx.language.isTyped && (rest.dropWhile isPlainBlank).head? == some ':' then ctx.operator
  else true

/-- Where the decision stands: still on the line of the statement, or beyond
its line break (`beyond`), in a blank or in a comment. -/
inductive SemicolonState where
  | sameLine
  | afterBlock
  | slash (beyond : Bool)
  | line (beyond : Bool)
  | afterLine
  | block (beyond broken star : Bool)
  | nextLine

/-- Whether a comment with a line break ends the statement: no operator may
follow, and the text does not go on with a comma or an equals sign. -/
def commentEndsStatement (ctx : SemicolonContext) (cs : List Char) : Bool :=
  !ctx.operator && cs.head? != some ',' && cs.head? != some '='

/-- Whether a semicolon is inserted, by the text from a state on. -/
def inserts (ctx : SemicolonContext) : SemicolonState → List Char → Bool
  | .sameLine, [] => true
  | .afterBlock, [] => false
  | .slash _, [] => false
  | .line beyond, [] => beyond || commentEndsStatement ctx []
  | .afterLine, [] => commentEndsStatement ctx []
  | .block .., [] => false
  | .nextLine, [] => true
  | .sameLine, c :: cs =>
    if c == '/' then inserts ctx (.slash false) cs
    else if c == '\x7d' then braceEnds ctx cs
    else if breaksLine ctx.language c then inserts ctx .nextLine cs
    else if isPlainBlank c then inserts ctx .sameLine cs
    else false
  | .afterBlock, c :: cs =>
    if c == '\x7d' then braceEnds ctx cs
    else if breaksLine ctx.language c then inserts ctx .nextLine cs
    else if isPlainBlank c then inserts ctx .sameLine cs
    else false
  | .slash beyond, c :: cs =>
    if c == '/' then inserts ctx (.line beyond) cs
    else if c == '*' then inserts ctx (.block beyond false false) cs
    else false
  | .line beyond, c :: cs =>
    if c == '\n' then inserts ctx (if beyond then .nextLine else .afterLine) cs
    else inserts ctx (.line beyond) cs
  | .afterLine, c :: cs =>
    if isPlainBlank c then inserts ctx .afterLine cs
    else if c == '/' then inserts ctx (.slash false) cs
    else commentEndsStatement ctx (c :: cs) || (c == '\x7d' && braceEnds ctx cs)
  | .block beyond broken star, c :: cs =>
    if star && c == '/' then
      if beyond then inserts ctx .nextLine cs
      else if cs.head? == some '/' then inserts ctx .afterLine cs
      else if broken && commentEndsStatement ctx cs then true
      else inserts ctx .afterBlock cs
    else inserts ctx (.block beyond (broken || breaksLine ctx.language c) (c == '*')) cs
  | .nextLine, c :: cs =>
    if isPlainBlank c then inserts ctx .nextLine cs
    else if c == '/' then inserts ctx (.slash true) cs
    else mayPrecede ctx (c :: cs)

/-- Whether a semicolon is inserted at a place, which may also be the place
after one of the comments that follow. -/
def Place.endsStatement (ctx : SemicolonContext) (s : Place) : Bool :=
  inserts ctx .sameLine s.rest ||
    (commentEnds .blank s.rest s.index).any fun t => inserts ctx .sameLine t.rest

end WebAudit.Script
