import WebAudit.Script.Grammar.Element
import WebAudit.Script.Grammar.Member

/-!
Expressions. An expression is a row of operands with operators between them;
how tightly operators bind does not matter to what the checks look at, so the
row is kept flat. An operand takes everything that belongs to it: signs in
front, members and calls behind, and an assignment to it.
-/

namespace WebAudit.Script.Grammar

open Reader

/-- The words that start a statement. They are no names of properties where a
brace could open a block. -/
def statementWords (g : Grammar) : List String :=
  ["if", "for", "while", "do", "switch", "try", "return", "throw", "break", "continue",
    "debugger", "with", "var", "const", "import", "function", "class", "new", "typeof", "void",
    "delete", "await", "yield", "this", "super", "true", "false", "null"] ++
    if g.language.isTyped then ["interface", "enum", "abstract"] else []

/-- Fails if the brace that comes next is followed by a word that starts a
statement. -/
def requireNoBlock (g : Grammar) : Reader Unit := do
  let before ← place
  symbol "\x7b"
  let first ← peekWord
  set before
  require (!(first.any g.statementWords.contains))

/-- An object in a place where a block is read first. -/
def objectInsteadOfBlock (g : Grammar) : Reader Node := do
  g.requireNoBlock
  let o ← g.object
  require (!o.isPatternOnly)
  return o

/-- The body of an arrow function: a block, or else an expression. -/
def arrowBody (g : Grammar) (mode : Mode) : Reader Node := do
  if ← sees "\x7b" then
    match ← attempt (g.rule .block) with
    | some b => return b
    | none => g.objectInsteadOfBlock
  else g.expression { mode with cover := false }

def arrowRest (g : Grammar) (s : Nat) (mode : Mode) : Reader Node := do
  let generics ← if g.language.isTyped && (← sees "<") then g.typeParameters else pure []
  let ps ← g.rule .parameters
  let result ←
    if g.language.isTyped && mode.returns && (← sees ":") then do
      symbol ":"
      g.returnType false
    else pure []
  symbol "=>"
  let body ← g.arrowBody mode
  node .arrowFunction s (generics ++ [ps] ++ result ++ [body])

/-- An arrow function with one parameter without parentheses. -/
def arrowOfName (g : Grammar) (s : Nat) (mode : Mode) : Reader Node := do
  let name ← identifier
  symbol "=>"
  let body ← g.arrowBody mode
  node .arrowFunction s [name, body]

def seesArrow : Reader Bool := sees "=>"

def parenthesized (g : Grammar) : Reader Node := do
  let s ← start
  symbol "("
  let e ← g.sequence {}
  let type ← g.declaredType false
  symbol ")"
  node .parenthesized s (e :: type)

/-- What opens with a parenthesis: an arrow function if an arrow follows, else
an expression in parentheses. -/
def parenthesis (g : Grammar) (mode : Mode) : Reader Node := do
  let s ← start
  let before ← place
  match ← attempt g.parenthesized with
  | none => g.arrowRest s mode
  | some e =>
    if ← seesArrow then
      set before
      g.arrowRest s mode
    else if g.language.isTyped && mode.returns && (← sees ":") then
      let after ← place
      set before
      match ← attempt (g.arrowRest s mode) with
      | some f => return f
      | none =>
        set after
        return e
    else return e

def functionExpression (g : Grammar) : Reader Node := do
  let s ← start
  let _ ← acceptWord "async"
  word "function"
  let star ← accept "*"
  let name ← if (← peekWord).isSome then do pure [← identifier] else pure []
  let sig ← g.signature false
  let body ← g.rule .block
  node (if star then .other else .functionExpression) s (name ++ sig ++ [body])

def asyncOperand (g : Grammar) (mode : Mode) : Reader Node := do
  let s ← start
  let before ← place
  let name ← identifier
  if mode.ends && (← g.endsHere true false) then return name
  else if ← seesWord "function" then
    set before
    g.functionExpression
  else
    let arrow : Reader Node := do
      if (← peekWord).isSome then g.arrowOfName s mode else g.arrowRest s mode
    match ← attempt arrow with
    | some f => return f
    | none =>
      if ← seesArrow then
        set before
        g.arrowOfName s mode
      else return name

/-- What a left angle bracket starts: an element, or in a typed language an
arrow function with type parameters or an assertion of a type. -/
def angleOperand (g : Grammar) (mode : Mode) : Reader Node := do
  let s ← start
  let arrow ← if g.language.isTyped then attempt (g.arrowRest s mode) else pure none
  match arrow with
  | some f => return f
  | none =>
    if g.language.hasMarkup then g.rule .element
    else
      let type ← g.typeArguments
      let e ← g.expression { ends := mode.ends, returns := mode.returns }
      node .operation s [type, e]

def memberOf (s : Nat) (object : Node) : Reader Node := do
  let name ← if ← sees "#" then privateName else do pure ((← identifier).withKind .other)
  node .member s [object.withRole .object, name.withRole .property]

def subscriptOf (g : Grammar) (s : Nat) (object : Node) : Reader Node := do
  symbol "["
  let index ← g.sequence {}
  symbol "]"
  node .subscript s [object.withRole .object, index]

def callOf (g : Grammar) (s : Nat) (callee : Node) (generics : List Node) : Reader Node := do
  let args ← g.rule .arguments
  node .call s ([callee.withRole .callee] ++ generics ++ [args.withRole .arguments])

def templateCallOf (g : Grammar) (s : Nat) (callee : Node) : Reader Node := do
  let t ← g.templateLiteral
  node .call s [callee.withRole .callee, t.withRole .arguments]

/-- Whether a node may take a template or an optional call behind it. -/
def isPrimary (n : Node) : Bool :=
  match n.kind with
  | .update => false
  | .operation => false
  | .assignment => false
  | .element => false
  | _ => true

/-- Whether an optional chain comes next. A digit after it makes it a
condition. -/
def seesChain (g : Grammar) : Reader Bool := do
  match Text.after? "?.".toList (← ahead) with
  | some (c :: _) => return g.language.isTyped || !c.isDigit
  | some [] => return true
  | none => return false

/-- Whether what follows type arguments shows that they are no comparison. -/
def endsInstantiation (g : Grammar) (mode : Mode) : Reader Bool := do
  match ← peek with
  | none => return true
  | some c =>
    if ")],;:\x7d\x7b.?=|&".toList.contains c then return true
    else return mode.ends && (← g.endsHere true false)

/-- Type arguments behind an operand, with the call that they belong to. -/
def genericSuffix (g : Grammar) (mode : Mode) (s : Nat) (n : Node) : Reader Node := do
  let types ← g.typeArguments
  if ← sees "(" then g.callOf s n [types]
  else
    require (← g.endsInstantiation mode)
    node .operation s [n, types]

/-- One more piece behind an operand: a member, an item, a call, a step up or
down, or in a typed language the claim that there is a value. -/
def suffix (g : Grammar) (mode : Mode) (calls : Bool) (s : Nat) (n : Node) : Reader Node := do
  match ← ahead with
  | '.' :: c :: _ =>
    require (!c.isDigit)
    symbol "."
    memberOf s n
  | '[' :: _ => g.subscriptOf s n
  | '(' :: _ =>
    require calls
    g.callOf s n []
  | '`' :: _ =>
    require (isPrimary n)
    g.templateCallOf s n
  | '?' :: _ =>
    require (← g.seesChain)
    symbol "?."
    match ← peek with
    | some '[' => g.subscriptOf s n
    | some '(' =>
      require (isPrimary n)
      g.callOf s n []
    | some '<' =>
      require (g.language.isTyped && isPrimary n)
      let types ← g.typeArguments
      g.callOf s n [types]
    | _ => memberOf s n
  | '+' :: '+' :: _ =>
    require calls
    require (!(mode.ends && (← g.endsHere true false)))
    symbol "++"
    node .update s [n]
  | '-' :: '-' :: _ =>
    require calls
    require (!(mode.ends && (← g.endsHere true false)))
    symbol "--"
    node .update s [n]
  | '!' :: rest =>
    require (g.language.isTyped && rest.head? != some '=')
    require (!(mode.ends && (← g.endsHere true false)))
    symbol "!"
    node .nonNull s [n]
  | '<' :: _ =>
    require (g.language.isTyped && calls)
    g.genericSuffix mode s n
  | _ => failure

/-- Whether a failed piece behind an operand makes the whole operand fail. -/
def mustRead (calls : Bool) (n : Node) : Reader Bool := do
  match ← ahead with
  | '[' :: _ => return true
  | '(' :: _ => return calls
  | '`' :: _ => return isPrimary n
  | _ => return false

def suffixes (g : Grammar) (mode : Mode) (calls : Bool) (s : Nat) : Nat → Node → Reader Node
  | 0, n => return n
  | fuel + 1, n => do
    match ← attempt (g.suffix mode calls s n) with
    | some m => suffixes g mode calls s fuel m
    | none =>
      require (!(← mustRead calls n))
      return n

def withSuffixes (g : Grammar) (mode : Mode) (calls : Bool) (s : Nat) (n : Node) : Reader Node := do
  g.suffixes mode calls s ((← place).rest.length + 1) n

def classOperand (g : Grammar) : Reader Node := do
  let s ← start
  let decorators ← many g.decorator
  g.classRest s decorators true

/-- An array or an object in the place of an operand. If it can only be a
pattern, an assignment has to follow, or the operand may still become one. -/
def literalOperand (g : Grammar) (mode : Mode) : Reader Node := do
  let n ← g.literal
  if n.isPatternOnly && !mode.cover then require (← seesNot "=" "=>")
  return n

def wordAtom (g : Grammar) (mode : Mode) (s : Nat) (w : String) : Reader Node := do
  let plain : Reader Node := do
    word w
    node .other s []
  match w with
  | "function" => g.functionExpression
  | "class" => g.classOperand
  | "async" => g.asyncOperand mode
  | "this" => plain
  | "super" => plain
  | "true" => plain
  | "false" => plain
  | "null" => plain
  | "undefined" =>
    word w
    node .undefined s []
  | "import" =>
    word w
    require ((← sees "(") || (← sees ".") || (g.language.isTyped && (← sees "<")))
    node .other s []
  | _ =>
    let before ← place
    let name ← identifier
    if ← seesArrow then
      set before
      g.arrowOfName s mode
    else return name

def atom (g : Grammar) (mode : Mode) : Reader Node := do
  skipToOperand
  let s ← start
  match ← peek with
  | some '(' => g.parenthesis mode
  | some '[' => g.literalOperand mode
  | some '\x7b' => g.literalOperand mode
  | some '"' => string
  | some '\'' => string
  | some '`' => g.templateLiteral
  | some '/' => regex
  | some '<' => g.angleOperand mode
  | some '@' => g.classOperand
  | some '#' =>
    let name ← privateName
    require (← seesWord "in")
    return name
  | some c =>
    if c.isDigit || c == '.' then number
    else
      match ← peekWord with
      | some w => g.wordAtom mode s w
      | none => failure
  | none => failure

/-- A construction: the word, what is constructed, and its arguments if there
are any. -/
def construct (g : Grammar) (constructRule : Reader Node) : Reader Node := do
  let s ← start
  word "new"
  if ← sees "." then
    symbol "."
    word "target"
    node .other s []
  else
    let inner ← start
    let base ←
      if ← seesWord "new" then constructRule
      else g.atom {}
    let callee ← g.withSuffixes {} false inner base
    let generics ←
      if g.language.isTyped && (← sees "<") then do
        let ts ← attempt g.typeArguments
        pure ts.toList
      else pure []
    let args ← if ← sees "(" then do pure [(← g.rule .arguments).withRole .arguments] else pure []
    node .construct s ([callee.withRole .callee] ++ generics ++ args)

/-- Constructions nest at most `fuel` deep. -/
def constructs (g : Grammar) : Nat → Reader Node
  | 0 => failure
  | fuel + 1 => g.construct (constructs g fuel)

/-- The signs that assign to a place besides the plain one. -/
def augmentedSigns : List String :=
  [">>>=", "**=", "&&=", "||=", "??=", ">>=", "<<=", "+=", "-=", "*=", "/=", "%=", "^=", "&=",
    "|="]

def firstSeen (texts : List String) : Reader (Option String) := do
  let cs ← ahead
  return texts.find? fun t => Text.startsWith t.toList cs

/-- An assignment to an operand, if a sign of one follows. -/
def assignmentTo (g : Grammar) (mode : Mode) (s : Nat) (n : Node) : Reader Node := do
  let value : Reader Node := g.expression { mode with cover := false }
  if ← seesNot "=" "=>" then
    let isLiteral := n.kind == .array || n.kind == .object
    if n.isTarget || n.kind == .parenthesized || (isLiteral && n.isPattern) then
      symbol "="
      let v ← value
      node .assignment s [if isLiteral then n.withKind .pattern else n, v]
    else return n
  else if (n.isTarget && n.kind != .undefined) || n.kind == .parenthesized then
    match ← firstSeen augmentedSigns with
    | some sign =>
      symbol sign
      let v ← value
      node .operation s [n, v]
    | none => return n
  else return n

def unaryWords : List String := ["typeof", "void", "delete", "await"]

/-- An operand with signs in front of it, of which there are at most `fuel`. -/
def operandFrom (g : Grammar) (mode : Mode) : Nat → Reader Node
  | 0 => failure
  | fuel + 1 => do
    skipToOperand
    let s ← start
    let signed (sign : Reader Unit) (kind : Kind) : Reader Node := do
      sign
      let e ← operandFrom g { mode with cover := false } fuel
      node kind s [e]
    let plain : Reader Node := do
      let a ← g.atom mode
      let n ← g.withSuffixes mode true s a
      g.assignmentTo mode s n
    match ← ahead with
    | '+' :: '+' :: _ => signed (symbol "++") .update
    | '-' :: '-' :: _ => signed (symbol "--") .update
    | '!' :: _ => signed (symbol "!") .operation
    | '~' :: _ => signed (symbol "~") .operation
    | '+' :: _ => signed (symbol "+") .operation
    | '-' :: _ => signed (symbol "-") .operation
    | _ =>
      match ← peekWord with
      | some w =>
        if unaryWords.contains w then signed (word w) .operation
        else if w == "yield" then
          word w
          if mode.ends && (← g.endsHere true false) then node .operation s []
          else
            let star ← accept "*"
            match ← attempt (g.expression { mode with cover := false }) with
            | some e => node .operation s [e]
            | none =>
              require (!star)
              node .operation s []
        else if w == "new" then
          let n ← g.constructs ((← place).rest.length + 1)
          let m ← g.withSuffixes mode true s n
          g.assignmentTo mode s m
        else plain
      | none => plain

def operand (g : Grammar) (mode : Mode) : Reader Node := do
  g.operandFrom mode ((← place).rest.length + 1)

def operators : List String :=
  [">>>", "===", "!==", "**", "&&", "||", "??", ">>", "<<", "<=", ">=", "==", "!=", "&", "^",
    "|", "+", "-", "*", "/", "%", "<", ">"]

def seesOperator (g : Grammar) (mode : Mode) : Reader (Option String) := do
  if (← sees "++") || (← sees "--") then return none
  else
    match ← firstSeen operators with
    | some o => return some o
    | none =>
      match ← peekWord with
      | some w =>
        if w == "in" || w == "instanceof" then return some w
        else if g.language.isTyped && (w == "as" || w == "satisfies") &&
          !(mode.ends && (← g.endsHere true false)) then return some w
        else return none
      | none => return none

def operation (g : Grammar) (mode : Mode) : Reader Node := do
  match ← g.seesOperator mode with
  | some o =>
    symbol o
    if o == "as" then
      if ← seesWord "const" then
        let s ← start
        word "const"
        node .other s []
      else g.rule (.type mode.ends)
    else if o == "satisfies" then g.rule (.type mode.ends)
    else g.operand { mode with cover := false }
  | none => failure

def seesCondition (g : Grammar) : Reader Bool := do
  match ← ahead with
  | '?' :: rest =>
    match rest with
    | '?' :: _ => return false
    | '.' :: d :: _ => return !g.language.isTyped && d.isDigit
    | '.' :: [] => return false
    | _ =>
      if g.language.isTyped then
        match (rest.dropWhile isPlainBlank).head? with
        | some c => return c != ':' && c != ')' && c != ','
        | none => return true
      else return true
  | _ => return false

/-- The two branches of a condition. In a typed language the first branch is
read again without return types if the colon is missing. -/
def branches (g : Grammar) (mode : Mode) : Reader (List Node) := do
  let read (inner : Mode) : Reader (List Node) := do
    let yes ← g.expression inner
    symbol ":"
    let no ← g.expression { mode with cover := false }
    return [yes, no]
  symbol "?"
  match ← attempt (read {}) with
  | some ns => return ns
  | none =>
    require g.language.isTyped
    read { returns := false }

/-- An expression: operands and operators, and a condition behind them. -/
def expressionBody (g : Grammar) (mode : Mode) : Reader Node := do
  skipToOperand
  let s ← start
  let first ← g.operand mode
  if mode.cover && first.isPatternOnly then return first
  else
    let more ← many (g.operation mode)
    let condition ← if ← g.seesCondition then g.branches mode else pure []
    if more.isEmpty && condition.isEmpty then return first
    else node .operation s (first :: more ++ condition)

end WebAudit.Script.Grammar
