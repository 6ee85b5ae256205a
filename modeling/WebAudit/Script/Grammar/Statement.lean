import WebAudit.Script.Grammar.Declaration

/-!
Statements and blocks.
-/

namespace WebAudit.Script.Grammar

open Reader

def block (g : Grammar) : Reader Node := do
  let s ← start
  symbol "\x7b"
  let inner ← many do
    require (!(← sees "\x7d"))
    g.rule .statement
  symbol "\x7d"
  node .other s inner

def expressionStatement (g : Grammar) : Reader Node := do
  let s ← start
  let e ← g.sequence { ends := true }
  g.semicolon true
  node .other s [e]

/-- A statement that is complete, or else the longer expression that starts with
the same text. A token that can start no statement tells them apart. -/
def preferLonger (complete longer : Reader Node) : Reader Node := do
  let before ← place
  let n ← complete
  match ← peek with
  | some c =>
    if ".,?=*%&|^".toList.contains c then
      let after ← place
      set before
      match ← attempt longer with
      | some e => return e
      | none =>
        set after
        return n
    else return n
  | none => return n

/-- What opens with a brace: a block, or else an expression. -/
def bracedStatement (g : Grammar) : Reader Node := do
  let longer : Reader Node := do
    g.requireNoBlock
    g.expressionStatement
  match ← attempt (preferLonger g.block longer) with
  | some n => return n
  | none => longer

def ifStatement (g : Grammar) : Reader Node := do
  let s ← start
  word "if"
  let condition ← g.parenthesized
  let yes ← g.rule .statement
  let no ← if ← acceptWord "else" then do pure [← g.rule .statement] else pure []
  node .other s ([condition, yes] ++ no)

def whileStatement (g : Grammar) : Reader Node := do
  let s ← start
  word "while"
  let condition ← g.parenthesized
  let body ← g.rule .statement
  node .other s [condition, body]

def doStatement (g : Grammar) : Reader Node := do
  let s ← start
  word "do"
  let body ← g.rule .statement
  word "while"
  let condition ← g.parenthesized
  let _ ← accept ";"
  node .other s [body, condition]

/-- What a loop over items assigns them to. -/
def loopTarget (g : Grammar) : Reader Node := do
  let declared : Reader Node := do
    let w ← anyWord
    require (w == "var" || w == "let" || w == "const")
    let name ← g.binding
    let type ← g.declaredType false
    require ((← seesWord "in") || (← seesWord "of"))
    node .other name.start (name :: type)
  match ← attempt declared with
  | some n => return n
  | none =>
    let s ← start
    let a ← g.atom { cover := true }
    let n ← g.withSuffixes {} true s a
    require (n.isTarget || n.kind == .parenthesized ||
      ((n.kind == .array || n.kind == .object) && n.isPattern))
    return n

def itemsHead (g : Grammar) : Reader (List Node) := do
  symbol "("
  let target ← g.loopTarget
  if !(← acceptWord "of") then word "in"
  let e ← g.sequence {}
  symbol ")"
  return [target, e]

/-- An expression and a semicolon, or only the semicolon. -/
def optionalClause (g : Grammar) : Reader (List Node) := do
  if ← accept ";" then return []
  else
    let e ← g.sequence {}
    symbol ";"
    return [e]

def stepsHead (g : Grammar) : Reader (List Node) := do
  symbol "("
  let first ←
    match ← peekWord with
    | some w =>
      if w == "var" || w == "const" || (w == "let" && (← g.letDeclares)) then
        pure [← g.variableDeclaration]
      else g.optionalClause
    | none => g.optionalClause
  let condition ← g.optionalClause
  let step ← if ← sees ")" then pure [] else do pure [← g.sequence {}]
  symbol ")"
  return first ++ condition ++ step

def forStatement (g : Grammar) : Reader Node := do
  let s ← start
  word "for"
  let waits ← acceptWord "await"
  let head ← match ← attempt g.itemsHead with
    | some h => pure h
    | none =>
      require (!waits)
      g.stepsHead
  let body ← g.rule .statement
  node .other s (head ++ [body])

def switchCase (g : Grammar) : Reader (List Node) := do
  let guard ←
    if ← acceptWord "default" then pure []
    else do
      word "case"
      pure [← g.sequence {}]
  symbol ":"
  let body ← many do
    require (!(← sees "\x7d") && !(← seesWord "case") && !(← seesWord "default"))
    g.rule .statement
  return guard ++ body

def switchStatement (g : Grammar) : Reader Node := do
  let s ← start
  word "switch"
  let subject ← g.parenthesized
  symbol "\x7b"
  let cases ← many g.switchCase
  symbol "\x7d"
  node .other s (subject :: cases.flatten)

def tryStatement (g : Grammar) : Reader Node := do
  let s ← start
  word "try"
  let body ← g.rule .block
  let handler ←
    if ← acceptWord "catch" then do
      let parameter ←
        if ← accept "(" then do
          let p ← g.binding
          let type ← g.declaredType false
          symbol ")"
          pure (p :: type)
        else pure []
      pure (parameter ++ [← g.rule .block])
    else pure []
  let finalizer ← if ← acceptWord "finally" then do pure [← g.rule .block] else pure []
  node .other s ([body] ++ handler ++ finalizer)

def withStatement (g : Grammar) : Reader Node := do
  let s ← start
  word "with"
  let subject ← g.parenthesized
  let body ← g.rule .statement
  node .other s [subject, body]

/-- A return, with a value if the statement does not end first. -/
def returnStatement (g : Grammar) : Reader Node := do
  let s ← start
  word "return"
  if ← g.endsHere false false then node .other s []
  else if ← accept ";" then node .other s []
  else
    let e ← g.sequence { ends := true }
    g.semicolon true
    node .other s [e]

def jumpStatement (g : Grammar) : Reader Node := do
  let s ← start
  let _ ← anyWord
  if !(← g.endsHere false false) && (← peekWord).isSome then
    let _ ← anyWord
  g.semicolon false
  node .other s []

def throwStatement (g : Grammar) : Reader Node := do
  let s ← start
  word "throw"
  let e ← g.sequence { ends := true }
  g.semicolon true
  node .other s [e]

def labelled (g : Grammar) : Reader Node := do
  let s ← start
  let _ ← anyWord
  symbol ":"
  let body ← g.rule .statement
  node .other s [body]

def decoratedStatement (g : Grammar) : Reader Node := do
  let s ← start
  let before ← place
  let decorators ← many g.decorator
  if ← seesWord "export" then g.exportDeclaration s decorators
  else if (← seesWord "abstract") || (← g.seesClassDeclaration) then g.declaration s decorators
  else
    set before
    g.expressionStatement

/-- A statement that starts with a word which is no reserved one. -/
def plainWordStatement (g : Grammar) (s : Nat) (w : String) : Reader Node := do
  let isLabel ← wouldRead do
    let _ ← anyWord
    symbol ":"
  if isLabel && !operandWords.contains w then g.labelled
  else if w == "let" && (← g.letDeclares) then g.variableDeclaration
  else if g.language.isTyped && ["type", "namespace", "module", "declare"].contains w then
    match ← attempt (g.declaration s []) with
    | some n => return n
    | none => g.expressionStatement
  else g.expressionStatement

def wordStatement (g : Grammar) (s : Nat) (w : String) : Reader Node := do
  match w with
  | "if" => g.ifStatement
  | "for" => g.forStatement
  | "while" => g.whileStatement
  | "do" => g.doStatement
  | "switch" => g.switchStatement
  | "try" => g.tryStatement
  | "with" => g.withStatement
  | "return" => g.returnStatement
  | "throw" => g.throwStatement
  | "break" => g.jumpStatement
  | "continue" => g.jumpStatement
  | "debugger" =>
    word w
    g.semicolon false
    node .other s []
  | "var" => g.variableDeclaration
  | "const" => g.declaration s []
  | "import" => if ← g.importDeclares then g.importDeclaration else g.expressionStatement
  | "export" =>
    match ← attempt (g.exportDeclaration s []) with
    | some n => return n
    | none => g.plainWordStatement s w
  | "function" =>
    if ← g.seesFunctionDeclaration then
      preferLonger g.functionDeclaration g.expressionStatement
    else g.expressionStatement
  | "async" =>
    if ← g.seesFunctionDeclaration then
      preferLonger g.functionDeclaration g.expressionStatement
    else g.plainWordStatement s w
  | "class" =>
    if ← g.seesClassDeclaration then
      preferLonger (g.classDeclaration s []) g.expressionStatement
    else g.expressionStatement
  | _ =>
    if g.language.isTyped && ["abstract", "interface", "enum"].contains w then g.declaration s []
    else g.plainWordStatement s w

def statement (g : Grammar) : Reader Node := do
  skipToOperand
  let s ← start
  match ← peek with
  | some '\x7b' => g.bracedStatement
  | some ';' =>
    symbol ";"
    node .other s []
  | some '@' => g.decoratedStatement
  | _ =>
    match ← peekWord with
    | some w => g.wordStatement s w
    | none => g.expressionStatement

end WebAudit.Script.Grammar
