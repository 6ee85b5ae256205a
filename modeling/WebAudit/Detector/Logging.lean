import WebAudit.Detector.Context
import WebAudit.Finding.Basic
import WebAudit.Report.Policy
import WebAudit.Text.Pattern

/-!
Errors and sensitive data that are handed to loggers.
-/

namespace WebAudit.Logging

open Script Text

def rawErrorKind : String := "Unsanitized Error Logging"

def loggerObjects : List String := ["console", "logger", "log", "winston", "pino", "bunyan"]

def loggerMethods : List String := ["log", "info", "warn", "error", "debug", "trace", "fatal"]

def errorNames : List String := ["err", "error", "e", "ex", "exception"]

def sensitiveWord : Pattern :=
  let mark := Pattern.optional (.oneOf "_-")
  .choice
    [.anyCase "password", .anyCase "passwd", .anyCase "secret", .anyCase "token",
      .anyCase "api" ++ mark ++ .anyCase "key", .boundary ++ .anyCase "key" ++ .boundary,
      .anyCase "credential", .anyCase "email", .anyCase "ssn",
      .anyCase "social" ++ mark ++ .anyCase "security",
      .anyCase "credit" ++ mark ++ .anyCase "card",
      .anyCase "card" ++ mark ++ .anyCase "number",
      .anyCase "cvv", .anyCase "authorization",
      .anyCase "private" ++ mark ++ .anyCase "key",
      .anyCase "session" ++ mark ++ .anyCase "id"]

def isOneOf (names : List String) (text : List Char) : Bool := names.contains (String.ofList text)

def isLoggerCall (callee : Callee) : Bool :=
  callee.objectName?.any (isOneOf loggerObjects) && callee.property?.any (isOneOf loggerMethods)

def isRawError (text : List Char) (n : Node) : Bool :=
  match n.kind with
  | .identifier => isOneOf errorNames (n.text text)
  | .member => (n.child? .property).any fun p => p.text text == "stack".toList
  | _ => false

/-- Whether an argument is a member of a logger that writes to its log. -/
def isLoggerReference (text : List Char) (n : Node) : Bool :=
  n.kind == .member &&
    ((n.child? .object).any fun o => isOneOf loggerObjects (Text.afterLast '.' (o.text text))) &&
    ((n.child? .property).any fun p => isOneOf loggerMethods (p.text text))

inductive Offence where
  | handler (logger : List Char)
  | rawError (logger : List Char)
  | sensitive (logger word : List Char)
  deriving DecidableEq, Repr

namespace Offence

def kind : Offence → String
  | .sensitive .. => sensitiveDataKind
  | _ => rawErrorKind

def severity : Offence → Severity
  | .sensitive .. => .medium
  | _ => .low

def message : Offence → String
  | .handler logger =>
    "Rejected promise is passed directly to `" ++ String.ofList logger ++ "`"
  | .rawError _ => "Raw error object or stack trace is logged"
  | .sensitive _ hit =>
    "Log statement may include sensitive data (`" ++ String.ofList hit ++ "`)"

def advice : Offence → String
  | .sensitive .. => "Mask or omit personal data and credentials before logging"
  | _ =>
    "Log a sanitized message (e.g. `err.message` plus an error id) instead of the raw error " ++
      "or stack trace"

def logger : Offence → List Char
  | .handler logger => logger
  | .rawError logger => logger
  | .sensitive logger _ => logger

end Offence

/-- The logger that a rejected promise is handed to. -/
def handler? (text : List Char) (call : Call) : Option Offence :=
  match call.argument? 0 with
  | some first =>
    if call.callee.property? == some "catch".toList && isLoggerReference text first then
      some (.handler (first.text text))
    else none
  | none => none

def sensitive? (text : List Char) (call : Call) : Option (List Char) :=
  call.arguments.findSome? fun n => (sensitiveWord.find? (n.text text)).map Match.text

/-- What a call does wrong, in the order in which it is reported. -/
def offences (text : List Char) (call : Call) : List Offence :=
  let logger := call.callee.objectName?.getD []
  let logged :=
    if isLoggerCall call.callee then
      (if (call.argument? 0).any (isRawError text) then [.rawError logger] else []) ++
        (sensitive? text call).toList.map (.sensitive logger)
    else []
  (handler? text call).toList ++ logged

def report (path : Path) (line : Nat) (o : Offence) : Finding :=
  ((Finding.new .logging o.kind o.severity (.atLine path line) o.message).withDetails
    o.advice).withPayload (.library (String.ofList o.logger))

def inScript (path : Path) (lines : List (List Char)) (source : Source) : List Finding :=
  let all := source.calls.flatMap fun call =>
    if isSuppressedAt lines call.line then []
    else (offences source.text call).map fun o => (call.line, o)
  (firstOfEach (fun (line, o) => (line, o.kind)) all).map fun (line, o) => report path line o

/-- The findings of a file. A project without server code has no log that
matters. -/
def detect (ctx : FileContext) : List Finding :=
  if ctx.technologies.isFrontendOnly then []
  else
    match ctx.script? with
    | some source => inScript ctx.path ctx.lines source
    | none => []

end WebAudit.Logging
