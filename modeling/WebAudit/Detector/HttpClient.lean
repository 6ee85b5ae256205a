import WebAudit.Detector.Context
import WebAudit.Finding.Basic

/-!
Requests that are made without a limit on their time. The calls of common
clients are recognised by what is called; the argument with the options of the
request decides.
-/

namespace WebAudit.HttpClient

open Script

def missingTimeoutKind : String := "Missing Request Timeout"

/-- Properties that bound the time of a request. -/
def timeoutKeys : List String := ["timeout", "signal", "cancelToken"]

/-- Objects that have the global function for requests as a member. -/
def fetchHosts : List String := ["window", "globalThis", "global", "self"]

inductive OptionsPlace where
  /-- At a fixed position. -/
  | at (index : Nat)
  /-- First if the first argument is an object, else second. -/
  | firstObjectOrSecond
  deriving DecidableEq, Repr

structure ClientCall where
  library : String
  options : OptionsPlace
  deriving DecidableEq, Repr

def ofName? (name : String) : Option ClientCall :=
  match name with
  | "fetch" => some ⟨"fetch", .at 1⟩
  | "$fetch" => some ⟨"fetch", .at 1⟩
  | "ofetch" => some ⟨"fetch", .at 1⟩
  | "axios" => some ⟨"axios", .firstObjectOrSecond⟩
  | "got" => some ⟨"got", .firstObjectOrSecond⟩
  | "ky" => some ⟨"ky", .at 1⟩
  | "request" => some ⟨"request", .firstObjectOrSecond⟩
  | _ => none

def ofMember? (object property : String) : Option ClientCall :=
  let sends := ["get", "post", "put", "patch", "delete", "head"].contains property
  if property == "fetch" && fetchHosts.contains object then some ⟨"fetch", .at 1⟩
  else
    match object with
    | "axios" =>
      if ["get", "delete", "head", "options"].contains property then some ⟨"axios", .at 1⟩
      else if ["post", "put", "patch"].contains property then some ⟨"axios", .at 2⟩
      else if ["request", "create"].contains property then some ⟨"axios", .at 0⟩
      else none
    | "got" => if sends then some ⟨"got", .firstObjectOrSecond⟩ else none
    | "ky" => if sends then some ⟨"ky", .at 1⟩ else none
    | "http" =>
      if ["get", "request"].contains property then some ⟨"http", .firstObjectOrSecond⟩ else none
    | "https" =>
      if ["get", "request"].contains property then some ⟨"https", .firstObjectOrSecond⟩ else none
    | _ => none

def classify? (callee : Callee) : Option ClientCall :=
  match callee with
  | .name text => ofName? (String.ofList text)
  | .member .. =>
    match callee.objectName?, callee.property? with
    | some object, some property => ofMember? (String.ofList object) (String.ofList property)
    | _, _ => none
  | .other => none

/-- The position of the options among the arguments of a call. -/
def optionsIndex (call : Call) : OptionsPlace → Nat
  | .at index => index
  | .firstObjectOrSecond =>
    if (call.argument? 0).any fun n => n.kind == .object then 0 else 1

/-- Whether options bound the time of a request; none if that cannot be told. -/
def bounds? (text : List Char) (options : Node) : Option Bool :=
  match options.shape? text with
  | some shape =>
    if shape.hasAny timeoutKeys then some true
    else if shape.hasSpread then none
    else some false
  | none =>
    if options.kind == .arrowFunction || options.kind == .functionExpression then some false
    else none

/-- Whether a call bounds the time of its request; none if that cannot be
told. A call without options does not. -/
def hasTimeout? (text : List Char) (call : Call) (place : OptionsPlace) : Option Bool :=
  match call.argument? (optionsIndex call place) with
  | some options => bounds? text options
  | none => some false

/-- The client of a call that is surely made without a limit. -/
def offence? (text : List Char) (lines : List (List Char)) (call : Call) :
    Option (Nat × String) :=
  if call.constructs then none
  else
    match classify? call.callee with
    | some client =>
      if hasTimeout? text call client.options != some false then none
      else if isSuppressedAt lines call.line then none
      else some (call.line, client.library)
    | none => none

def report (path : Path) (line : Nat) (library : String) : Finding :=
  ((Finding.new .httpClient missingTimeoutKind .medium (.atLine path line)
      (library ++ " request without a timeout or abort signal")).withDetails
    ("Requests without a timeout can hang indefinitely and exhaust connections; " ++
      "pass `timeout` or `signal: AbortSignal.timeout(ms)`")).withPayload
    (.library library)

/-- The findings of a script: one for each line and library, in the order of
the first calls. -/
def inScript (path : Path) (lines : List (List Char)) (source : Source) : List Finding :=
  (firstOfEach id (source.calls.filterMap (offence? source.text lines))).map
    fun (line, library) => report path line library

def detect (ctx : FileContext) : List Finding :=
  match ctx.script? with
  | some source => inScript ctx.path ctx.lines source
  | none => []

end WebAudit.HttpClient
