import WebAudit.Detector.Context
import WebAudit.Finding.Basic
import WebAudit.Json.Reader
import WebAudit.Text.Pattern
import WebAudit.Yaml.Document

/-!
Insecure settings in configuration files. Each member of a document is held
against a table of rules. A wildcard origin below a key that speaks of requests
across origins is reported as such and not once more by the general rule.
-/

namespace WebAudit.Configuration

open Text

/-- The kind of a wildcard origin below a key that speaks of origins. -/
def permissiveCorsKind : String := "Permissive CORS"

/-- The kind of a wildcard origin anywhere else. -/
def wildcardOriginKind : String := "Wildcard Origin"

def maxDepth : Nat := 64

inductive Expected where
  | bool (b : Bool)
  | text (t : String)
  deriving DecidableEq, Repr

def isText (t : String) : Json → Bool
  | .string s => s == t
  | _ => false

/-- Whether a value is one that a rule objects to. A boolean may be written as a
string in any case; a text may be the text of a number or an item of an
array. -/
def Expected.accepts : Expected → Json → Bool
  | .bool b, .bool v => b == v
  | .bool b, .string s => eqIgnoreCase s.toList (if b then "true" else "false").toList
  | .text t, .string s => s == t
  | .text t, .number n => n.text == t
  | .text t, .array items => items.any (isText t)
  | _, _ => false

/-- A rule: members whose name is one of `names` in any case must not have the
expected value. -/
structure Rule where
  kind : String
  names : List String
  expected : Expected
  severity : Severity
  advice : String

def rules : List Rule :=
  [{ kind := "Debug Mode Enabled"
     names := ["debug", "debug_mode", "debugMode", "app_debug"]
     expected := .bool true, severity := .medium
     advice := "Debug mode leaks stack traces and internal state; disable it in production" },
    { kind := "TLS Verification Disabled"
      names := ["rejectUnauthorized", "verify_ssl", "verifySsl", "ssl_verify", "sslVerify",
        "verify", "strictSSL", "strict-ssl"]
      expected := .bool false, severity := .high
      advice := "Disabling certificate verification allows man-in-the-middle attacks" },
    { kind := "TLS Verification Disabled"
      names := ["NODE_TLS_REJECT_UNAUTHORIZED"]
      expected := .text "0", severity := .high
      advice :=
        "NODE_TLS_REJECT_UNAUTHORIZED=0 disables certificate checks for every request" },
    { kind := "Insecure Cookie Flag"
      names := ["secure", "httpOnly", "http_only"]
      expected := .bool false, severity := .low
      advice := "Session cookies should set both `secure` and `httpOnly`" },
    { kind := wildcardOriginKind
      names := ["origin", "origins", "allowed_origins", "allowedOrigins",
        "access-control-allow-origin"]
      expected := .text "*", severity := .low
      advice := "A wildcard origin lets any website read responses" }]

def sameName : List Char → List Char → Bool
  | [], [] => true
  | a :: as, b :: bs => Pattern.sameLetter a b && sameName as bs
  | _, _ => false

def Rule.names? (rule : Rule) (key : String) : Bool :=
  rule.names.any fun n => sameName n.toList key.toList

structure Hit where
  kind : String
  severity : Severity
  advice : String
  key : String
  valueText : String
  /-- The names and positions on the way to the member, without its own name. -/
  ancestors : List String
  deriving DecidableEq, Repr, Inhabited

/-- The names and positions on the way to the member, joined by dots. -/
def Hit.path (h : Hit) : String := Text.join "." (h.ancestors ++ [h.key])

def valueText : Json → String
  | .string s => s
  | .array items => if items.any (isText "*") then "*" else (Json.array items).compact
  | v => v.compact

/-- Whether the name of a member says that what is below is about origins. -/
def mentionsCors (key : String) : Bool := occursIn "cors".toList (lowerAscii key.toList)

def memberHits (ancestors : List String) (inCors : Bool) (key : String) (value : Json) :
    List Hit :=
  (rules.filterMap fun r =>
    if r.names? key && r.expected.accepts value then
      some ⟨r.kind, r.severity, r.advice, key, valueText value, ancestors⟩
    else none) ++
  if inCors && eqIgnoreCase key.toList "origin".toList && (Expected.text "*").accepts value then
    [⟨permissiveCorsKind, .medium,
      "CORS allows every origin; restrict it to the domains that need access", key,
      valueText value, ancestors⟩]
  else []

mutual

/-- What rules object to in a value, before what is in its members and items. -/
def hitsIn (ancestors : List String) (inCors : Bool) (depth : Nat) : Json → List Hit
  | .object members =>
    if depth > maxDepth then [] else hitsInMembers ancestors inCors depth members
  | .array items =>
    if depth > maxDepth then [] else hitsInItems ancestors inCors depth 0 items
  | _ => []

def hitsInMembers (ancestors : List String) (inCors : Bool) (depth : Nat) :
    List (String × Json) → List Hit
  | [] => []
  | (key, value) :: rest =>
    memberHits ancestors inCors key value ++
      hitsIn (ancestors ++ [key]) (inCors || mentionsCors key) (depth + 1) value ++
      hitsInMembers ancestors inCors depth rest

def hitsInItems (ancestors : List String) (inCors : Bool) (depth position : Nat) :
    List Json → List Hit
  | [] => []
  | item :: rest =>
    hitsIn (ancestors ++ [toString position]) inCors (depth + 1) item ++
      hitsInItems ancestors inCors depth (position + 1) rest

end

/-- The hits without those of the general rule that are reported as wildcard
origins below a key about origins. -/
def withoutRepeats (hits : List Hit) : List Hit :=
  let reported := (hits.filter fun h => h.kind == permissiveCorsKind).map Hit.path
  hits.filter fun h => !(h.kind == wildcardOriginKind && reported.contains h.path)

def hitsOf (documents : List Json) : List Hit :=
  withoutRepeats (documents.flatMap (hitsIn [] false 0))

/-- The texts after the occurrences of a text, which do not overlap; the first
`skip` characters are passed over. -/
def restsAfter (needle : List Char) : Nat → List Char → List (List Char)
  | _, [] => if needle.isEmpty then [[]] else []
  | skip + 1, _ :: cs => restsAfter needle skip cs
  | 0, c :: cs =>
    match after? needle (c :: cs) with
    | some rest => rest :: restsAfter needle (needle.length - 1) cs
    | none => restsAfter needle 0 cs

/-- Whether a line has a text as the name of a member: a colon follows it, after
quotes and blanks. -/
def mentionsKey (key : List Char) (line : List Char) : Bool :=
  (restsAfter key 0 line).any fun rest =>
    (trimStart (rest.dropWhile fun c => c == '"' || c == '\'')).head? == some ':'

/-- Whether a line has a value behind the first occurrence of a name. -/
def holdsBoth (key value line : List Char) : Bool :=
  match splitAt? key line with
  | some (_, rest) => occursIn value rest
  | none => false

/-- The number of the first line that passes a test, counted from one, among the
lines after the first `start`. -/
def lineFrom? (test : List Char → Bool) (lines : List (List Char)) (start : Nat) : Option Nat :=
  ((lines.drop start).findIdx? test).map fun i => start + i + 1

/-- The first line after the first `start` with a name and its value, or else
with the name. -/
def keyLine? (lines : List (List Char)) (start : Nat) (key value : List Char) : Option Nat :=
  (lineFrom? (holdsBoth key value) lines start).or (lineFrom? (occursIn key) lines start)

def isPosition (text : String) : Bool :=
  let digits := match text.toList with
    | '+' :: rest => rest
    | cs => cs
  !digits.isEmpty && digits.all Char.isDigit && Number.digitsValue digits < Nat.pow 2 64

/-- The number of lines before the innermost enclosing member that can be found
when each one is looked for behind the one around it. -/
def startBelow (lines : List (List Char)) (start : Nat) : List String → Nat
  | [] => start
  | parent :: rest =>
    match lineFrom? (mentionsKey parent.toList) lines start with
    | some line => startBelow lines (line - 1) rest
    | none => startBelow lines start rest

/-- The line of a hit among those after the first `start`. -/
def locate? (lines : List (List Char)) (hit : Hit) (start : Nat) : Option Nat :=
  let below := startBelow lines start (hit.ancestors.filter fun k => !isPosition k)
  (keyLine? lines below hit.key.toList hit.valueText.toList).or
    (keyLine? lines start hit.key.toList hit.valueText.toList)

/-- The line of a hit: a line that is taken by a hit of its kind is left for a
later one, if there is one. -/
def freeLine (lines : List (List Char)) (taken : List (Nat × String)) (hit : Hit) :
    Nat → Nat → Nat
  | 0, line => line
  | fuel + 1, line =>
    if taken.contains (line, hit.kind) then
      match locate? lines hit line with
      | some next => if line < next then freeLine lines taken hit fuel next else line
      | none => line
    else line

/-- The line of a hit, given the lines that are taken. -/
def lineOf? (lines : List (List Char)) (taken : List (Nat × String)) (hit : Hit) : Option Nat :=
  (locate? lines hit 0).map (freeLine lines taken hit (lines.length + 1))

/-- Hits with their lines. A hit with the line, kind and path of an earlier one
is dropped; `taken` holds the lines of those before, `seen` what they are
about. -/
def placed (lines : List (List Char)) :
    List (Nat × String) → List (Option Nat × String × String) → List Hit →
      List (Hit × Option Nat)
  | _, _, [] => []
  | taken, seen, hit :: rest =>
    let line := lineOf? lines taken hit
    if seen.contains (line, hit.kind, hit.path) then placed lines taken seen rest
    else
      (hit, line) ::
        placed lines (line.toList.map (fun n => (n, hit.kind)) ++ taken)
          ((line, hit.kind, hit.path) :: seen) rest

def report (path : Path) (hit : Hit) (line : Option Nat) : Finding :=
  ((Finding.new .configuration hit.kind hit.severity (.file path line)
      (hit.kind ++ ": `" ++ hit.path ++ "` is set to " ++ hit.valueText)).withDetails
    hit.advice).withPayload (.pattern (hit.key ++ ": " ++ hit.valueText))

/-- The documents of a file, by its extension. A file that is not well formed
has none. -/
def documents (ctx : FileContext) : List Json :=
  match ctx.extension? with
  | some "json" => (Json.parse ctx.content).toOption.toList
  | some "yaml" => (Yaml.documents? ctx.content).getD []
  | some "yml" => (Yaml.documents? ctx.content).getD []
  | _ => []

/-- The findings of a file. Manifests of packages are no configuration. -/
def detect (ctx : FileContext) : List Finding :=
  if ctx.fileName == "package.json" || ctx.fileName == "composer.json" then []
  else
    (placed ctx.lines [] [] (hitsOf (documents ctx))).map fun (hit, line) =>
      report ctx.path hit line

end WebAudit.Configuration
