import WebAudit.Detector.Context
import WebAudit.Finding.Basic
import WebAudit.Number.Decimal
import WebAudit.Settings.Basic
import WebAudit.Text.Entropy
import WebAudit.Text.Pattern

/-!
Secrets in the text of files, line by line: known formats of keys and tokens,
values that are assigned to telling names, and tokens that look random. One
search goes through all lines and rules and notes what it has reported where. A
file for environment variables is there to hold secrets, so what it holds is only
worth a note.
-/

namespace WebAudit.Secrets

open Text

def envFileKind : String := "Environment File Secret"

def highEntropyKind : String := "High Entropy String"

/-- The kind of a secret key of one provider, which has its own test. -/
def awsSecretKind : String := "AWS Secret Access Key"

/-- The bytes of a line up to which its tokens are looked at. -/
def maxEntropyLine : Nat := 1000

/-- A format of secrets. Group 1 of the pattern holds the value; without it the
whole occurrence is the value. -/
structure Rule where
  kind : String
  severity : Severity
  /-- Whether values that stand for a real one are passed over. -/
  skipsPlaceholders : Bool := false
  /-- Whether the rule is for files with environment variables only. -/
  envOnly : Bool := false
  pattern : Pattern

def isAlnum (c : Char) : Bool := c.isAlphanum

def isTokenChar (c : Char) : Bool := c.isAlphanum || c == '_' || c == '-'

def atLeast (n : Nat) (test : Char → Bool) : Pattern := .run n none true test

def exactly (n : Nat) (test : Char → Bool) : Pattern := .run n (some n) true test

def optionalQuote : Pattern := .optional (.oneOf "'\"")

def assignment : Pattern := .blanks ++ .oneOf "=:" ++ .blanks

def neither (others : String) (c : Char) : Bool := !isBlank c && !others.toList.contains c

def pairedWords (pairs : List (String × String)) : Pattern :=
  .choice (pairs.map fun (a, b) => .anyCase a ++ .optional (.oneOf "_-") ++ .anyCase b)

def rules : List Rule :=
  let mark := Pattern.optional (.oneOf "_-.")
  [{ kind := "AWS Access Key ID", severity := .high
     pattern := .boundary ++ .texts ["AKIA", "ASIA"] ++
       exactly 16 (fun c => c.isDigit || c.isUpper) ++ .boundary },
    { kind := awsSecretKind, severity := .critical, skipsPlaceholders := true
      pattern := .anyCase "aws" ++ mark ++ .anyCase "secret" ++ mark ++
        .optional (.anyCase "access" ++ mark) ++ .anyCase "key" ++ optionalQuote ++ assignment ++
        optionalQuote ++
        .group 1 (exactly 40 (Pattern.inAnyCase fun c => isAlnum c || "/+=".toList.contains c)) ++
        .boundary },
    { kind := "GitHub Token", severity := .high
      pattern := .boundary ++ .text "gh" ++ .oneOf "pousr" ++ .text "_" ++ exactly 36 isAlnum ++
        .boundary },
    { kind := "GitHub Fine-Grained Token", severity := .high
      pattern := .boundary ++ .text "github_pat_" ++
        exactly 82 (fun c => isAlnum c || c == '_') ++ .boundary },
    { kind := "Stripe Live Key", severity := .critical
      pattern := .boundary ++ .texts ["sk", "rk"] ++ .text "_live_" ++ atLeast 24 isAlnum ++
        .boundary },
    { kind := "Stripe Test Key", severity := .low
      pattern := .boundary ++ .text "sk_test_" ++ atLeast 24 isAlnum ++ .boundary },
    { kind := "Slack Token", severity := .high
      pattern := .boundary ++ .text "xox" ++ .oneOf "baprs" ++ .text "-" ++
        atLeast 10 (fun c => isAlnum c || c == '-') },
    { kind := "Slack Webhook URL", severity := .medium
      pattern := .text "https://hooks.slack.com/services/T" ++
        .some1 (fun c => isAlnum c || c == '_') ++ .text "/B" ++
        .some1 (fun c => isAlnum c || c == '_') ++ .text "/" ++
        .some1 (fun c => isAlnum c || c == '_') },
    { kind := "Google API Key", severity := .high
      pattern := .boundary ++ .text "AIza" ++ exactly 35 isTokenChar },
    { kind := "Private Key", severity := .critical
      pattern := .text "-----BEGIN " ++
        .optional (.texts ["RSA ", "EC ", "DSA ", "OPENSSH ", "PGP ", "ENCRYPTED "]) ++
        .text "PRIVATE KEY" ++ .optional (.text " BLOCK") ++ .text "-----" },
    { kind := "JSON Web Token", severity := .medium
      pattern := .boundary ++ .text "eyJ" ++ atLeast 10 isTokenChar ++ .text ".eyJ" ++
        atLeast 10 isTokenChar ++ .text "." ++ atLeast 10 isTokenChar },
    { kind := "Database URL with Credentials", severity := .high, skipsPlaceholders := true
      pattern := .boundary ++
        .choice
          [.text "postgres" ++ .optional (.text "ql"), .text "mysql", .text "mariadb",
            .text "mongodb" ++ .optional (.text "+srv"), .text "redis", .text "rediss",
            .text "amqp" ++ .optional (.text "s"), .text "mssql"] ++
        .text "://" ++ .some1 (neither ":/@'\"") ++ .text ":" ++ .some1 (neither "@'\"") ++
        .text "@" ++ .some1 (neither "'\"") },
    { kind := "SendGrid API Key", severity := .high
      pattern := .boundary ++ .text "SG." ++ exactly 22 isTokenChar ++ .text "." ++
        exactly 43 isTokenChar ++ .boundary },
    { kind := "OpenAI API Key", severity := .high
      pattern := .boundary ++ .text "sk-" ++ .optional (.texts ["proj-", "svcacct-"]) ++
        atLeast 32 isTokenChar },
    { kind := "Hardcoded Password", severity := .medium, skipsPlaceholders := true
      pattern := .boundary ++ .anyCaseTexts ["password", "passwd", "pwd"] ++ .boundary ++
        optionalQuote ++ assignment ++ .oneOf "'\"" ++
        .group 1 (atLeast 6 (neither "'\"")) ++ .oneOf "'\"" },
    { kind := "Generic API Key", severity := .medium, skipsPlaceholders := true
      pattern := .boundary ++
        pairedWords [("api", "key"), ("api", "secret"), ("secret", "key"), ("access", "token"),
          ("auth", "token"), ("client", "secret")] ++
        .boundary ++ optionalQuote ++ assignment ++ .oneOf "'\"" ++
        .group 1 (atLeast 16
          (Pattern.inAnyCase fun c => isAlnum c || "_-./+=".toList.contains c)) ++
        .oneOf "'\"" },
    { kind := envFileKind, severity := .info, skipsPlaceholders := true, envOnly := true
      pattern :=
        let nameChars := Pattern.many (Pattern.inAnyCase fun c => isAlnum c || c == '_')
        .atStart ++ .blanks ++ .optional (.anyCase "export" ++ .blanks1) ++ nameChars ++
          .anyCaseTexts ["PASSWORD", "SECRET", "TOKEN", "API_KEY", "PRIVATE_KEY"] ++ nameChars ++
          .blanks ++ .text "=" ++ .blanks ++ optionalQuote ++
          .group 1 (atLeast 8 (neither "'\"#")) }]

/-- Texts that show that a value only stands for a real one. -/
def placeholderMarks : List String :=
  ["example", "placeholder", "your_", "your-", "xxxx", "changeme", "replace_me", "dummy", "<",
    "$\x7b", "\x7b\x7b"]

def isPlaceholder (value : List Char) : Bool :=
  let lower := lowerAscii value
  placeholderMarks.any fun m => occursIn m.toList lower

/-- Names of files that show which environment variables are needed. -/
def isEnvTemplate (name : String) : Bool :=
  [".env.example", ".env.sample", ".env.template", ".env.defaults"].contains name

/-- Whether a file holds environment variables, by its name. -/
def isEnvFile (name : String) : Bool :=
  (match after? ".env".toList name.toList with
    | some [] => true
    | some ('.' :: more) => !more.isEmpty && more.all (· != '\n')
    | _ => false) && !isEnvTemplate name

/-- A value that a rule has found, from `start` up to, and without, `stop`. -/
structure Hit where
  rule : Rule
  start : Nat
  stop : Nat
  value : List Char

def distinctCount (cs : List Char) : Nat := (firstOfEach id cs).length

/-- Whether a value counts under a rule. -/
def Rule.accepts (settings : SecretSettings) (rule : Rule) (value : List Char) : Bool :=
  !(rule.skipsPlaceholders && isPlaceholder value) &&
    !(rule.kind == awsSecretKind && distinctCount value < settings.awsSecretMinDistinct)

def advice (inEnvFile : Bool) : String :=
  if inEnvFile then
    "Make sure this env file is excluded from version control and never shipped to clients"
  else
    "Move this value to an environment variable or a secrets manager and rotate it. " ++
      "Add a `shipguard:ignore` comment if it is a test fixture."

def Hit.kind (inEnvFile : Bool) (h : Hit) : String := if inEnvFile then envFileKind else h.rule.kind

def Hit.report (inEnvFile : Bool) (location : Location) (h : Hit) : Finding :=
  let severity := if inEnvFile then .info else h.rule.severity
  let message :=
    if inEnvFile && !h.rule.envOnly then h.rule.kind ++ " in environment file"
    else h.rule.kind ++ " detected"
  ((Finding.new .secret (h.kind inEnvFile) severity location message).withDetails
    (advice inEnvFile)).withPayload (.pattern (redact (String.ofList h.value)))

def tokenPattern : Pattern := .some1 fun c => isAlnum c || "+/=_-".toList.contains c

def looksRandom (token : List Char) : Bool := token.any Char.isDigit && token.any Char.isAlpha

/-- Whether a token overlaps a value that a rule has found. -/
def overlaps (found : List Hit) (token : Match) : Bool :=
  found.any fun h => token.start < h.stop && h.start < token.stop

/-- Whether a token is long and random enough to be a secret. -/
def isSuspicious (settings : SecretSettings) (found : List Hit) (token : Match) : Bool :=
  settings.entropyMinLength ≤ token.text.length && !overlaps found token &&
    looksRandom token.text && !isPlaceholder token.text &&
    !(entropy token.text).lt settings.entropyThreshold

def entropyReport (location : Location) (token : List Char) : Finding :=
  let bits := entropy token
  ((Finding.new .secret highEntropyKind .medium location
      ("High entropy string (" ++ Number.fixedText 2 bits ++
        " bits/char) may be a secret")).withDetails (advice false)).withPayload
    (.entropy bits token.length)

/-- What the search of a file carries from line to line: the findings so far,
and the lines and kinds that values were reported under. -/
structure Search where
  findings : List Finding := []
  seen : List (Nat × String) := []

structure LineSearch where
  search : Search
  found : List Hit := []

section Steps

variable (settings : SecretSettings) (inEnvFile : Bool) (path : Path) (n : Nat)

/-- Reports a value on a line, unless one was reported there under its kind. -/
def Search.add (s : Search) (h : Hit) : Search :=
  let slot := (n, h.kind inEnvFile)
  if s.seen.contains slot then s
  else ⟨s.findings ++ [h.report inEnvFile (.atLine path n)], slot :: s.seen⟩

def LineSearch.tryMatch (rule : Rule) (s : LineSearch) (m : Match) : LineSearch :=
  let value := (m.group? 1).getD m.text
  if rule.accepts settings value then
    let h : Hit := ⟨rule, m.start, m.stop, value⟩
    -- A value counts as found also where its kind was reported before.
    ⟨s.search.add inEnvFile path n h, s.found ++ [h]⟩
  else s

def LineSearch.tryRule (line : List Char) (s : LineSearch) (rule : Rule) : LineSearch :=
  if rule.envOnly && !inEnvFile then s
  else (rule.pattern.matchesIn line).foldl (tryMatch settings inEnvFile path n rule) s

/-- Reports a token that looks random, unless one was reported on its line; the
flag tells whether it was. -/
def Search.tryToken (found : List Hit) (s : Search × Bool) (token : Match) : Search × Bool :=
  if s.2 || !isSuspicious settings found token then s
  else
    ({ s.1 with findings := s.1.findings ++ [entropyReport (.atLine path n) token.text] }, true)

/-- Searches a line: first by the rules, then for a token that looks random
beside what they have found. -/
def Search.tryLine (s : Search) (line : List Char) : Search :=
  if isSuppressed line then s
  else
    let ruled := rules.foldl (LineSearch.tryRule settings inEnvFile path n line) ⟨s, []⟩
    if !inEnvFile && settings.entropyScan && byteLength line ≤ maxEntropyLine then
      ((tokenPattern.matchesIn line).foldl (tryToken settings path n ruled.found)
        (ruled.search, false)).1
    else ruled.search

end Steps

/-- Searches lines of which the first one has the given number. -/
def Search.run (settings : SecretSettings) (inEnvFile : Bool) (path : Path) :
    Nat → Search → List (List Char) → Search
  | _, s, [] => s
  | n, s, line :: rest =>
    run settings inEnvFile path (n + 1) (s.tryLine settings inEnvFile path n line) rest

def detect (settings : SecretSettings) (ctx : FileContext) : List Finding :=
  if isEnvTemplate ctx.fileName then []
  else (Search.run settings (isEnvFile ctx.fileName) ctx.path 1 {} ctx.lines).findings

end WebAudit.Secrets
