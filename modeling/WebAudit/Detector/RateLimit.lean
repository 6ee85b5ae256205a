import WebAudit.Detector.Endpoint

/-!
Projects that serve routes and have nothing that limits how often they are
called. This is a check on a whole project and not on one file.
-/

namespace WebAudit.RateLimit

open Text

def missingKind : String := "Missing Rate Limiting"

def packages : List String :=
  ["express-rate-limit", "rate-limiter-flexible", "express-slow-down", "express-brute",
    "@upstash/ratelimit", "@fastify/rate-limit", "fastify-rate-limit", "koa-ratelimit",
    "koa2-ratelimit", "@nestjs/throttler", "hono-rate-limiter", "bottleneck", "slowapi",
    "flask-limiter", "django-ratelimit"]

def isLimited (dependencies : List Dependency) : Bool :=
  Technologies.declares dependencies packages

def handlerPattern : Pattern :=
  .text "export" ++ .blanks1 ++ .optional (.text "async" ++ .blanks1) ++
    .choice [.text "function" ++ .blanks1, .text "const" ++ .blanks1] ++
    .texts ["GET", "POST", "PUT", "PATCH", "DELETE"] ++ .boundary

inductive Evidence where
  /-- A script below a directory of routes. -/
  | directory (path : Path)
  /-- A script that defines a route. -/
  | definition (path : Path)
  deriving DecidableEq, Repr

def Evidence.path : Evidence → Path
  | .directory path => path
  | .definition path => path

def definesRoute (content : String) : Bool :=
  handlerPattern.occurs content.toList || Endpoint.registersRoute content.toList

/-- Whether a file is a script that can be read and defines a route. -/
def isDefinition (read : Path → Option String) (path : Path) : Bool :=
  (Script.Language.ofPath? path).isSome && (read path).any definesRoute

/-- The first file that shows that a project serves routes. Places in the
project count before contents. -/
def evidence? (root : Path) (read : Path → Option String) (files : List Path) :
    Option Evidence :=
  match files.find? fun f => Endpoint.isRouteFile ((Path.relativeTo? root f).getD f) with
  | some path => some (.directory path)
  | none => (files.find? (isDefinition read)).map .definition

def report (path : Path) : Finding :=
  ((Finding.new .rateLimit missingKind .medium (.ofFile path)
      "The project defines routes but no rate-limiting package is installed").withDetails
    ("Add a rate limiter (e.g. express-rate-limit, @fastify/rate-limit or " ++
      "@upstash/ratelimit) to authentication and other abuse-prone endpoints")).withPayload
    (.pattern path.text)

/-- The finding of a project, if it serves routes without a limit. -/
def assess? (root : Path) (read : Path → Option String) (files : List Path)
    (dependencies : List Dependency) : Option Finding :=
  if isLimited dependencies then none
  else (evidence? root read files).map fun e => report e.path

end WebAudit.RateLimit
