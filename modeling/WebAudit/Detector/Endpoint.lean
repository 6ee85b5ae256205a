import WebAudit.Detector.Context
import WebAudit.Finding.Basic
import WebAudit.Text.Pattern

/-!
Routes that should not be open to everyone, such as pages for administration or
debugging. Routes are read off calls of routers, off texts that look like
paths, and off the place of a file in a project whose directories are routes.
-/

namespace WebAudit.Endpoint

open Text

def exposedKind : String := "Exposed Sensitive Endpoint"

/-- Words of sensitive routes, with the severity of exposing one. -/
def keywords : List (String × Severity) :=
  [("admin", .medium), ("debug", .medium), ("console", .medium), ("config", .medium),
    ("manage", .medium), ("status", .low), ("info", .low), ("health", .low), ("metrics", .low)]

def routeDirectories : List String := ["api", "routes"]

/-- Stems of files that stand for the route of their directory. -/
def routeStems : List String :=
  ["index", "route", "+server", "+page", "page", "_middleware", "middleware"]

def quote : Pattern := .oneOf "'\"`"

/-- A call that registers a route; group 1 holds the route. -/
def routePattern : Pattern :=
  .boundary ++
    .choice
      [.text "app", .text "router", .text "server", .text "fastify", .text "api",
        .text "route" ++ .optional (.text "s"), .text "r"] ++
    .text "." ++
    .texts ["get", "post", "put", "patch", "delete", "del", "all", "use", "route", "options",
      "head"] ++
    .blanks ++ .text "(" ++ .blanks ++ quote ++
    .group 1 (.many fun c => !"'\"`".toList.contains c) ++ quote

def isPathCharacter (c : Char) : Bool :=
  c.isAlphanum || "_-/:.[]\x7b\x7d*".toList.contains c

/-- A text that looks like a path; group 1 holds it. -/
def pathPattern : Pattern :=
  quote ++ .group 1 (.text "/" ++ .many isPathCharacter) ++ quote

structure SensitiveRoute where
  keyword : String
  severity : Severity
  route : String
  deriving DecidableEq, Repr, Inhabited

/-- Whether a segment of a route is a word, or starts with it and a dash or an
underscore, in any case. -/
def matchesKeyword (segment : List Char) (keyword : String) : Bool :=
  match after? keyword.toList (lowerAscii segment) with
  | some [] => true
  | some (c :: _) => c == '-' || c == '_'
  | none => false

def keywordOf? (segment : List Char) : Option (String × Severity) :=
  keywords.find? fun (keyword, _) => matchesKeyword segment keyword

/-- Keeps the more severe of two, the first if they are equally severe. -/
def moreSevere (best : Option (String × Severity)) (next : String × Severity) :
    Option (String × Severity) :=
  match best with
  | some b => if compare b.2 next.2 == .lt then some next else some b
  | none => some next

def sensitiveRoute? (route : String) : Option SensitiveRoute :=
  (((splitOn '/' route.toList).filterMap keywordOf?).foldl moreSevere none).map
    fun (keyword, severity) => ⟨keyword, severity, route⟩

def registersRoute (content : List Char) : Bool := routePattern.occurs content

def names (path : Path) : List String :=
  path.components.filterMap fun
    | .name s => some s
    | _ => none

def isRouteFile (relative : Path) : Bool :=
  (Script.Language.ofPath? relative).isSome &&
    (relative.parent?.any fun dir => (names dir).any routeDirectories.contains)

/-- The names after the last one that is a directory of routes. -/
def belowRoutes? : List String → Option (List String)
  | [] => none
  | d :: ds =>
    match belowRoutes? ds with
    | some below => some below
    | none => if routeDirectories.contains d then some ds else none

/-- Whether a segment stands for itself in a route, and is no parameter and no
group. -/
def isStatic (segment : String) : Bool :=
  match segment.toList with
  | [] => true
  | c :: cs =>
    !(c == '[' || c == ':' || c == '$' || c == '_') &&
      !(c == '(' && (c :: cs).getLast? == some ')')

def segmentsOf? (relative : Path) : Option (List String) :=
  match (names relative).reverse with
  | [] => none
  | file :: dirs =>
    match belowRoutes? dirs.reverse, Path.fileStem? ⟨file⟩ with
    | some below, some stem => some (if routeStems.contains stem then below else below ++ [stem])
    | _, _ => none

/-- The sensitive route that a file stands for, by its last static segment. -/
def routeOfPath? (relative : Path) : Option SensitiveRoute :=
  match segmentsOf? relative with
  | some segments =>
    match segments.reverse.find? isStatic with
    | some last =>
      (keywordOf? last.toList).map fun (keyword, severity) =>
        ⟨keyword, severity, "/" ++ Text.join "/" segments⟩
    | none => none
  | none => none

def report (location : Location) (hit : SensitiveRoute) : Finding :=
  ((Finding.new .endpoint exposedKind hit.severity location
      ("Route `" ++ hit.route ++ "` exposes a sensitive `" ++ hit.keyword ++
        "` endpoint")).withDetails
    "Protect this route with authentication or remove it from production builds").withPayload
    (.endpoint hit.keyword hit.route)

/-- Whether routes on a line do not count: the line is silenced or imports a
module. -/
def isSkipped (line : List Char) : Bool :=
  isSuppressed line || startsWith "import ".toList (trimStart line)

def hitsOf (content : List Char) (lines : List (List Char)) (p : Pattern) :
    List (Nat × SensitiveRoute) :=
  (p.matchesIn content).filterMap fun m =>
    let line := lineAfter (content.take m.start)
    if isSkipped (lines[line - 1]?.getD []) then none
    else
      ((m.group? 1).bind fun route => sensitiveRoute? (String.ofList route)).map
        fun hit => (line, hit)

/-- The sensitive routes in a script, the first one of each line. Routes that
are registered come before texts that look like paths. -/
def hits (content : List Char) (lines : List (List Char)) : List (Nat × SensitiveRoute) :=
  firstOfEach Prod.fst (hitsOf content lines routePattern ++ hitsOf content lines pathPattern)

/-- The findings of a file. A project without server code has no routes. -/
def detect (ctx : FileContext) : List Finding :=
  if ctx.technologies.isFrontendOnly || !ctx.isScript then []
  else
    let found := hits ctx.content.toList ctx.lines
    let byPath := (routeOfPath? ctx.relativePath).filter fun hit =>
      !(found.any fun (_, h) => h.keyword == hit.keyword)
    (found.map fun (line, hit) => report (.atLine ctx.path line) hit) ++
      byPath.toList.map (report (.ofFile ctx.path))

end WebAudit.Endpoint
