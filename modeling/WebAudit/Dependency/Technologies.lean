import WebAudit.Dependency.Record
import WebAudit.Json.Value

/-!
What a project is built with, as far as its dependencies tell.
-/

namespace WebAudit

structure Technologies where
  hasBackend : Bool := false
  hasFrontend : Bool := false
  isFullstackFramework : Bool := false
  hasAuth : Bool := false
  hasHttpClient : Bool := false
  hasCors : Bool := false
  hasFileUpload : Bool := false
  deriving DecidableEq, Repr, Inhabited

namespace Technologies

def backendNames : List String :=
  ["express", "fastify", "koa", "@hapi/hapi", "hapi", "@nestjs/core", "restify", "hono",
    "@trpc/server", "apollo-server", "@apollo/server", "django", "flask", "fastapi"]

def frontendNames : List String :=
  ["react", "react-dom", "vue", "svelte", "@angular/core", "solid-js", "preact"]

def fullstackNames : List String :=
  ["next", "nuxt", "@sveltejs/kit", "@remix-run/node", "@remix-run/react", "astro",
    "@redwoodjs/core"]

def authNames : List String :=
  ["next-auth", "@auth/core", "passport", "jsonwebtoken", "jose", "lucia", "better-auth",
    "@clerk/nextjs", "@clerk/clerk-sdk-node", "@supabase/auth-helpers-nextjs", "firebase-admin"]

def httpClientNames : List String :=
  ["axios", "got", "node-fetch", "ky", "superagent", "undici", "needle", "requests", "httpx"]

def corsNames : List String := ["cors", "@fastify/cors", "@koa/cors", "django-cors-headers"]

def fileUploadNames : List String :=
  ["multer", "formidable", "busboy", "express-fileupload", "@fastify/multipart", "multiparty"]

/-- Whether one of the dependencies bears one of the names, in any case of
ASCII letters. -/
def declares (dependencies : List Dependency) (names : List String) : Bool :=
  dependencies.any fun d => names.any fun n => Text.eqIgnoreCase d.name.toList n.toList

def ofDependencies (ds : List Dependency) : Technologies where
  hasBackend := declares ds backendNames
  hasFrontend := declares ds frontendNames
  isFullstackFramework := declares ds fullstackNames
  hasAuth := declares ds authNames
  hasHttpClient := declares ds httpClientNames
  hasCors := declares ds corsNames
  hasFileUpload := declares ds fileUploadNames

/-- Whether a project has a user interface and no server code of its own. -/
def isFrontendOnly (t : Technologies) : Bool :=
  t.hasFrontend && !t.hasBackend && !t.isFullstackFramework

def toJson (t : Technologies) : Json :=
  .object
    [("has_backend", .bool t.hasBackend), ("has_frontend", .bool t.hasFrontend),
      ("is_fullstack_framework", .bool t.isFullstackFramework), ("has_auth", .bool t.hasAuth),
      ("has_http_client", .bool t.hasHttpClient), ("has_cors", .bool t.hasCors),
      ("has_file_upload", .bool t.hasFileUpload)]

end Technologies

end WebAudit
