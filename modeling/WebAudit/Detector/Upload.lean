import WebAudit.Detector.Context
import WebAudit.Finding.Basic
import WebAudit.Text.Pattern

/-!
File uploads without limits. For each upload library that a script imports, the
calls that set it up are looked at: their options should bound the size of a
file and filter its type.
-/

namespace WebAudit.Upload

open Script Text

def missingSizeLimitKind : String := "Missing Upload Size Limit"

def missingTypeFilterKind : String := "Missing Upload Type Filter"

def genericUploadKind : String := "Unvalidated File Upload"

/-- The library that is registered as a plugin. -/
def pluginLibrary : String := "@fastify/multipart"

/-- Upload libraries with the names that they are usually imported under. -/
def libraries : List (String × List String) :=
  [("multer", ["multer"]),
    ("formidable", ["formidable", "IncomingForm"]),
    ("busboy", ["busboy", "Busboy"]),
    ("express-fileupload", ["fileUpload", "fileupload"]),
    (pluginLibrary, ["multipart", "fastifyMultipart"])]

def sizeKeys : List String := ["maxFileSize", "maxTotalFileSize", "maxFileCount", "fileSize"]

/-- Entries of the limits that bound the size of a file. -/
def limitKeys : List String := ["fileSize", "files", "parts"]

def typeFilterKeys : List String :=
  ["fileFilter", "filter", "allowedTypes", "allowedMimeTypes", "mimetypes", "accept"]

def quotedModule (index : Nat) : Pattern :=
  .oneOf "'\"" ++ .group index (.some1 fun c => c != '\'' && c != '"') ++ .oneOf "'\""

def bracedNames (index : Nat) : Pattern :=
  .text "\x7b" ++ .blanks ++
    .group index (.run 1 none false fun c => isWord c || isBlank c || c == ',') ++ .blanks ++
    .text "\x7d"

/-- A module that is required: names under group 1 or 2, the module under 3. -/
def requirePattern : Pattern :=
  .texts ["const", "let", "var"] ++ .blanks1 ++
    .choice [bracedNames 1, .group 2 (.some1 isWord)] ++ .blanks ++ .text "=" ++ .blanks ++
    .text "require(" ++ .blanks ++ quotedModule 3 ++ .blanks ++ .text ")"

/-- A module that is imported: names under groups 4 to 6, the module under 7. -/
def importPattern : Pattern :=
  .text "import" ++ .blanks1 ++
    .optional (.choice
      [.text "*" ++ .blanks1 ++ .text "as" ++ .blanks1 ++ .group 4 (.some1 isWord),
        .group 5 (.some1 isWord)]) ++
    .blanks ++ .optional (.text ",") ++ .blanks ++ .optional (bracedNames 6) ++ .blanks ++
    .text "from" ++ .blanks1 ++ quotedModule 7

def modulePattern : Pattern := .alt requirePattern importPattern

def typeCheckPattern : Pattern :=
  .text ".mime" ++ .oneOf "tT" ++ .text "ype" ++ .boundary

def genericPattern : Pattern :=
  .alt
    (.text "new" ++ .blanks1 ++ .text "FormData" ++ .blanks ++ .text "(")
    (.text "<input" ++ .many (· != '>') ++ .text "type" ++ .blanks ++ .text "=" ++ .blanks ++
      .many "\"'\x7b".toList.contains ++ .text "file" ++ .many "\"'\x7d".toList.contains)

/-- The names between commas; of a name with an alias, the alias. -/
def namesBetweenCommas (cs : List Char) : List (List Char) :=
  ((splitOn ',' cs).map fun piece => afterLast ' ' (trim piece)).filter fun n => !n.isEmpty

def boundNames (m : Match) : List (List Char) :=
  [2, 4, 5].filterMap m.group? ++ ([1, 6].filterMap m.group?).flatMap namesBetweenCommas

structure Import where
  library : String
  names : List (List Char)

/-- The upload library of an import, with the names that stand for it. -/
def Import.ofMatch? (m : Match) : Option Import :=
  ((m.group? 3).or (m.group? 7)).bind fun name =>
    (libraries.find? fun (library, _) => library.toList == name).map fun (library, usual) =>
      ⟨library, usual.map String.toList ++ boundNames m⟩

/-- Adds an import; names of a library that is there already join its names. -/
def Import.add (all : List Import) (i : Import) : List Import :=
  if all.any fun j => j.library == i.library then
    all.map fun j => if j.library == i.library then ⟨j.library, j.names ++ i.names⟩ else j
  else all ++ [i]

def imports (content : List Char) : List Import :=
  ((modulePattern.matchesIn content).filterMap Import.ofMatch?).foldl Import.add []

/-- Whether a call sets a library up, and the argument with its options. -/
def Import.setUp? (text : List Char) (call : Call) (i : Import) : Option (Option Node) :=
  if i.library == pluginLibrary then
    match call.callee.property?, call.argument? 0 with
    | some property, some plugin =>
      if property == "register".toList && i.names.contains (plugin.text text) then
        some (call.argument? 1)
      else none
    | _, _ => none
  else
    match call.callee with
    | .name name => if i.names.contains name then some (call.argument? 0) else none
    | .member _ property => if i.names.contains property then some (call.argument? 0) else none
    | .other => none

def classify? (text : List Char) (all : List Import) (call : Call) :
    Option (String × Option Node) :=
  all.findSome? fun i => (i.setUp? text call).map fun options => (i.library, options)

/-- The object that an argument stands for: itself, or the object that a
variable of its name is declared with. -/
def resolveObject? (source : Source) (n : Node) : Option Node :=
  match n.kind with
  | .object => some n
  | .identifier =>
    let name := n.text source.text
    (walk source.root).findSome? fun d =>
      if d.kind == .declarator &&
        ((d.child? .name).any fun m => m.text source.text == name) then
        (d.child? .value).filter fun v => v.kind == .object
      else none
  | _ => none

structure Controls where
  sizeLimit : Bool
  typeFilter : Bool
  deriving DecidableEq, Repr

/-- What an object with options takes care of. If another object is spread into
it, it may take care of anything; limits that are no object count. -/
def Controls.ofObject (text : List Char) (n : Node) : Controls :=
  match n.shape? text with
  | none => ⟨false, false⟩
  | some shape =>
    if shape.hasSpread then ⟨true, true⟩
    else
      let limited := (n.propertyValue? text "limits".toList).any fun limits =>
        ((limits.shape? text).map fun inner => inner.hasAny limitKeys).getD true
      ⟨shape.hasAny sizeKeys || limited, shape.hasAny typeFilterKeys⟩

inductive Gap where
  | size
  | type
  deriving DecidableEq, Repr

namespace Gap

def kind : Gap → String
  | .size => missingSizeLimitKind
  | .type => missingTypeFilterKind

def message (library : String) : Gap → String
  | .size => library ++ " is initialized without a file size limit"
  | .type => library ++ " is initialized without a file type filter"

def advice : Gap → String
  | .size =>
    "Set a maximum file size (e.g. `limits: \x7b fileSize: 5 * 1024 * 1024 \x7d`) " ++
      "to prevent resource exhaustion"
  | .type =>
    "Validate MIME type and extension (e.g. a `fileFilter` callback) before accepting files"

end Gap

structure Offence where
  line : Nat
  library : String
  gap : Gap
  deriving DecidableEq, Repr

def gaps (source : Source) (lines : List (List Char)) (typeChecked : Bool) (all : List Import)
    (call : Call) : List Offence :=
  match classify? source.text all call with
  | none => []
  | some (library, options) =>
    if isSuppressedAt lines call.line then []
    else
      let controls :=
        match options.bind (resolveObject? source) with
        | some object => Controls.ofObject source.text object
        | none => ⟨false, false⟩
      (if controls.sizeLimit then [] else [⟨call.line, library, .size⟩]) ++
        if controls.typeFilter || typeChecked then [] else [⟨call.line, library, .type⟩]

def offences (source : Source) (lines : List (List Char)) (all : List Import) : List Offence :=
  let typeChecked := typeCheckPattern.occurs source.text
  firstOfEach (fun o => (o.line, o.gap)) (source.calls.flatMap (gaps source lines typeChecked all))

def Offence.report (path : Path) (o : Offence) : Finding :=
  ((Finding.new .upload o.gap.kind .medium (.atLine path o.line)
      (o.gap.message o.library)).withDetails o.gap.advice).withPayload (.library o.library)

def genericReport (path : Path) (line : Nat) (matched : List Char) : Finding :=
  (Finding.new .upload genericUploadKind .low (.atLine path line)
      "File upload handling found; make sure the server validates size and type").withPayload
    (.pattern (String.ofList matched))

/-- The uploads without a known library, one on a line, on lines that are not
taken. -/
def genericHits (content : List Char) (lines : List (List Char)) (taken : List Nat) :
    List (Nat × List Char) :=
  let hits := (genericPattern.matchesIn content).map fun m =>
    (lineAfter (content.take m.start), m.text)
  firstOfEach Prod.fst (hits.filter fun (line, _) =>
    !taken.contains line && !isSuppressedAt lines line)

/-- The findings of a file. A project without server code takes no uploads. -/
def detect (ctx : FileContext) : List Finding :=
  if ctx.technologies.isFrontendOnly || !ctx.isScript then []
  else
    let content := ctx.content.toList
    let all := imports content
    let found :=
      if all.isEmpty then []
      else
        match ctx.script? with
        | some source => offences source ctx.lines all
        | none => []
    found.map (Offence.report ctx.path) ++
      (genericHits content ctx.lines (found.map Offence.line)).map fun (line, matched) =>
        genericReport ctx.path line matched

end WebAudit.Upload
