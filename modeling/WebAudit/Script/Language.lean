import WebAudit.Project.Path

/-!
The languages of script files, told by file extensions.
-/

namespace WebAudit.Script

inductive Language where
  | javascript
  | typescript
  | tsx
  deriving DecidableEq, Repr, Inhabited

namespace Language

def name : Language → String
  | .javascript => "javascript"
  | .typescript => "typescript"
  | .tsx => "tsx"

def isTyped : Language → Bool
  | .javascript => false
  | _ => true

def hasMarkup : Language → Bool
  | .typescript => false
  | _ => true

/-- The language of a file extension, in any case. -/
def ofExtension? (extension : String) : Option Language :=
  match extension.toLower with
  | "js" => some .javascript
  | "jsx" => some .javascript
  | "mjs" => some .javascript
  | "cjs" => some .javascript
  | "ts" => some .typescript
  | "mts" => some .typescript
  | "cts" => some .typescript
  | "tsx" => some .tsx
  | _ => none

def ofPath? (path : Path) : Option Language := path.extension?.bind ofExtension?

end Language

end WebAudit.Script
