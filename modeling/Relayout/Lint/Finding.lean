/-
  Relayout/Lint/Finding.lean
  ==========================
  **What can be wrong with a migrated schema.**

  Errors would make the layout compiler reject a schema; warnings point at what a migration
  should have dealt with.

  These are the errors and warnings of the linter's `LintResult`, with their codes and messages.
-/
import Relayout.Json.Decode
import Relayout.Json.Pointer

namespace Relayout

/-- A breach of the contract of migrated schemas. -/
inductive LintError where
  /-- A layout object cannot be read. -/
  | malformedLayout (cause : DecodeError)
  /-- A layout is neither a name nor an object. -/
  | strayLayout
  /-- An item source is not an object. -/
  | sourceNotObject
  /-- An item source has both an expression and a URL, or neither. -/
  | sourceNotUnique
  /-- The URL of an item source has no expression to evaluate. -/
  | malformedUrl
  /-- A field names a property that the listed items do not have. -/
  | unknownItemProperty (field name : String)
  /-- References into the document need an identity of the root. -/
  | missingRootId
deriving DecidableEq, Repr

/-- Something that a migration left behind. -/
inductive LintWarning where
  /-- An extension that a built-in rule claims. -/
  | legacyExtension (key : String)
  /-- A reference in a URL that was not promoted. -/
  | unpromotedPlaceholder (expr : String)
deriving DecidableEq, Repr

/-- An error or a warning about the value at a pointer. -/
inductive Finding where
  | error (cause : LintError) (place : Pointer)
  | warning (cause : LintWarning) (place : Pointer)
deriving DecidableEq, Repr

namespace LintError

/-- The code of an error. -/
def code : LintError → String
  | .malformedLayout _ | .strayLayout => "INVALID_LAYOUT"
  | .sourceNotObject | .sourceNotUnique => "GET_ITEMS_SOURCE"
  | .malformedUrl => "INVALID_URL_DESCRIPTOR"
  | .unknownItemProperty _ _ => "UNKNOWN_ITEM_PROPERTY"
  | .missingRootId => "MISSING_ROOT_ID"

/-- The wording of an error. -/
def message : LintError → String
  | .malformedLayout cause => "layout node is malformed: " ++ cause.message
  | .strayLayout => "layout must be a component name or an object"
  | .sourceNotObject => "getItems must be an object"
  | .sourceNotUnique => "getItems must carry exactly one of 'expr' or 'url'"
  | .malformedUrl => "getItems.url must be a descriptor with a string 'expr'"
  | .unknownItemProperty field name =>
    field ++ " '" ++ name ++ "' is not a property of the listed items"
  | .missingRootId => "Schema uses internal $refs but the root has no $id"

end LintError

namespace LintWarning

/-- The code of a warning. -/
def code : LintWarning → String
  | .legacyExtension _ => "LEGACY_EXTENSION"
  | .unpromotedPlaceholder _ => "UNPROMOTED_PLACEHOLDER"

/-- The wording of a warning. -/
def message : LintWarning → String
  | .legacyExtension key => "Legacy extension '" ++ key ++ "' was not migrated"
  | .unpromotedPlaceholder expr =>
    "URL template '" ++ expr ++ "' still contains legacy \x7bcontext.path\x7d markers"

end LintWarning

namespace Finding

/-- The pointer of a finding. -/
def pointer : Finding → Pointer
  | .error _ p => p
  | .warning _ p => p

/-- The error of a finding, with its pointer. -/
def error? : Finding → Option (LintError × Pointer)
  | .error cause p => some (cause, p)
  | .warning _ _ => none

/-- The warning of a finding, with its pointer. -/
def warning? : Finding → Option (LintWarning × Pointer)
  | .error _ _ => none
  | .warning cause p => some (cause, p)

end Finding

end Relayout
