/-
  Relayout/Migration/Error.lean
  =============================
  **Why a schema cannot be migrated.**

  Every error fails the whole run.  An error that belongs to a node carries the place of the
  node: a JSON pointer after a number sign, which alone is the root.

  These are the cases of the program's `CompatError`, with its messages and its `path`.
-/

namespace Relayout

/-- What the value of an extension should have been. -/
inductive ExpectedValue where
  | string
  | plainExpression
  | object
  | numberOrObject
deriving DecidableEq, Repr

/-- Why extensions do not go together. -/
inductive Incompatibility where
  | layoutPresent
  | itemsPropOfExpression
  | itemsPropWithoutUrl
  | itemsOutsideArray
deriving DecidableEq, Repr

/-- Why a schema cannot be migrated. -/
inductive MigrationError where
  /-- The input was rejected before anything was migrated. -/
  | invalidInput (errors : List String)
  /-- Items are claimed to come from two sources. -/
  | conflictingSource (place : String)
  /-- A reference leads nowhere, or is not a string. -/
  | unresolvedRef (pointer place : String)
  /-- Extensions do not go together. -/
  | unsupportedCombination (keys : List String) (place : String) (reason : Incompatibility)
  /-- An extension has a value of the wrong kind. -/
  | invalidValue (key place : String) (expected : ExpectedValue)
deriving DecidableEq, Repr

/-- The words for an expected value. -/
def ExpectedValue.describe : ExpectedValue → String
  | .string => "a string"
  | .plainExpression => "a plain expression without \x7b...\x7d markers"
  | .object => "an object"
  | .numberOrObject => "a number or an object"

/-- The words for an incompatibility. -/
def Incompatibility.describe : Incompatibility → String
  | .layoutPresent => "node already carries a layout"
  | .itemsPropOfExpression => "x-itemsProp only applies to x-fromUrl responses"
  | .itemsPropWithoutUrl => "x-itemsProp requires x-fromUrl"
  | .itemsOutsideArray => "item descriptors require x-fromData or x-fromUrl outside of arrays"

namespace MigrationError

/-- The wording of an error. -/
def message : MigrationError → String
  | .invalidInput errors => "Invalid input schema: " ++ String.intercalate "; " errors
  | .conflictingSource place =>
    "Conflicting data sources at " ++ place
      ++ ": x-fromData and x-fromUrl are mutually exclusive"
  | .unresolvedRef pointer place => "Unresolved $ref '" ++ pointer ++ "' at " ++ place
  | .unsupportedCombination keys place reason =>
    "Unsupported extension combination [" ++ String.intercalate ", " keys ++ "] at " ++ place
      ++ ": " ++ reason.describe
  | .invalidValue key place expected =>
    "Invalid value for " ++ key ++ " at " ++ place ++ ": expected " ++ expected.describe

/-- The place of the node that an error belongs to. -/
def place? : MigrationError → Option String
  | .invalidInput _ => none
  | .conflictingSource place => some place
  | .unresolvedRef _ place => some place
  | .unsupportedCombination _ place _ => some place
  | .invalidValue _ place _ => some place

end MigrationError

end Relayout
