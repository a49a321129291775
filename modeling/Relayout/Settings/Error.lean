/-
  Relayout/Settings/Error.lean
  ============================
  **Why settings cannot be loaded or saved.**

  These are the errors of the program's `load_from`, and its two from `check`.
-/
import Relayout.Settings.Given
import Relayout.Json.Decode

namespace Relayout

/-- Why settings cannot be loaded. -/
inductive SettingsError where
  /-- A file that has to be there is not. -/
  | fileNotFound (name : String)
  /-- The name of a file does not tell its format. -/
  | unknownFormat (name : String)
  /-- The text of a file cannot be read. -/
  | malformed (file why : String)
  /-- The text of a file holds something else than a table. -/
  | notTable (file : String) (found : Found)
  /-- A group of settings is neither a table nor a list. -/
  | notGroup (found : Found) (expected : String)
  /-- A setting cannot be converted. -/
  | unconvertible (found : Found) (expected key : String) (origin : Option String)
  /-- The identity of roots holds nothing but blanks. -/
  | blankRootId
  /-- Placeholders would need no segments at all. -/
  | zeroMinPathSegments
deriving DecidableEq, Repr

/-- What a value is when something else was expected. -/
def Given.found : Given → Found
  | .scalar _ .null => .null
  | .scalar _ (.bool b) => .boolean b
  | .scalar _ (.int n) => .integer n
  | .scalar _ (.float x) => .floating x
  | .scalar _ (.text s) => .string s
  | .list _ _ => .sequence
  | .table _ _ => .map

namespace SettingsError

/-- The words for a setting that cannot be converted. -/
def describeSetting : Found → String
  | .null => "unit value"
  | .integer n => "64-bit integer `" ++ toString n ++ "`"
  | .floating x => "floating point `" ++ Decimal.Style.plain.write x ++ "`"
  | found => found.describe

/-- The words for a value in the place of a group. -/
def describeGroup : Found → String
  | .null => "unit value"
  | .floating x => "floating point `" ++ Decimal.Style.pointed.write x ++ "`"
  | found => found.describe

/-- The wording of an error. -/
def message : SettingsError → String
  | .fileNotFound name => "configuration file \"" ++ name ++ "\" not found"
  | .unknownFormat name =>
    "configuration file \"" ++ name ++ "\" is not of a registered file format"
  | .malformed file why => why ++ " in " ++ file
  | .notTable file found =>
    "invalid type: " ++ describeSetting found ++ ", expected a map in " ++ file ++ " in " ++ file
  | .notGroup found expected =>
    "invalid type: " ++ describeGroup found ++ ", expected " ++ expected
  | .unconvertible found expected key origin =>
    "invalid type: " ++ describeSetting found ++ ", expected " ++ expected
      ++ " for key `" ++ key ++ "`" ++ (match origin with
        | some name => " in " ++ name
        | none => "")
  | .blankRootId => "transform.root_id must not be empty"
  | .zeroMinPathSegments => "templates.min_path_segments must be at least 1"

end SettingsError

end Relayout
