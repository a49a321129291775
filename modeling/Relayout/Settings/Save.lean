/-
  Relayout/Settings/Save.lean
  ===========================
  **Settings as a file.**

  Settings are saved as TOML text in two tables.  Whole numbers in such a file are signed,
  so that half of the counts cannot be saved.

  `Settings.save` is the program's `save`.
-/
import Relayout.Settings.Sources
import Relayout.Toml.Writer

namespace Relayout

/-- Why settings cannot be saved. -/
inductive SaveError where
  | countTooLarge
deriving DecidableEq, Repr

/-- The wording of an error. -/
def SaveError.message : SaveError → String
  | .countTooLarge => "out-of-range value for u64 type"

namespace Settings

/-- The greatest count that can be saved. -/
def greatestSaved : Nat := Nat.pow 2 63 - 1

/-- The text that settings are saved as. -/
def textChars (s : Settings) : List Char :=
  Toml.Writer.header "transform" ++
  Toml.Writer.assignment "root_id" (Toml.Writer.quoted s.rootId) ++
  '\n' :: Toml.Writer.header "templates" ++
  Toml.Writer.assignment "min_path_segments" (Nat.toDigits 10 s.minPathSegments)

/-- Save settings. -/
def save (s : Settings) : Except SaveError String :=
  if greatestSaved < s.minPathSegments then .error .countTooLarge
  else .ok (String.ofList s.textChars)

/-- Load settings from a file with this text and from nowhere else. -/
def reload (name text : String) : Except SettingsError Settings :=
  SettingsSources.load ⟨[(name, text)], none, some name, []⟩

end Settings

end Relayout
