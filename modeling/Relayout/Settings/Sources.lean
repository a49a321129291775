/-
  Relayout/Settings/Sources.lean
  ==============================
  **Where settings come from.**

  Three files of a project, the file of the user, a file named explicitly and the
  environment give settings, each one over those before it.  All files but the explicit one
  may be missing; whatever is there has to be readable.

  `SettingsSources.load` is the program's `load_from`, and `projectFiles` its `PROJECT_FILES`.
-/
import Relayout.Settings.Environment
import Relayout.Settings.Field
import Relayout.Settings.Format
import Relayout.Settings.Key

namespace Relayout

/-- The files of a directory, each with its name and its text. -/
abbrev Files := List (String × String)

namespace Files

/-- The text of a file. -/
def get? (files : Files) (name : String) : Option String :=
  (files.find? (fun f => f.1 == name)).map Prod.snd

/-- The names under which a file is looked for when the name itself is not there. -/
def alternatives (name : String) : List String :=
  Format.all.flatMap (fun format => format.extensions.map (fun e => name ++ "." ++ e))

/-- The file with a name, or else one with a known extension added to it. -/
def find (files : Files) (name : String) : Except SettingsError (Format × String × String) :=
  match files.get? name with
  | some text =>
    match Format.ofName? name with
    | some format => .ok (format, name, text)
    | none => .error (.unknownFormat name)
  | none =>
    match (alternatives name).findSome? (fun other => do
        return (← Format.ofName? other, other, ← files.get? other)) with
    | some found => .ok found
    | none => .error (.fileNotFound name)

/-- What a file gives that has to be there. -/
def required (files : Files) (name : String) : Except SettingsError Given.Entries := do
  let (format, file, text) ← files.find name
  format.read file text

/-- What a file gives that may be missing. -/
def optional (files : Files) (name : String) : Except SettingsError Given.Entries :=
  match files.find name with
  | .ok (format, file, text) => format.read file text
  | .error _ => .ok []

end Files

/-- Everything that settings can come from. -/
structure SettingsSources where
  /-- The files of the working directory. -/
  files : Files
  /-- The file of the user: its name in messages and its text. -/
  user : Option (String × String)
  /-- The file that was asked for. -/
  explicit : Option String
  /-- The variables of the environment. -/
  environment : List (String × String)

namespace SettingsSources

/-- The files of a project, the lowest first. -/
def projectFiles : List String :=
  ["layout-compat.toml", ".layout-compat.toml", "config/layout-compat.toml"]

/-- What each source gives, the lowest first. -/
def given (s : SettingsSources) : Except SettingsError (List Given.Entries) := do
  let project ← projectFiles.mapM s.files.optional
  let user ← match s.user with
    | some (name, text) => Format.toml.read name text
    | none => .ok []
  let explicit ← match s.explicit with
    | some name => s.files.required name
    | none => .ok []
  return project ++ [user, explicit, Environment.given s.environment]

/-- The settings that all sources give together, if a migration can run with them. -/
def load (s : SettingsSources) : Except SettingsError Settings := do
  let settings ← Settings.ofGiven (Given.layers (← s.given))
  settings.check

end SettingsSources

end Relayout
