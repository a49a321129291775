/-
  Relayout/Settings/Format.lean
  =============================
  **The file formats in which settings are given.**

  The extension of a file's name tells its format.  Whatever the format, the text has to hold
  a table, and every value in it is given by the file.  Files in RON are left out: a name that
  ends in `.ron` is one without a format here.

  `Format.read` reads the files that the program's `load_from` adds as sources.
-/
import Relayout.Ini.Reader
import Relayout.Json.Reader
import Relayout.Json5.Reader
import Relayout.Settings.Error
import Relayout.Text.Split
import Relayout.Toml.Reader
import Relayout.Yaml.Reader

namespace Relayout

namespace Given

/-- A JSON number. An integer that does not fit 64 bits with a sign is a float. -/
def ofNumber : Number → Scalar
  | .int n => if -Nat.pow 2 63 ≤ n && n < Nat.pow 2 63 then .int n else .float (Double.ofInt n)
  | .double x => .float x

mutual

/-- A value of JSON, JSON5 or YAML, given by a source. -/
def ofJson (origin : String) : Json → Given
  | .null => .scalar (some origin) .null
  | .bool b => .scalar (some origin) (.bool b)
  | .num n => .scalar (some origin) (ofNumber n)
  | .str s => .scalar (some origin) (.text s)
  | .arr xs => .list (some origin) (ofJsonElements origin xs)
  | .obj ms => .table (some origin) (ofJsonMembers origin ms)

/-- The elements of a JSON array. -/
def ofJsonElements (origin : String) : List Json → List Given
  | [] => []
  | x :: xs => ofJson origin x :: ofJsonElements origin xs

/-- The members of a JSON object. -/
def ofJsonMembers (origin : String) : List (String × Json) → List (String × Given)
  | [] => []
  | (k, v) :: ms => (k, ofJson origin v) :: ofJsonMembers origin ms

end

mutual

/-- A TOML value, given by a source. -/
def ofToml (origin : String) : Toml.Value → Given
  | .str s => .scalar (some origin) (.text s)
  | .int n => .scalar (some origin) (.int n)
  | .float x => .scalar (some origin) (.float x)
  | .bool b => .scalar (some origin) (.bool b)
  | .datetime s => .scalar (some origin) (.text s)
  | .array xs => .list (some origin) (ofTomlElements origin xs)
  | .table es => .table (some origin) (ofTomlEntries origin es)

/-- The elements of a TOML array. -/
def ofTomlElements (origin : String) : List Toml.Value → List Given
  | [] => []
  | x :: xs => ofToml origin x :: ofTomlElements origin xs

/-- The entries of a TOML table. -/
def ofTomlEntries (origin : String) : List (String × Toml.Value) → List (String × Given)
  | [] => []
  | (k, v) :: es => (k, ofToml origin v) :: ofTomlEntries origin es

end

namespace Entries

/-- What the statements of an INI text give. A section stands for a table; when its name comes
    again, only the later one counts. The third argument is the section in which assignments
    follow, with what it has been given. -/
def ofIni (origin : String) : Entries → Option (String × Entries) → List Ini.Statement → Entries
  | done, none, [] => done
  | done, some (name, inner), [] => done.set name (.table (some origin) inner)
  | done, none, .group name :: ss => ofIni origin done (some (name, [])) ss
  | done, some (last, inner), .group name :: ss =>
    ofIni origin (done.set last (.table (some origin) inner)) (some (name, [])) ss
  | done, none, .assign key value :: ss =>
    ofIni origin (done.set key (.scalar (some origin) (.text value))) none ss
  | done, some (name, inner), .assign key value :: ss =>
    ofIni origin done (some (name, inner.set key (.scalar (some origin) (.text value)))) ss

end Entries

end Given

/-- A file format. -/
inductive Format where
  | toml
  | json
  | yaml
  | ini
  | json5
deriving DecidableEq, Repr

namespace Format

/-- The formats, in the order in which they are tried; RON is left out. -/
def all : List Format := [.toml, .json, .yaml, .ini, .json5]

/-- The extensions of a format. -/
def extensions : Format → List String
  | .toml => ["toml"]
  | .json => ["json"]
  | .yaml => ["yaml", "yml"]
  | .ini => ["ini"]
  | .json5 => ["json5"]

/-- The text after the last point of a file's name, unless the point begins the name. -/
def extension (name : String) : String :=
  let base := (Text.split '/' name.toList).getLastD []
  let parts := Text.split '.' base
  if parts.length ≤ 1 || (parts.length = 2 && parts.head? = some []) then ""
  else String.ofList (parts.getLastD [])

/-- The format of the file with a name. -/
def ofName? (name : String) : Option Format :=
  all.find? (fun format => format.extensions.contains (extension name))

/-- The table that a file holds as its only value. -/
def table (file : String) (v : Json) : Except SettingsError Given.Entries :=
  match Given.ofJson file v with
  | .table _ entries => .ok entries
  | other => .error (.notTable file other.found)

/-- The table in the only document of a file. A file without documents holds an empty one. -/
def onlyDocument (file : String) : List Json → Except SettingsError Given.Entries
  | [] => .ok []
  | [v] => table file v
  | vs =>
    .error (.malformed file ("Got " ++ toString vs.length ++ " YAML documents, expected 1"))

/-- What the text of a file gives. -/
def read (format : Format) (file text : String) : Except SettingsError Given.Entries :=
  match format with
  | .toml => ((Toml.read text).mapError (.malformed file)).map (Given.ofTomlEntries file)
  | .json => (Json.read text).mapError (fun e => .malformed file e.message) >>= table file
  | .yaml => (Yaml.read text).mapError (.malformed file) >>= onlyDocument file
  | .ini => ((Ini.read text).mapError (.malformed file)).map (Given.Entries.ofIni file [] none)
  | .json5 => (Json5.read text).mapError (fun e => .malformed file e.message) >>= table file

end Format

end Relayout
