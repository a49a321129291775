/-
  Relayout/Toml/Value.lean
  ========================
  **TOML values and statements.**

  A TOML text is a list of statements: headers that name the table in which the following
  assignments are made, headers that begin another element of an array of tables, and
  assignments of a value to a dotted key.
-/
import Relayout.Decimal.Double

namespace Relayout.Toml

/-- A TOML value. Dates and times are kept as their text. -/
inductive Value where
  | str (text : String)
  | int (n : Int)
  | float (x : Double)
  | bool (b : Bool)
  | datetime (text : String)
  | array (items : List Value)
  | table (entries : List (String × Value))
deriving Inhabited, Repr

/-- The name of the type of a value. -/
def Value.typeName : Value → String
  | .str _ => "string"
  | .int _ => "integer"
  | .float _ => "float"
  | .bool _ => "boolean"
  | .datetime _ => "datetime"
  | .array _ => "array"
  | .table _ => "inline table"

/-- A statement of a TOML text. -/
inductive Statement where
  /-- The table in which assignments follow. -/
  | table (path : List String)
  /-- Another element of an array of tables, in which assignments follow. -/
  | element (path : List String)
  /-- A value for a key of the current table. -/
  | assign (path : List String) (value : Value)
deriving Inhabited, Repr

end Relayout.Toml
