/-
  Relayout/Json/Decode.lean
  =========================
  **Reading typed values out of JSON values.**

  A record is read from an object, by the names of its fields, or from an array, by their
  order.  In an object the fields are checked in the order in which they stand, so the first
  bad one is reported; unknown members are ignored, and missing fields are noticed last.
  In an array, elements beyond the last field are refused.

  The program's layout types, and the linter's `lint_layout`, read their values in this way.
-/
import Relayout.Json.Basic
import Relayout.Decimal.Style
import Relayout.Text.Quoted

namespace Relayout

/-- What was found in the place of something else. -/
inductive Found where
  | null
  | boolean (b : Bool)
  | integer (n : Int)
  | floating (x : Double)
  | string (s : String)
  | sequence
  | map
deriving DecidableEq, Repr

/-- Why a value cannot be read as what it should be. -/
inductive DecodeError where
  | invalidType (found : Found) (expected : String)
  | invalidValue (found : Found) (expected : String)
  | invalidLength (length : Nat) (expected : String)
  | unknownVariant (name : String) (first second : String)
  | missingField (name : String)
  | noVariant (type : String)
deriving DecidableEq, Repr

/-- The words for what was found. -/
def Found.describe : Found → String
  | .null => "null"
  | .boolean b => "boolean `" ++ (if b then "true" else "false") ++ "`"
  | .integer n => "integer `" ++ toString n ++ "`"
  | .floating x => "floating point `" ++ Decimal.Style.json.write x ++ "`"
  | .string s => "string " ++ Text.quoted s
  | .sequence => "sequence"
  | .map => "map"

/-- The wording of an error. -/
def DecodeError.message : DecodeError → String
  | .invalidType found expected =>
    "invalid type: " ++ found.describe ++ ", expected " ++ expected
  | .invalidValue found expected =>
    "invalid value: " ++ found.describe ++ ", expected " ++ expected
  | .invalidLength length expected =>
    "invalid length " ++ toString length ++ ", expected " ++ expected
  | .unknownVariant name first second =>
    "unknown variant `" ++ name ++ "`, expected `" ++ first ++ "` or `" ++ second ++ "`"
  | .missingField name => "missing field `" ++ name ++ "`"
  | .noVariant type => "data did not match any variant of untagged enum " ++ type

/-- What a value is when something else was expected. -/
def Json.found : Json → Found
  | .null => .null
  | .bool b => .boolean b
  | .num (.int n) => .integer n
  | .num (.double x) => .floating x
  | .str s => .string s
  | .arr _ => .sequence
  | .obj _ => .map

namespace Decode

/-- Refuse a value for its type. -/
def wrongType {α : Type} (v : Json) (expected : String) : Except DecodeError α :=
  .error (.invalidType v.found expected)

/-- A string. -/
def string : Json → Except DecodeError String
  | .str s => .ok s
  | v => wrongType v "a string"

/-- A truth value. -/
def boolean : Json → Except DecodeError Bool
  | .bool b => .ok b
  | v => wrongType v "a boolean"

/-- An object, taken as it is. -/
def object : Json → Except DecodeError Members
  | .obj ms => .ok ms
  | v => wrongType v "a map"

/-- Any value. -/
def any (v : Json) : Except DecodeError Json := .ok v

/-- A count, written as an integer that is not negative. -/
def count : Json → Except DecodeError Nat
  | .num (.int n) =>
    if n < 0 then .error (.invalidValue (.integer n) "usize") else .ok n.toNat
  | v => wrongType v "usize"

/-- A value that may be missing or null. -/
def optional {α : Type} (read : Json → Except DecodeError α) :
    Option Json → Except DecodeError (Option α)
  | none => .ok none
  | some .null => .ok none
  | some v => (read v).map some

/-- A value that stands for a default when it is missing. -/
def orDefault {α : Type} (default : α) (read : Json → Except DecodeError α) :
    Option Json → Except DecodeError α
  | none => .ok default
  | some v => read v

/-- A value that has to be there. -/
def required {α : Type} (missing : DecodeError) (read : Json → Except DecodeError α) :
    Option Json → Except DecodeError α
  | none => .error missing
  | some v => read v

/-- Forget what was read. -/
def check {α : Type} (read : Option Json → Except DecodeError α) (v : Json) :
    Except DecodeError Unit :=
  (read (some v)).map (fun _ => ())

/-- Check members in order, stopping at the first error. -/
def checkMembers (field : String → Json → Except DecodeError Unit) :
    Members → Except DecodeError Unit
  | [] => .ok ()
  | (k, v) :: ms =>
    match field k v with
    | .ok _ => checkMembers field ms
    | .error e => .error e

/-- How a record is read: its name, its fields in order, how each is checked, and how the
    record is put together; the last is told which error stands for a missing first field. -/
structure Record (α : Type) where
  name : String
  fields : List String
  field : String → Json → Except DecodeError Unit
  build : DecodeError → Members → Except DecodeError α

namespace Record

/-- The number of fields in words. -/
def size {α : Type} (r : Record α) : String :=
  let n := r.fields.length
  toString n ++ (if n = 1 then " element" else " elements")

/-- Read a record from members. -/
def ofMembers {α : Type} (r : Record α) (missing : DecodeError) (ms : Members) :
    Except DecodeError α := do
  checkMembers r.field ms
  r.build missing ms

/-- Read a record from an object or an array. -/
def read {α : Type} (r : Record α) : Json → Except DecodeError α
  | .obj ms => r.ofMembers (.missingField (r.fields.headD "")) ms
  | .arr xs =>
    match r.ofMembers (.invalidLength 0 ("struct " ++ r.name ++ " with " ++ r.size))
        (r.fields.zip xs) with
    | .ok value =>
      if r.fields.length < xs.length then
        .error (.invalidLength xs.length "fewer elements in array")
      else .ok value
    | .error e => .error e
  | v => wrongType v ("struct " ++ r.name)

end Record

end Decode

end Relayout
