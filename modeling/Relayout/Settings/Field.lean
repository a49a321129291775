/-
  Relayout/Settings/Field.lean
  ============================
  **Reading the settings out of what the sources give.**

  Each setting is a field of a group.  A missing field or group stands for its default, and
  a group may be given as a list of its fields.  A text takes any scalar but null; a count
  takes a whole number, a truth value, a rounded float, or a text that says one of them.

  `Settings.ofGiven` is the deserialization of the program's `CompatConfig`, and `Settings.check`
  its `check`.
-/
import Relayout.Settings.Basic
import Relayout.Settings.Error
import Relayout.Text.Basic

namespace Relayout

namespace Given

/-- The text that a value stands for. -/
def toText? : Given → Option String
  | .scalar _ (.text s) => some s
  | .scalar _ (.bool b) => some (if b then "true" else "false")
  | .scalar _ (.int n) => some (toString n)
  | .scalar _ (.float x) => some (Decimal.Style.plain.write x)
  | _ => none

/-- The greatest count. -/
def greatestCount : Nat := Nat.pow 2 64 - 1

/-- The decimal digits of a count, perhaps after a plus sign. -/
def countOfDigits? (cs : List Char) : Option Nat :=
  let digits := match cs with
    | '+' :: rest => rest
    | cs => cs
  (Text.digits? digits).filter (· ≤ greatestCount)

/-- The count that a text says, as a number or as a word for yes or no. -/
def countOfText? (s : String) : Option Nat :=
  let word := foldKey s
  if word = "true" || word = "on" || word = "yes" then some 1
  else if word = "false" || word = "off" || word = "no" then some 0
  else countOfDigits? s.toList

/-- A float as a count: rounded, a half away from zero, and moved into the range of counts. -/
def countOfFloat (x : Double) : Nat :=
  if x.isNaN || x.negative then 0
  else if !x.isFinite then greatestCount
  else min x.roundHalfUp greatestCount

/-- The count that a value stands for, or what was expected in its place. -/
def toCount : Given → Except String Nat
  | .scalar _ (.int n) =>
    if n < 0 then .error "an unsigned 64 bit or less integer" else .ok n.toNat
  | .scalar _ (.bool b) => .ok (if b then 1 else 0)
  | .scalar _ (.float x) => .ok (countOfFloat x)
  | .scalar _ (.text s) =>
    match countOfText? s with
    | some n => .ok n
    | none => .error "an integer"
  | _ => .error "an integer"

end Given

/-- A setting: its group and its name there, what it is when nobody gives it, and how a given
    value is converted; a value that cannot be is refused by what was expected. -/
structure SettingField (α : Type) where
  group : String
  name : String
  record : String
  default : α
  convert : Given → Except String α

namespace SettingField

/-- Convert a value that was given under a key. -/
def read {α : Type} (f : SettingField α) (key : String) (v : Given) : Except SettingsError α :=
  match f.convert v with
  | .ok x => .ok x
  | .error expected => .error (.unconvertible v.found expected key v.origin)

/-- The value of a field in its group. -/
def ofGroup {α : Type} (f : SettingField α) : Given → Except SettingsError α
  | .table _ entries =>
    match Given.Entries.get? entries f.name with
    | some v => f.read (f.group ++ "." ++ f.name) v
    | none => .ok f.default
  | .list _ items =>
    match items with
    | v :: _ => f.read (f.group ++ "[0]") v
    | [] => .ok f.default
  | v => .error (.notGroup v.found ("struct " ++ f.record))

/-- The value of a field. -/
def get {α : Type} (f : SettingField α) (entries : Given.Entries) : Except SettingsError α :=
  match entries.get? f.group with
  | some v => f.ofGroup v
  | none => .ok f.default

end SettingField

namespace Settings

/-- The identity given to roots that declare none. -/
def rootIdField : SettingField String where
  group := "transform"
  name := "root_id"
  record := "TransformConfig"
  default := defaultRootId
  convert := fun v => match v.toText? with
    | some s => .ok s
    | none => .error "a string"

/-- How many segments a placeholder needs to be promoted. -/
def minPathSegmentsField : SettingField Nat where
  group := "templates"
  name := "min_path_segments"
  record := "TemplateConfig"
  default := Template.defaultMinSegments
  convert := Given.toCount

/-- The settings that sources give together. -/
def ofGiven (entries : Given.Entries) : Except SettingsError Settings := do
  let rootId ← rootIdField.get entries
  let minPathSegments ← minPathSegmentsField.get entries
  return { rootId := rootId, minPathSegments := minPathSegments }

/-- Refuse settings that no migration can run with. -/
def check (s : Settings) : Except SettingsError Settings :=
  if Text.isBlankText s.rootId then .error .blankRootId
  else if s.minPathSegments = 0 then .error .zeroMinPathSegments
  else .ok s

end Settings

end Relayout
