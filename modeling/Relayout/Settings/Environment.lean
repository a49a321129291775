/-
  Relayout/Settings/Environment.lean
  ==================================
  **Settings given by environment variables.**

  A variable whose name begins with `LAYOUT_COMPAT__`, in letters of any case, gives a
  setting; two underscores stand for a step into a table.  Its text is taken for a truth
  value, an integer or a float if it reads as one, tried in this order.

  `Environment.given` is the last source that the program's `load_from` adds.
-/
import Relayout.Decimal.Reader
import Relayout.Settings.Given

namespace Relayout

namespace Environment

/-- The beginning of the names that count. -/
def nameStart : List Char := "layout_compat__".toList

/-- A name in which every two underscores have become a point. -/
def dotted : List Char → List Char
  | '_' :: '_' :: cs => '.' :: dotted cs
  | c :: cs => c :: dotted cs
  | [] => []

/-- The key of a variable, if its name counts. -/
def key? (name : String) : Option String :=
  let cs := (foldKey name).toList
  if nameStart.isPrefixOf cs then some (String.ofList (dotted (cs.drop nameStart.length)))
  else none

/-- What the text of a variable stands for. -/
def scalar (text : String) : Scalar :=
  if foldKey text = "true" then .bool true
  else if foldKey text = "false" then .bool false
  else
    match Decimal.integer? text.toList with
    | some n => .int n
    | none =>
      match Decimal.float? text.toList with
      | some x => .float x
      | none => .text text

/-- The name of this source in messages. -/
def origin : String := "the environment"

/-- What variables, each a name and a text, give. -/
def given (settings : List (String × String)) : Given.Entries :=
  settings.filterMap (fun v =>
    (key? v.1).map (fun key => (key, .scalar (some origin) (scalar v.2))))

end Environment

end Relayout
