/-
  Relayout/Toml/Fault.lean
  ========================
  **Why a text is not TOML, and where.**

  A fault says what was being read, what could have stood in its place, and why it was
  refused, as far as each of these is known.  It is shown with its line and a mark below the
  character where it was noticed.
-/

namespace Relayout.Toml

/-- Why something that could be read was refused. -/
inductive Reason where
  | outOfRange
  | tooLarge
  | tooSmall
  | nestedTooDeeply
  /-- A key is given twice, in a table if that is known. -/
  | duplicate (key : String) (table : Option (List String))
  /-- A key leads through a value that is not a table. -/
  | notTable (path : List String) (type : String)
deriving DecidableEq, Repr

/-- What is wrong. -/
structure Cause where
  /-- What was being read. -/
  label : Option String := none
  /-- What could have stood here. -/
  expected : List String := []
  reason : Option Reason := none
deriving DecidableEq, Repr

/-- A fault, with the text that was left where it was noticed. A soft fault is one of
    something that may be missing. -/
structure Fault where
  cause : Cause
  rest : List Char
  soft : Bool := false
deriving DecidableEq, Repr

/-- The wording of a reason. -/
def Reason.message : Reason → String
  | .outOfRange => "value is out of range"
  | .tooLarge => "number too large to fit in target type"
  | .tooSmall => "number too small to fit in target type"
  | .nestedTooDeeply => "recursion limit exceeded"
  | .duplicate key none => "duplicate key `" ++ key ++ "`"
  | .duplicate key (some []) => "duplicate key `" ++ key ++ "` in document root"
  | .duplicate key (some path) =>
    "duplicate key `" ++ key ++ "` in table `" ++ String.intercalate "." path ++ "`"
  | .notTable path type =>
    "dotted key `" ++ String.intercalate "." path ++ "` attempted to extend non-table type ("
      ++ type ++ ")"

namespace Cause

/-- Something was refused. -/
def ofReason (reason : Reason) : Cause := { reason := some reason }

/-- Something could not be read. -/
def ofLabel (label : String) : Cause := { label := some label }

/-- Only these could have stood here. -/
def ofExpected (expected : List String) : Cause := { expected := expected }

/-- The cause as part of something larger, which is named if nothing smaller is. -/
def inside (label : String) (cause : Cause) : Cause :=
  { cause with label := cause.label.or (some label) }

/-- The wording of a cause. -/
def message (cause : Cause) : String :=
  let label := cause.label.toList.map ("invalid " ++ ·)
  let expected :=
    if cause.expected.isEmpty then [] else ["expected " ++ String.intercalate ", " cause.expected]
  String.intercalate "\n" (label ++ expected ++ cause.reason.toList.map Reason.message)

end Cause

namespace Fault

/-- The fault as one of something larger. -/
def inside (label : String) (fault : Fault) : Fault :=
  { fault with cause := fault.cause.inside label }

/-- The wording of a fault in a text. A fault at the end is shown behind the last character. -/
def message (fault : Fault) (text : List Char) : String :=
  let atEnd := fault.rest.isEmpty
  let shown := if atEnd then text.drop (text.length - 1) else fault.rest
  let done := text.take (text.length - shown.length)
  let start := (done.reverse.takeWhile (· ≠ '\n')).reverse
  let column := start.length + (if atEnd && !text.isEmpty then 1 else 0)
  let number := toString (done.count '\n' + 1)
  let content := start ++ shown.takeWhile (· ≠ '\n')
  let gutter := String.ofList (List.replicate (number.length + 1) ' ')
  "TOML parse error at line " ++ number ++ ", column " ++ toString (column + 1) ++ "\n" ++
    gutter ++ "|\n" ++
    number ++ " | " ++ String.ofList content ++ "\n" ++
    gutter ++ "|" ++ String.ofList (List.replicate (column + 1) ' ') ++ "^\n" ++
    fault.cause.message ++ "\n"

end Fault

end Relayout.Toml
