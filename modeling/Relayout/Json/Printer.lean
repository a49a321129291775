/-
  Relayout/Json/Printer.lean
  ==========================
  **Compact JSON text.**

  No blanks are written.  In a string the quote, the backslash and the characters below
  U+0020 are escaped, five of the latter by a letter of their own; everything else stands
  for itself.  Doubles are written with the fewest digits that read back.

  The program prints a `Value` in this way where a message shows one.
-/
import Relayout.Json.Basic
import Relayout.Decimal.Style
import Relayout.Text.Basic

namespace Relayout

/-- The text of a number. -/
def Number.write : Number → String
  | .int n => toString n
  | .double x => Decimal.Style.json.write x

namespace Json

/-- How one character is written inside a string. -/
def escapeChar (c : Char) : List Char :=
  if c = '"' then ['\\', '"']
  else if c = '\\' then ['\\', '\\']
  else if c = '\n' then ['\\', 'n']
  else if c = '\r' then ['\\', 'r']
  else if c = '\t' then ['\\', 't']
  else if c.toNat = 8 then ['\\', 'b']
  else if c.toNat = 12 then ['\\', 'f']
  else if c.toNat < 32 then
    ['\\', 'u', '0', '0', Text.hexDigit (c.toNat / 16), Text.hexDigit (c.toNat % 16)]
  else [c]

/-- The text of a string, quotes included. -/
def quote (s : String) : String :=
  String.ofList ('"' :: (s.toList.flatMap escapeChar ++ ['"']))

/-- Separate texts by commas. -/
def commaSeparated (texts : List String) : String :=
  String.intercalate "," texts

mutual

/-- The compact text of a value. -/
def compact : Json → String
  | .null => "null"
  | .bool b => if b then "true" else "false"
  | .num n => n.write
  | .str s => quote s
  | .arr xs => "[" ++ commaSeparated (compactElements xs) ++ "]"
  | .obj ms => "\x7b" ++ commaSeparated (compactMembers ms) ++ "\x7d"

/-- The texts of elements. -/
def compactElements : List Json → List String
  | [] => []
  | x :: xs => compact x :: compactElements xs

/-- The texts of members. -/
def compactMembers : Members → List String
  | [] => []
  | (k, v) :: ms => (quote k ++ ":" ++ compact v) :: compactMembers ms

end

end Json

end Relayout
