/-
  Relayout/Toml/Writer.lean
  =========================
  **Writing TOML text.**

  Of the four forms of a string the first is taken that shows the text with the fewest
  escapes: a basic string if nothing in it would have to be escaped, then a literal one, then
  the forms of several lines.  Only when no form can hold the text as it is are characters
  escaped.

  The program's `save` writes in this way.
-/
import Relayout.Toml.Text

namespace Relayout.Toml.Writer

/-- A control character that no form shows as it is. -/
def isCoded (c : Char) : Bool :=
  (c.toNat < 0x20 && c ≠ '\t' && c ≠ '\n') || c.toNat = 0x7F

/-- The length of the longest run of a character, after a run of `run` of them. -/
def longestRun (q : Char) : Nat → List Char → Nat
  | run, [] => run
  | run, c :: cs => if c = q then longestRun q (run + 1) cs else max run (longestRun q 0 cs)

/-- The form in which a text is written. -/
def formOf (cs : List Char) : Form :=
  let coded := cs.any isCoded
  let backslash := cs.contains '\\'
  let newline := cs.contains '\n'
  let singles := longestRun '\'' 0 cs
  let doubles := longestRun '"' 0 cs
  if !coded && !backslash && !newline && doubles = 0 then .basic
  else if !coded && !newline && singles = 0 then .literal
  else if !coded && !backslash && doubles ≤ 2 then .multilineBasic
  else if !coded && singles ≤ 2 then .multilineLiteral
  else if newline then .multilineBasic
  else .basic

/-- How a character other than the quote is written where escapes are known. -/
def escapeChar (form : Form) (c : Char) : List Char :=
  if c = '\\' then ['\\', '\\']
  else if c = '\t' then ['\\', 't']
  else if c = '\n' then (if form.multiline then ['\n'] else ['\\', 'n'])
  else if c = '\r' then ['\\', 'r']
  else if c.toNat = 8 then ['\\', 'b']
  else if c.toNat = 12 then ['\\', 'f']
  else if isCoded c then
    ['\\', 'u', '0', '0', Text.hexDigitUpper (c.toNat / 16), Text.hexDigitUpper (c.toNat % 16)]
  else [c]

/-- A text where escapes are known, after a run of `run` quotes. Only as many quotes stand
    together as cannot be taken for the end. -/
def escaped (form : Form) : Nat → List Char → List Char
  | _, [] => []
  | run, c :: cs =>
    if c = form.quote then
      if run < (if form.multiline then 2 else 0) then c :: escaped form (run + 1) cs
      else '\\' :: c :: escaped form 0 cs
    else escapeChar form c ++ escaped form 0 cs

/-- A text in a form. -/
def inForm (form : Form) (cs : List Char) : List Char :=
  let opening := if form.multiline && cs.contains '\n' then ['\n'] else []
  let body := if form.escapes then escaped form 0 cs else cs
  form.delimiter ++ opening ++ body ++ form.delimiter

/-- A string. -/
def quoted (s : String) : List Char := inForm (formOf s.toList) s.toList

/-- The header of a table. -/
def header (name : String) : List Char := '[' :: name.toList ++ [']', '\n']

/-- The assignment of a written value to a key. -/
def assignment (name : String) (value : List Char) : List Char :=
  name.toList ++ [' ', '=', ' '] ++ value ++ ['\n']

end Relayout.Toml.Writer
