/-
  Relayout/Toml/Text.lean
  =======================
  **Reading the four forms of TOML strings.**

  A basic string is in double quotes and knows escapes; a literal string is in single quotes
  and knows none; either may be written with its quotes tripled, and may then run over
  several lines.  A string is read one character at a time: `Form.step` says, for the state
  that the reading is in, what a character adds to the text and which state follows.
-/
import Relayout.Toml.Fault
import Relayout.Text.Basic

namespace Relayout.Toml

/-- How a string is delimited and what may stand in it. -/
structure Form where
  quote : Char
  escapes : Bool
  multiline : Bool
deriving DecidableEq, Repr

namespace Form

def basic : Form := ⟨'"', true, false⟩
def literal : Form := ⟨'\'', false, false⟩
def multilineBasic : Form := ⟨'"', true, true⟩
def multilineLiteral : Form := ⟨'\'', false, true⟩

/-- How often the quote stands at either end. -/
def delimiter (form : Form) : List Char :=
  List.replicate (if form.multiline then 3 else 1) form.quote

end Form

/-- A control character, the tab excepted. -/
def isControl (c : Char) : Bool := (c.toNat < 0x20 && c ≠ '\t') || c.toNat = 0x7F

/-- The character of an escape of one letter. -/
def escapedChar? (c : Char) : Option Char :=
  if c = '"' || c = '\\' then some c
  else if c = 'b' then some (Char.ofNat 8)
  else if c = 'f' then some (Char.ofNat 12)
  else if c = 'n' then some '\n'
  else if c = 'r' then some '\r'
  else if c = 't' then some '\t'
  else none

/-- The character with a code point. -/
def codeChar? (n : Nat) : Option Char :=
  if n < 0xD800 || (0xDFFF < n && n < 0x110000) then some (Char.ofNat n) else none

/-- The state that the reading of a string is in. -/
inductive Mode where
  /-- After this many quotes of a string of several lines, which are part of the text or of
      its end. -/
  | plain (quotes : Nat)
  /-- After a backslash. -/
  | escape
  /-- In an escape with a code point, before this many digits. -/
  | code (left : Nat) (value : Nat)
  /-- After a backslash and blanks, before the end of the line. -/
  | lineEnd
  /-- After a backslash at the end of a line, where blanks and line ends are left out. -/
  | skipping
  /-- After a carriage return, before its newline; the flag says that it is left out. -/
  | carriage (skips : Bool)
deriving DecidableEq, Repr

/-- What a character does. -/
inductive Step where
  /-- It adds to the text. -/
  | go (added : List Char) (next : Mode)
  /-- It ends the string, and belongs to it if the flag says so. -/
  | stop (added : List Char) (taken : Bool)
  /-- It may not stand here. -/
  | refuse
deriving DecidableEq, Repr

namespace Form

/-- The effect of a character of the text itself, after quotes that belong to the text. -/
def textStep (form : Form) (quotes : Nat) (c : Char) : Step :=
  let before := List.replicate quotes form.quote
  if form.escapes && c = '\\' then .go before .escape
  else if form.multiline && c = '\n' then .go (before ++ ['\n']) (.plain 0)
  else if form.multiline && c = '\r' then .go before (.carriage false)
  else if isControl c then .refuse
  else .go (before ++ [c]) (.plain 0)

/-- The effect of a character where text or the end may stand. Three quotes end a string of
    several lines, and up to two quotes of the text may stand before them. -/
def plainStep (form : Form) (quotes : Nat) (c : Char) : Step :=
  if c = form.quote then
    if !form.multiline then .stop [] true
    else if quotes = 4 then .stop (List.replicate 2 form.quote) true
    else .go [] (.plain (quotes + 1))
  else if 3 ≤ quotes then .stop (List.replicate (quotes - 3) form.quote) false
  else form.textStep quotes c

/-- The effect of a character. -/
def step (form : Form) (mode : Mode) (c : Char) : Step :=
  match mode with
  | .plain quotes => form.plainStep quotes c
  | .escape =>
    if c = 'u' then .go [] (.code 4 0)
    else if c = 'U' then .go [] (.code 8 0)
    else
      match escapedChar? c with
      | some e => .go [e] (.plain 0)
      | none => if form.multiline then toLineEnd c else .refuse
  | .code left value =>
    match Text.hexValue? c with
    | none => .refuse
    | some d =>
      let value := 16 * value + d
      if left ≤ 1 then
        match codeChar? value with
        | some e => .go [e] (.plain 0)
        | none => .refuse
      else .go [] (.code (left - 1) value)
  | .lineEnd => toLineEnd c
  | .skipping =>
    if c = ' ' || c = '\t' || c = '\n' then .go [] .skipping
    else if c = '\r' then .go [] (.carriage true)
    else form.plainStep 0 c
  | .carriage skips =>
    if c ≠ '\n' then .refuse
    else if skips then .go [] .skipping
    else .go ['\n'] (.plain 0)
where
  /-- The effect of a character before the end of a line that is left out. -/
  toLineEnd (c : Char) : Step :=
    if c = ' ' || c = '\t' then .go [] .lineEnd
    else if c = '\n' then .go [] .skipping
    else if c = '\r' then .go [] (.carriage true)
    else .refuse

/-- What the end of the whole text makes of a state: after three quotes the string was
    already over. -/
def atEnd (form : Form) : Mode → Option (List Char)
  | .plain quotes =>
    if 3 ≤ quotes then some (List.replicate (quotes - 3) form.quote) else none
  | _ => none

/-- The name of the form. -/
def name (form : Form) : String :=
  (if form.multiline then "multiline " else "") ++
    (if form.escapes then "basic string" else "literal string")

/-- The letters and signs that may follow a backslash. -/
def escapeLetters : List String := ["`b`", "`f`", "`n`", "`r`", "`t`", "`u`", "`U`", "`\\`", "`\"`"]

/-- The fault of a character that is refused. A literal string may be missing. -/
def fault (form : Form) : Mode → List Char → Fault
  | .escape, rest => ⟨⟨some "escape sequence", escapeLetters, none⟩, rest.drop 1, false⟩
  | _, rest => ⟨.ofLabel form.name, rest, form = .literal⟩

/-- The text of a string and what follows the string. -/
def read (form : Form) : Mode → List Char → Except Fault (List Char × List Char)
  | mode, [] =>
    match form.atEnd mode with
    | some added => .ok (added, [])
    | none => .error (form.fault mode [])
  | mode, c :: cs =>
    match form.step mode c with
    | .go added next => (form.read next cs).map (fun r => (added ++ r.1, r.2))
    | .stop added taken => .ok (added, if taken then cs else c :: cs)
    | .refuse => .error (form.fault mode (c :: cs))

end Form

/-- The text after a line end right behind the opening quotes, which is not part of the
    string. -/
def afterFirstLineEnd : List Char → List Char
  | '\n' :: rest => rest
  | '\r' :: '\n' :: rest => rest
  | rest => rest

/-- The form of the string that begins here, and the text after its opening quotes. -/
def form? : List Char → Option (Form × List Char)
  | '"' :: '"' :: '"' :: rest => some (.multilineBasic, afterFirstLineEnd rest)
  | '"' :: rest => some (.basic, rest)
  | '\'' :: '\'' :: '\'' :: rest => some (.multilineLiteral, afterFirstLineEnd rest)
  | '\'' :: rest => some (.literal, rest)
  | _ => none

end Relayout.Toml
