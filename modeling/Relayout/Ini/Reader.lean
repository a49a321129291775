/-
  Relayout/Ini/Reader.lean
  ========================
  **Reading INI text.**

  A text is a list of statements: a name in brackets begins a section, and a key, an equals
  sign or colon and a value make an assignment in it.  A value goes to the end of its line
  and has no blanks at its ends; its beginning may be in quotes.  A backslash escapes, also
  in keys and in the names of sections.  A comment has its line for itself.

  Settings are read in this way from files that end in `.ini`.
-/
import Relayout.Text.Basic

namespace Relayout

/-! ### Where in a text something stands -/

namespace Text

/-- A place in a text. Both numbers count from zero. -/
structure Place where
  /-- The line ends before the place. -/
  line : Nat
  /-- The characters before the place on its line. -/
  column : Nat
deriving DecidableEq, Repr

/-- The place after a text. -/
def Place.after (done : List Char) : Place :=
  ⟨done.count '\n', (done.reverse.takeWhile (· ≠ '\n')).length⟩

/-- The place where the rest of a text begins. -/
def Place.ofRest (text rest : List Char) : Place :=
  .after (text.take (text.length - rest.length))

end Text

/-! ### Statements -/

namespace Ini

/-- A statement of an INI text. -/
inductive Statement where
  /-- The section in which assignments follow. -/
  | group (name : String)
  /-- A value for a key of the current section. -/
  | assign (key value : String)
deriving DecidableEq, Repr

/-- Why a text is not INI. -/
inductive Cause where
  | missingKey
  | commentAfterText
  | unknownCharacter
  /-- The text ends before one of these signs. -/
  | unexpectedEnd (signs : List Char)
deriving DecidableEq, Repr

/-- A fault, with the text that was left where it was noticed. -/
structure Fault where
  cause : Cause
  rest : List Char
deriving DecidableEq, Repr

namespace Reader

/-- The character of an escape of one letter. -/
def escapedChar (c : Char) : Char :=
  if c = '0' then Char.ofNat 0
  else if c = 'a' then Char.ofNat 7
  else if c = 'b' then Char.ofNat 8
  else if c = 't' then '\t'
  else if c = 'r' then '\r'
  else if c = 'n' then '\n'
  else c

/-- The character with a code point of four digits. -/
def codeChar? (ds : List Char) : Option Char := do
  let values ← ds.mapM Text.hexValue?
  let n := values.foldl (fun n d => 16 * n + d) 0
  if n < 0xD800 || 0xDFFF < n then some (Char.ofNat n) else none

/-- The text before the first of some signs, its escapes resolved, and what follows from the
    sign on. -/
def textUntil (signs : List Char) : List Char → Except Fault (List Char × List Char)
  | [] => .error ⟨.unexpectedEnd signs, []⟩
  | '\\' :: 'x' :: a :: b :: c :: d :: cs =>
    match codeChar? [a, b, c, d] with
    | some e => (textUntil signs cs).map (fun r => (e :: r.1, r.2))
    | none => .error ⟨.unknownCharacter, d :: cs⟩
  | '\\' :: '\n' :: cs => textUntil signs cs
  | '\\' :: c :: cs => (textUntil signs cs).map (fun r => (escapedChar c :: r.1, r.2))
  | c :: cs =>
    if signs.contains c then .ok ([], c :: cs)
    else if c = '\\' then .error ⟨.unexpectedEnd signs, []⟩
    else (textUntil signs cs).map (fun r => (c :: r.1, r.2))

/-- The text up to the end of the line, and what follows from there on. -/
def textOfLine (cs : List Char) : Except Fault (List Char × List Char) :=
  match textUntil ['\n', '\r'] (cs ++ ['\n']) with
  | .ok (text, rest) => .ok (text, rest.dropLast)
  | .error fault => .error fault

/-- A value: what stands in quotes, if it begins with a quote, and the rest of the line. -/
def value (cs : List Char) : Except Fault (List Char × List Char) :=
  match cs.dropWhile (fun c => Text.isBlank c && c ≠ '\n' && c ≠ '\r') with
  | [] => .ok ([], [])
  | c :: cs =>
    if c = '"' || c = '\'' then do
      let (quoted, rest) ← textUntil [c] cs
      let (text, rest) ← textOfLine (rest.drop 1)
      return (Text.trim (quoted ++ text), rest)
    else do
      let (text, rest) ← textOfLine (c :: cs)
      return (Text.trim text, rest)

/-- Whether the end of a line lies right before the rest of a text. -/
def atLineStart (text rest : List Char) : Bool := (Text.Place.ofRest text rest).column = 0

/-- The statements of the rest of a text. The second argument bounds their number. -/
def statements (text : List Char) : Nat → List Char → Except Fault (List Statement)
  | 0, _ => .ok []
  | rounds + 1, cs =>
    match cs.dropWhile Text.isBlank with
    | [] => .ok []
    | c :: cs =>
      if c = ';' || c = '#' then
        if atLineStart text (c :: cs) then statements text rounds (cs.dropWhile (· ≠ '\n'))
        else .error ⟨.commentAfterText, c :: cs⟩
      else if c = '[' then do
        let (name, rest) ← textUntil [']'] cs
        return .group (String.ofList (Text.trim name)) :: (← statements text rounds (rest.drop 1))
      else do
        let (key, rest) ← textUntil ['=', ':'] (c :: cs)
        if (Text.trim key).isEmpty then .error ⟨.missingKey, rest⟩
        else
          let (value, rest) ← value (rest.drop 1)
          return .assign (String.ofList (Text.trim key)) (String.ofList value)
            :: (← statements text rounds rest)

end Reader

/-- The wording of a cause. -/
def Cause.message : Cause → String
  | .missingKey => "missing key"
  | .commentAfterText => "doesn't support inline comment"
  | .unknownCharacter => "unknown character in \\xHH form"
  | .unexpectedEnd signs =>
    "expecting \"[" ++ String.intercalate ", " (signs.map describe) ++ "]\" but found EOF."
where
  /-- A sign in the list of those that were expected. -/
  describe (sign : Char) : String := "Some('" ++ String.singleton sign ++ "')"

/-- The wording of a fault in a text: its place is counted from one, behind the character at
    fault. -/
def Fault.message (fault : Fault) (text : List Char) : String :=
  let place := Text.Place.ofRest text (fault.rest.drop 1)
  toString (place.line + 1) ++ ":" ++ toString (place.column + 1) ++ " " ++ fault.cause.message

/-- The statements of a text, or the wording of its first fault. -/
def read (text : String) : Except String (List Statement) :=
  match Reader.statements text.toList (text.length + 1) text.toList with
  | .ok statements => .ok statements
  | .error fault => .error (fault.message text.toList)

end Ini

end Relayout
