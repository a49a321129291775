/-
  Relayout/Json/Reader.lean
  =========================
  **Reading JSON text.**

  `Json.read` reads one value and nothing after it but blanks.  Members keep the order in
  which they are written; of a repeated key the first place and the last value are kept.
  A fault is reported with its line and its column in bytes.  Arrays and objects may nest
  to a depth of 127.

  Schemas are read from text in this way, and settings from files that end in `.json`.
-/
import Relayout.Json.Number
import Relayout.Text.Basic

namespace Relayout

namespace Json.Reader

/-- Drop the four blanks of JSON. -/
def skipBlanks : List Char → List Char
  | c :: cs => if c = ' ' || c = '\n' || c = '\t' || c = '\r' then skipBlanks cs else c :: cs
  | [] => []

/-- Four hexadecimal digits. -/
def fourHex (cs : List Char) : Except Fault (Nat × List Char) :=
  match cs with
  | a :: b :: c :: d :: rest =>
    match Text.hexValue? a, Text.hexValue? b, Text.hexValue? c, Text.hexValue? d with
    | some a, some b, some c, some d => .ok (((a * 16 + b) * 16 + c) * 16 + d, rest)
    | _, _, _, _ => failBehind .invalidEscape rest
  | _ => failBehind .endOfString []

/-- The character of a `\u` escape, whose second half follows if it is a surrogate. -/
def unicodeEscape (cs : List Char) : Except Fault (Char × List Char) := do
  let (n, rest) ← fourHex cs
  if 0xDC00 ≤ n && n ≤ 0xDFFF then failBehind .loneSurrogate rest
  else if 0xD800 ≤ n && n ≤ 0xDBFF then
    match rest with
    | '\\' :: 'u' :: rest =>
      let (low, rest) ← fourHex rest
      if 0xDC00 ≤ low && low ≤ 0xDFFF then
        return (Char.ofNat (0x10000 + (n - 0xD800) * 0x400 + (low - 0xDC00)), rest)
      else failBehind .loneSurrogate rest
    | '\\' :: _ :: rest => failBehind .endOfEscape rest
    | _ :: rest => failBehind .endOfEscape rest
    | [] => failBehind .endOfString []
  else return (Char.ofNat n, rest)

/-- The rest of a string after its opening quote. The first argument bounds the rounds; every
    round reads at least one character. -/
def stringTail : Nat → List Char → List Char → Except Fault (String × List Char)
  | 0, _, cs => failBehind .endOfString cs
  | _, _, [] => failBehind .endOfString []
  | rounds + 1, acc, c :: cs =>
    if c = '"' then .ok (String.ofList acc.reverse, cs)
    else if c = '\\' then
      match cs with
      | [] => failBehind .endOfString []
      | e :: rest =>
        if e = 'u' then do
          let (ch, rest) ← unicodeEscape rest
          stringTail rounds (ch :: acc) rest
        else
          match simpleEscape? e with
          | some ch => stringTail rounds (ch :: acc) rest
          | none => failBehind .invalidEscape rest
    else if c.toNat < 32 then failBehind .controlCharacter cs
    else stringTail rounds (c :: acc) cs
where
  /-- The escapes of one letter. -/
  simpleEscape? (e : Char) : Option Char :=
    if e = '"' || e = '\\' || e = '/' then some e
    else if e = 'b' then some (Char.ofNat 8)
    else if e = 'f' then some (Char.ofNat 12)
    else if e = 'n' then some '\n'
    else if e = 'r' then some '\r'
    else if e = 't' then some '\t'
    else none

/-- A string whose opening quote has been read. -/
def string (cs : List Char) : Except Fault (String × List Char) := stringTail (cs.length + 1) [] cs

/-- The remaining letters of `null`, `true` or `false`. -/
def word (value : Json) : List Char → List Char → Except Fault (Json × List Char)
  | [], cs => .ok (value, cs)
  | _ :: _, [] => failBehind .endOfValue []
  | w :: ws, c :: cs => if c = w then word value ws cs else failBehind .expectedWord cs

mutual

/-- One value, at a depth that may still grow by the second argument. -/
def value : Nat → Nat → List Char → Except Fault (Json × List Char)
  | 0, _, cs => failAhead .expectedValue cs
  | rounds + 1, depth, cs =>
    match skipBlanks cs with
    | [] => failAhead .endOfValue []
    | c :: rest =>
      if c = 'n' then word .null ['u', 'l', 'l'] rest
      else if c = 't' then word (.bool true) ['r', 'u', 'e'] rest
      else if c = 'f' then word (.bool false) ['a', 'l', 's', 'e'] rest
      else if c = '-' then do
        let (n, rest) ← NumberText.unsigned true rest
        return (.num n, rest)
      else if c.isDigit then do
        let (n, rest) ← NumberText.unsigned false (c :: rest)
        return (.num n, rest)
      else if c = '"' then do
        let (s, rest) ← string rest
        return (.str s, rest)
      else if c = '[' then
        if depth ≤ 1 then failAhead .nestedTooDeeply (c :: rest)
        else do
          let (xs, rest) ← elements rounds (depth - 1) true rest
          return (.arr xs, rest)
      else if c = '{' then
        if depth ≤ 1 then failAhead .nestedTooDeeply (c :: rest)
        else do
          let (ms, rest) ← members rounds (depth - 1) true rest
          return (.obj (Members.ofList ms), rest)
      else failAhead .expectedValue (c :: rest)

/-- The elements of an array up to its end; the flag says that none has been read yet. -/
def elements : Nat → Nat → Bool → List Char → Except Fault (List Json × List Char)
  | 0, _, _, cs => failAhead .endOfList cs
  | rounds + 1, depth, first, cs =>
    match skipBlanks cs with
    | [] => failAhead .endOfList []
    | c :: rest =>
      if c = ']' then .ok ([], rest)
      else if first then do
        let (x, rest) ← value rounds depth (c :: rest)
        let (xs, rest) ← elements rounds depth false rest
        return (x :: xs, rest)
      else if c = ',' then
        match skipBlanks rest with
        | [] => failAhead .endOfValue []
        | d :: rest =>
          if d = ']' then failAhead .trailingComma (d :: rest)
          else do
            let (x, rest) ← value rounds depth (d :: rest)
            let (xs, rest) ← elements rounds depth false rest
            return (x :: xs, rest)
      else failAhead .expectedListEnd (c :: rest)

/-- The members of an object up to its end; the flag says that none has been read yet. -/
def members : Nat → Nat → Bool → List Char → Except Fault (List (String × Json) × List Char)
  | 0, _, _, cs => failAhead .endOfObject cs
  | rounds + 1, depth, first, cs =>
    match skipBlanks cs with
    | [] => failAhead .endOfObject []
    | c :: rest =>
      if c = '}' then .ok ([], rest)
      else if first then member rounds depth (c :: rest)
      else if c = ',' then
        match skipBlanks rest with
        | [] => failAhead .endOfValue []
        | d :: rest =>
          if d = '}' then failAhead .trailingComma (d :: rest)
          else member rounds depth (d :: rest)
      else failAhead .expectedObjectEnd (c :: rest)

/-- A member and the members after it. -/
def member : Nat → Nat → List Char → Except Fault (List (String × Json) × List Char)
  | 0, _, cs => failAhead .endOfObject cs
  | rounds + 1, depth, cs =>
    match cs with
    | '"' :: rest => do
      let (key, rest) ← string rest
      match skipBlanks rest with
      | [] => failAhead .endOfObject []
      | c :: rest =>
        if c = ':' then do
          let (v, rest) ← value rounds depth rest
          let (ms, rest) ← members rounds depth false rest
          return ((key, v) :: ms, rest)
        else failAhead .expectedColon (c :: rest)
    | rest => failAhead .keyNotString rest

end

end Json.Reader

namespace Json

/-- A fault in a text, with its place. -/
structure SyntaxError where
  cause : SyntaxCause
  line : Nat
  column : Nat
deriving DecidableEq, Repr

/-- The wording of a cause. -/
def SyntaxCause.message : SyntaxCause → String
  | .endOfValue => "EOF while parsing a value"
  | .endOfList => "EOF while parsing a list"
  | .endOfObject => "EOF while parsing an object"
  | .endOfString => "EOF while parsing a string"
  | .endOfEscape => "unexpected end of hex escape"
  | .expectedValue => "expected value"
  | .expectedWord => "expected ident"
  | .expectedColon => "expected `:`"
  | .expectedListEnd => "expected `,` or `]`"
  | .expectedObjectEnd => "expected `,` or `\x7d`"
  | .keyNotString => "key must be a string"
  | .trailingComma => "trailing comma"
  | .trailingText => "trailing characters"
  | .invalidEscape => "invalid escape"
  | .loneSurrogate => "lone leading surrogate in hex escape"
  | .controlCharacter => "control character (\\u0000-\\u001F) found while parsing a string"
  | .invalidNumber => "invalid number"
  | .numberTooLarge => "number out of range"
  | .nestedTooDeeply => "recursion limit exceeded"

/-- The wording of a syntax error. -/
def SyntaxError.message (e : SyntaxError) : String :=
  e.cause.message ++ " at line " ++ toString e.line ++ " column " ++ toString e.column

/-- Find the place of a fault in the text that was read. -/
def Fault.locate (fault : Fault) (text : List Char) : SyntaxError :=
  let done := text.take (text.length - fault.rest.length)
  let lastLine := (done.reverse.takeWhile (· ≠ '\n'))
  let bytes := lastLine.foldl (fun n c => n + c.utf8Size) 0
  let one := if fault.ahead && !fault.rest.isEmpty then 1 else 0
  ⟨fault.cause, 1 + done.count '\n', bytes + one⟩

/-- Read a whole text as one value. -/
def readChars (text : List Char) : Except Fault Json := do
  let (v, rest) ← Reader.value (2 * text.length + 2) 128 text
  match Reader.skipBlanks rest with
  | [] => return v
  | rest => failAhead .trailingText rest

/-- Read a text as one value. -/
def read (text : String) : Except SyntaxError Json :=
  match readChars text.toList with
  | .ok v => .ok v
  | .error fault => .error (fault.locate text.toList)

end Json

end Relayout
