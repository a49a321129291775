/-
  Relayout/Json5/Reader.lean
  ==========================
  **Reading JSON5 text.**

  JSON5 holds the same values as JSON and more ways to write them: comments, a comma after
  the last element, keys without quotes, strings in single quotes or over several lines, and
  numbers with a plus sign, in hexadecimal or not finite.  An integer has to fit 64 bits, a
  hexadecimal one 32.

  Settings are read in this way from files that end in `.json5`.
-/
import Relayout.Json.Reader
import Relayout.Text.Basic

namespace Relayout.Json5

open Json (Fault failAhead failBehind)

namespace Reader

/-! ### Between the signs -/

/-- The end of a line. -/
def endsLine (c : Char) : Bool :=
  c = '\n' || c = '\r' || c.toNat = 0x2028 || c.toNat = 0x2029

/-- A blank. -/
def isSpace (c : Char) : Bool := (Text.isBlank c && c.toNat ≠ 0x85) || c.toNat = 0xFEFF

/-- What surrounds a character between the signs. -/
inductive Surrounding where
  | nothing
  | lineComment
  /-- A comment that may span lines, with the text from its beginning. -/
  | blockComment (start : List Char)
deriving Repr

/-- Drop blanks and comments. A comment that is never closed is none. -/
def skip : Surrounding → List Char → List Char
  | .blockComment start, [] => start
  | _, [] => []
  | .blockComment _, '*' :: '/' :: cs => skip .nothing cs
  | .nothing, '/' :: '*' :: cs => skip (.blockComment ('/' :: '*' :: cs)) cs
  | .nothing, '/' :: '/' :: cs => skip .lineComment cs
  | .blockComment start, _ :: cs => skip (.blockComment start) cs
  | .lineComment, c :: cs => if endsLine c then skip .nothing cs else skip .lineComment cs
  | .nothing, c :: cs => if isSpace c then skip .nothing cs else c :: cs

/-- Drop blanks and comments. -/
def skipBlanks (cs : List Char) : List Char := skip .nothing cs

/-! ### Strings and keys -/

/-- The character of an escape of one letter, if it may stand after a backslash. -/
def escapedChar? (c : Char) : Option Char :=
  if c = '0' then some (Char.ofNat 0)
  else if c = 'b' then some (Char.ofNat 8)
  else if c = 't' then some '\t'
  else if c = 'n' then some '\n'
  else if c = 'v' then some (Char.ofNat 11)
  else if c = 'f' then some (Char.ofNat 12)
  else if c = 'r' then some '\r'
  else if c.isDigit then none
  else some c

/-- The rest of a string after its opening quote. The second argument bounds the rounds. -/
def stringTail (quote : Char) : Nat → List Char → Except Fault (List Char × List Char)
  | 0, cs => failBehind .endOfString cs
  | _, [] => failBehind .endOfString []
  | rounds + 1, c :: cs =>
    if c = quote then .ok ([], cs)
    else if endsLine c then failAhead .controlCharacter (c :: cs)
    else if c ≠ '\\' then add c (stringTail quote rounds cs)
    else
      match cs with
      | '\r' :: '\n' :: rest => stringTail quote rounds rest
      | 'x' :: rest =>
        match rest with
        | a :: b :: more =>
          match Text.hexValue? a, Text.hexValue? b with
          | some a, some b => add (Char.ofNat (16 * a + b)) (stringTail quote rounds more)
          | _, _ => failAhead .invalidEscape rest
        | _ => failBehind .endOfString []
      | 'u' :: rest => do
        let (e, rest) ← Json.Reader.unicodeEscape rest
        add e (stringTail quote rounds rest)
      | e :: rest =>
        if endsLine e then stringTail quote rounds rest
        else
          match escapedChar? e with
          | some e => add e (stringTail quote rounds rest)
          | none => failAhead .invalidEscape (e :: rest)
      | [] => failBehind .endOfString []
where
  /-- One more character in front of a text. -/
  add (c : Char) (r : Except Fault (List Char × List Char)) :
      Except Fault (List Char × List Char) :=
    r.map (fun r => (c :: r.1, r.2))

/-- A string whose opening quote has been read. -/
def string (quote : Char) (cs : List Char) : Except Fault (String × List Char) :=
  (stringTail quote (cs.length + 1) cs).map (fun r => (String.ofList r.1, r.2))

/-- A character with which a key without quotes may begin. Beyond ASCII all but blanks count
    as letters. -/
def beginsName (c : Char) : Bool :=
  c.isAlpha || c = '$' || c = '_' || (0x80 ≤ c.toNat && !isSpace c)

/-- A character of a key without quotes. -/
def isOfName (c : Char) : Bool := beginsName c || c.isDigit

/-- The name that stands here without quotes. The first argument bounds its length. -/
def name : Nat → List Char → Except Fault (List Char × List Char)
  | 0, cs => .ok ([], cs)
  | rounds + 1, cs =>
    match cs with
    | '\\' :: 'u' :: rest => do
      let (e, rest) ← Json.Reader.unicodeEscape rest
      (name rounds rest).map (fun r => (e :: r.1, r.2))
    | c :: rest =>
      if isOfName c then (name rounds rest).map (fun r => (c :: r.1, r.2)) else .ok ([], c :: rest)
    | [] => .ok ([], [])

/-- A key. -/
def key (cs : List Char) : Except Fault (String × List Char) :=
  match cs with
  | '"' :: rest => string '"' rest
  | '\'' :: rest => string '\'' rest
  | c :: rest =>
    if beginsName c || c = '\\' then
      (name (rest.length + 1) cs).map (fun r => (String.ofList r.1, r.2))
    else failAhead .keyNotString cs
  | [] => failAhead .endOfObject []

/-! ### Numbers -/

/-- The exponent after the digits of a number, if one is written. -/
def exponent? : List Char → Option (Int × List Char)
  | c :: cs =>
    let (neg, ds) := Text.signed cs
    if (c = 'e' || c = 'E') && (ds.head?.any Char.isDigit) then
      some (Text.withSign neg (Text.digitsValue (ds.takeWhile Char.isDigit)),
        ds.dropWhile Char.isDigit)
    else none
  | [] => none

/-- The digits before a point. None stand after a zero in front. -/
def wholeDigits : List Char → List Char × List Char
  | '0' :: cs => (['0'], cs)
  | cs => (cs.takeWhile Char.isDigit, cs.dropWhile Char.isDigit)

/-- A decimal number whose sign has been read. -/
def decimal (neg : Bool) (cs : List Char) : Except Fault (Number × List Char) :=
  let (whole, rest) := wholeDigits cs
  let (part, rest) := match rest with
    | '.' :: rest => (some (rest.takeWhile Char.isDigit), rest.dropWhile Char.isDigit)
    | rest => (none, rest)
  let digits := whole ++ part.getD []
  let float (e : Int) : Number :=
    .double (.ofDigits neg (Text.digitsValue digits) digits.length (e - (part.getD []).length))
  if digits.isEmpty then failAhead .expectedValue cs
  else
    match exponent? rest, part with
    | some (e, rest), _ => .ok (float e, rest)
    | none, some _ => .ok (float 0, rest)
    | none, none =>
      match Text.fitting? (Text.withSign neg (Text.digitsValue whole)) with
      | some n => .ok (.int n, rest)
      | none => failBehind .numberTooLarge rest

/-- A hexadecimal integer whose sign and mark have been read. -/
def hexadecimal (neg : Bool) (cs : List Char) : Except Fault (Number × List Char) :=
  let digits := cs.takeWhile (fun c => (Text.hexValue? c).isSome)
  let rest := cs.dropWhile (fun c => (Text.hexValue? c).isSome)
  let value := (digits.filterMap Text.hexValue?).foldl (fun n d => 16 * n + d) 0
  if digits.isEmpty then failAhead .invalidNumber cs
  else if Nat.pow 2 32 ≤ value then failBehind .numberTooLarge rest
  else .ok (.int (Text.withSign neg value), rest)

/-- A number. -/
def number (cs : List Char) : Except Fault (Number × List Char) :=
  let (neg, body) := Text.signed cs
  match body with
  | 'I' :: 'n' :: 'f' :: 'i' :: 'n' :: 'i' :: 't' :: 'y' :: rest =>
    .ok (.double (Double.infinity neg), rest)
  | 'N' :: 'a' :: 'N' :: rest => .ok (.double (Double.nan neg), rest)
  | '0' :: 'x' :: rest => hexadecimal neg rest
  | '0' :: 'X' :: rest => hexadecimal neg rest
  | _ => decimal neg body

/-! ### Values -/

mutual

/-- One value. In these functions the first argument bounds the rounds. -/
def value : Nat → List Char → Except Fault (Json × List Char)
  | 0, cs => failAhead .expectedValue cs
  | rounds + 1, cs =>
    match skipBlanks cs with
    | [] => failAhead .endOfValue []
    | 'n' :: 'u' :: 'l' :: 'l' :: rest => .ok (.null, rest)
    | 't' :: 'r' :: 'u' :: 'e' :: rest => .ok (.bool true, rest)
    | 'f' :: 'a' :: 'l' :: 's' :: 'e' :: rest => .ok (.bool false, rest)
    | '"' :: rest => (string '"' rest).map (fun r => (.str r.1, r.2))
    | '\'' :: rest => (string '\'' rest).map (fun r => (.str r.1, r.2))
    | '[' :: rest =>
      match skipBlanks rest with
      | ']' :: rest => .ok (.arr [], rest)
      | rest => (elements rounds rest).map (fun r => (.arr r.1, r.2))
    | '{' :: rest =>
      match skipBlanks rest with
      | '}' :: rest => .ok (.obj [], rest)
      | rest => (members rounds rest).map (fun r => (.obj (Members.ofList r.1), r.2))
    | rest => (number rest).map (fun r => (.num r.1, r.2))

/-- The elements of an array, of which there is at least one, and its end. -/
def elements : Nat → List Char → Except Fault (List Json × List Char)
  | 0, cs => failAhead .endOfList cs
  | rounds + 1, cs => do
    let (x, rest) ← value rounds cs
    match skipBlanks rest with
    | ']' :: rest => return ([x], rest)
    | ',' :: rest =>
      match skipBlanks rest with
      | ']' :: rest => return ([x], rest)
      | rest => (elements rounds rest).map (fun r => (x :: r.1, r.2))
    | [] => failAhead .endOfList []
    | rest => failAhead .expectedListEnd rest

/-- The members of an object, of which there is at least one, and its end. -/
def members : Nat → List Char → Except Fault (List (String × Json) × List Char)
  | 0, cs => failAhead .endOfObject cs
  | rounds + 1, cs => do
    let (k, rest) ← key cs
    match skipBlanks rest with
    | ':' :: rest =>
      let (v, rest) ← value rounds rest
      match skipBlanks rest with
      | '}' :: rest => return ([(k, v)], rest)
      | ',' :: rest =>
        match skipBlanks rest with
        | '}' :: rest => return ([(k, v)], rest)
        | rest => (members rounds rest).map (fun r => ((k, v) :: r.1, r.2))
      | [] => failAhead .endOfObject []
      | rest => failAhead .expectedObjectEnd rest
    | [] => failAhead .endOfObject []
    | rest => failAhead .expectedColon rest

end

end Reader

/-- Read a whole text as one value. -/
def readChars (text : List Char) : Except Fault Json := do
  let (v, rest) ← Reader.value (2 * text.length + 2) text
  match Reader.skipBlanks rest with
  | [] => return v
  | rest => failAhead .trailingText rest

/-- Read a text as one value. -/
def read (text : String) : Except Json.SyntaxError Json :=
  match readChars text.toList with
  | .ok v => .ok v
  | .error fault => .error (fault.locate text.toList)

end Relayout.Json5
