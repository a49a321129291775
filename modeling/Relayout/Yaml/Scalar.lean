/-
  Relayout/Yaml/Scalar.lean
  =========================
  **Reading YAML scalars.**

  A scalar stands on one line.  In quotes it is a string; a plain one is a null, a truth
  value or a number if it reads as one, and else a string.  A plain scalar goes on to a
  colon with a blank behind it, to a comment, or to the end of its line; inside brackets
  also to a comma or a bracket.
-/
import Relayout.Decimal.Reader
import Relayout.Json.Basic
import Relayout.Text.Basic

namespace Relayout.Yaml

/-- Why a text is not read as YAML. -/
inductive Cause where
  | expectedValue
  | expectedKey
  | expectedListEnd
  | expectedMappingEnd
  | unclosedQuote
  | unknownEscape
  | trailingText
  | indentation
  /-- A float that is not finite in the words of YAML. -/
  | unreadableFloat (text : String)
deriving DecidableEq, Repr

namespace Scalar

/-- A blank inside a line. -/
def isSpace (c : Char) : Bool := c = ' ' || c = '\t' || c = '\r'

/-- Drop blanks. -/
def skipSpaces (cs : List Char) : List Char := cs.dropWhile isSpace

/-- A text without the blanks at its end. -/
def trimEnd (cs : List Char) : List Char := (cs.reverse.dropWhile isSpace).reverse

/-- Whether a blank or nothing follows. -/
def endsHere (cs : List Char) : Bool := cs.head?.all isSpace

/-- The signs that have a meaning inside brackets. -/
def isFlowSign (c : Char) : Bool := c = ',' || c = '[' || c = ']' || c = '{' || c = '}'

/-- Whether a plain scalar may begin here. -/
def beginsPlain (inFlow : Bool) : List Char → Bool
  | [] => false
  | c :: cs =>
    if c = '-' || c = '?' || c = ':' then
      !endsHere cs && !(inFlow && cs.head?.any isFlowSign)
    else !(isSpace c || isFlowSign c || ['#', '&', '*', '!', '|', '>', '\'', '"', '%', '@',
      Char.ofNat 0x60].contains c)

/-- The characters of a plain scalar and what follows it. -/
def plain (inFlow : Bool) : List Char → List Char × List Char
  | [] => ([], [])
  | c :: cs =>
    if (c = ':' && (endsHere cs || (inFlow && cs.head?.any isFlowSign)))
        || (isSpace c && cs.head? = some '#') || (inFlow && isFlowSign c) then ([], c :: cs)
    else (c :: (plain inFlow cs).1, (plain inFlow cs).2)

/-- The rest of a string in single quotes. A quote in it is written twice. -/
def singleQuoted : List Char → Except Cause (List Char × List Char)
  | [] => .error .unclosedQuote
  | '\'' :: '\'' :: cs => (singleQuoted cs).map (fun r => ('\'' :: r.1, r.2))
  | c :: cs =>
    if c = '\'' then .ok ([], cs) else (singleQuoted cs).map (fun r => (c :: r.1, r.2))

/-- The code point of an escape of one letter. -/
def escapedCode? (c : Char) : Option Nat :=
  [('0', 0), ('a', 7), ('b', 8), ('t', 9), ('\t', 9), ('n', 10), ('v', 11), ('f', 12), ('r', 13),
    ('e', 27), (' ', 32), ('"', 34), ('/', 47), ('\\', 92), ('N', 0x85), ('_', 0xA0),
    ('L', 0x2028), ('P', 0x2029)].lookup c

/-- How many digits follow the letter of an escape with a code point. -/
def codeLength? (c : Char) : Option Nat := [('x', 2), ('u', 4), ('U', 8)].lookup c

/-- The character with a code point in hexadecimal digits. -/
def codeChar? (ds : List Char) : Option Char := do
  let values ← ds.mapM Text.hexValue?
  let n := values.foldl (fun n d => 16 * n + d) 0
  if n < 0xD800 || (0xDFFF < n && n < 0x110000) then some (Char.ofNat n) else none

/-- The rest of a string in double quotes. The first argument bounds its length. -/
def doubleQuoted : Nat → List Char → Except Cause (List Char × List Char)
  | 0, _ => .error .unclosedQuote
  | _, [] => .error .unclosedQuote
  | rounds + 1, c :: cs =>
    if c = '"' then .ok ([], cs)
    else if c ≠ '\\' then (doubleQuoted rounds cs).map (fun r => (c :: r.1, r.2))
    else
      match cs with
      | [] => .error .unclosedQuote
      | e :: rest =>
        match escapedCode? e, codeLength? e with
        | some n, _ => (doubleQuoted rounds rest).map (fun r => (Char.ofNat n :: r.1, r.2))
        | none, some length =>
          match codeChar? (rest.take length) with
          | some e =>
            if rest.length < length then .error .unknownEscape
            else (doubleQuoted rounds (rest.drop length)).map (fun r => (e :: r.1, r.2))
          | none => .error .unknownEscape
        | none, none => .error .unknownEscape

/-- An integer in another base than ten, after its mark. -/
def based? (base : Nat) (cs : List Char) : Option Int := do
  let values ← cs.mapM (fun c => (Text.hexValue? c).filter (· < base))
  if values.isEmpty then none
  else Text.fitting? ((values.foldl (fun n d => base * n + d) 0 : Nat) : Int)

/-- An integer. -/
def integer? : List Char → Option Int
  | '0' :: 'x' :: cs => based? 16 cs
  | '0' :: 'o' :: cs => based? 8 cs
  | cs => Decimal.integer? cs

/-- The words for floats that are not finite. They are known as floats but cannot be read. -/
def isSpecialFloat (s : String) : Bool :=
  [".inf", ".Inf", ".INF", "+.inf", "+.Inf", "+.INF", "-.inf", "-.Inf", "-.INF", ".nan", ".NaN",
    ".NAN"].contains s

/-- What a plain scalar stands for. -/
def resolve (cs : List Char) : Except Cause Json :=
  let s := String.ofList cs
  if s = "" || s = "~" || s = "null" then .ok .null
  else if s = "true" then .ok (.bool true)
  else if s = "false" then .ok (.bool false)
  else if isSpecialFloat s then .error (.unreadableFloat s)
  else
    match integer? cs with
    | some n => .ok (.num (.int n))
    | none =>
      match Decimal.float? cs with
      | some x => .ok (.num (.double x))
      | none => .ok (.str s)

end Scalar

/-- A scalar as it is written. -/
inductive Written where
  | quoted (text : List Char)
  | plain (text : List Char)
deriving DecidableEq, Repr

namespace Written

/-- What a scalar stands for. -/
def value : Written → Except Cause Json
  | .quoted text => .ok (.str (String.ofList text))
  | .plain text => Scalar.resolve text

/-- A scalar as a key: a number is one in its usual form. -/
def key : Written → String
  | .quoted text => String.ofList text
  | .plain text =>
    match Scalar.integer? text with
    | some n => toString n
    | none => String.ofList text

end Written

/-- The scalar that stands here and what follows it. -/
def scalar (inFlow : Bool) (cs : List Char) : Except Cause (Written × List Char) :=
  match cs with
  | '\'' :: rest => (Scalar.singleQuoted rest).map (fun r => (.quoted r.1, r.2))
  | '"' :: rest => (Scalar.doubleQuoted (rest.length + 1) rest).map (fun r => (.quoted r.1, r.2))
  | _ =>
    if Scalar.beginsPlain inFlow cs then
      .ok (.plain (Scalar.trimEnd (Scalar.plain inFlow cs).1), (Scalar.plain inFlow cs).2)
    else .error .expectedValue

/-- The text after the colon behind a key, if one stands here. A colon behind a key in quotes
    needs no blank inside brackets. -/
def afterColon? (inFlow : Bool) (key : Written) (cs : List Char) : Option (List Char) :=
  match Scalar.skipSpaces cs, key with
  | ':' :: rest, .quoted _ => if inFlow || Scalar.endsHere rest then some rest else none
  | ':' :: rest, .plain _ =>
    if Scalar.endsHere rest || (inFlow && rest.head?.any Scalar.isFlowSign) then some rest
    else none
  | _, _ => none

/-- Whether nothing but a comment follows on the line, with a blank before it. -/
def onlyComment (cs : List Char) : Bool :=
  match Scalar.skipSpaces cs with
  | [] => true
  | '#' :: _ => (Scalar.skipSpaces cs).length < cs.length
  | _ => false

end Relayout.Yaml
