/-
  Relayout/Pattern/Escape.lean
  ============================
  **What may follow a backslash.**

  Outside classes a backslash makes an item of its own or takes the special meaning from a
  sign; inside classes some of these items are allowed as well.
-/
import Relayout.Pattern.Class
import Relayout.Pattern.Property
import Relayout.Text.Basic

namespace Relayout.Pattern

/-- What has been met of a pattern: how many groups have been opened, which of them have
    names, whether one was referred to by number, and whether blanks are to be skipped. -/
structure Scan where
  length : Nat
  groups : Nat := 0
  names : List (String × Nat) := []
  numbered : Bool := false
  spaced : Bool := false

/-- What an escape stands for. -/
inductive Escape where
  /-- One character. -/
  | literal (c : Char)
  /-- One of several characters. -/
  | set
  /-- A class written out. -/
  | spelled (tokens : List ClassToken)
  /-- A condition on a position; some of them can be recognised inside a class. -/
  | assertion
  /-- A group matched before. -/
  | backref (group : Nat)

/-- A number in decimal digits at the start of a text. -/
def decimal? (cs : List Char) : Option (Nat × List Char) :=
  let digits := cs.takeWhile Char.isDigit
  if digits.isEmpty then none
  else some (digits.foldl (fun n c => 10 * n + (c.toNat - 48)) 0, cs.drop digits.length)

/-- A code point, if it is that of a character. -/
def charOfCode? (n : Nat) : Option Char :=
  if n < 0xD800 || (0xDFFF < n && n < 0x110000) then some (Char.ofNat n) else none

/-- The value of hexadecimal digits. -/
def hexNumber (cs : List Char) : Nat :=
  cs.foldl (fun n c => 16 * n + (Text.hexValue? c).getD 0) 0

/-- A code point in so many hexadecimal digits, or in up to eight between braces. -/
def hexEscape? (count : Nat) (cs : List Char) : Option (Escape × List Char) :=
  let isHex := fun c => (Text.hexValue? c).isSome
  let plain := cs.take count
  if plain.length = count && plain.all isHex then
    (charOfCode? (hexNumber plain)).map (fun c => (.literal c, cs.drop count))
  else
    match cs with
    | '{' :: rest =>
      let digits := rest.takeWhile isHex
      match rest.drop digits.length with
      | '}' :: rest =>
        if digits.isEmpty || 8 < digits.length then none
        else (charOfCode? (hexNumber digits)).map (fun c => (.literal c, rest))
      | _ => none
    | _ => none

/-- A property: one letter, or a name between braces. -/
def propertyEscape? (cs : List Char) : Option (Escape × List Char) :=
  match cs with
  | '{' :: rest =>
    let name := rest.takeWhile (· ≠ '}')
    match rest.drop name.length with
    | '}' :: rest => if isProperty name then some (.set, rest) else none
    | _ => none
  | c :: rest => if isProperty [c] then some (.set, rest) else none
  | [] => none

/-- A name of letters, digits and underscores up to a closing sign. -/
def groupName? (close : Char) (cs : List Char) : Option (String × List Char) :=
  let isNameChar := fun (c : Char) => c.isAlphanum || c = '_' || 0x7F < c.toNat
  let name := cs.takeWhile isNameChar
  match cs.drop name.length with
  | c :: rest => if c = close && !name.isEmpty then some (String.ofList name, rest) else none
  | [] => none

/-- The group that a name or a number stands for. -/
def namedGroup? (scan : Scan) (name : String) : Option Nat :=
  match scan.names.lookup name with
  | some n => some n
  | none => (decimal? name.toList).bind (fun r => if r.2.isEmpty then some r.1 else none)

/-- A reference to a group has to follow the beginning of the group. -/
def backref? (scan : Scan) (group : Nat) : Option Escape :=
  if group ≤ scan.groups then some (.backref group) else none

/-- The digits of hexadecimal numbers, as a class written out. -/
def hexDigits (negated : Bool) : List ClassToken :=
  let ranges := "0-9A-Fa-f]".toList
  ('[' :: (if negated then '^' :: ranges else ranges)).map ClassToken.bare

/-- What stands after a backslash, and what is met with it. -/
def escape? (scan : Scan) : List Char → Option (Escape × Scan × List Char)
  | [] => none
  | c :: rest =>
    if c.isDigit then do
      let (n, rest) ← decimal? (c :: rest)
      if n < scan.length / 2 then
        let e ← backref? scan n
        return (e, { scan with numbered := true }, rest)
      else none
    else if c = 'k' then
      match rest with
      | '<' :: rest => do
        let (name, rest) ← groupName? '>' rest
        let e ← backref? scan (← namedGroup? scan name)
        return (e, scan, rest)
      | _ => none
    else if "AzbBKG".toList.contains c then some (.assertion, scan, rest)
    else if "dDsSwW".toList.contains c then some (.set, scan, rest)
    else if "afnrtve".toList.contains c then some (.literal (control c), scan, rest)
    else if c = 'h' || c = 'H' then some (.spelled (hexDigits (c = 'H')), scan, rest)
    else if c = 'x' then (hexEscape? 2 rest).map (fun r => (r.1, scan, r.2))
    else if c = 'u' then (hexEscape? 4 rest).map (fun r => (r.1, scan, r.2))
    else if c = 'U' then (hexEscape? 8 rest).map (fun r => (r.1, scan, r.2))
    else if c = 'p' || c = 'P' then (propertyEscape? rest).map (fun r => (r.1, scan, r.2))
    else if c.isAlpha || 0x7F < c.toNat then none
    else some (.literal c, scan, rest)
where
  /-- The control character that a letter stands for. -/
  control (c : Char) : Char :=
    Char.ofNat (match c with
      | 'a' => 7 | 'f' => 12 | 'n' => 10 | 'r' => 13 | 't' => 9 | 'v' => 11 | _ => 27)

/-- The tokens of a class after its opening bracket, up to the closing one, and what follows.
    The second argument counts the brackets that are open; the first bounds the rounds, each
    of which reads at least one character. -/
def classTokens? (scan : Scan) :
    Nat → Nat → List Char → Option (List ClassToken × Scan × List Char)
  | 0, _, _ => none
  | _, _, [] => none
  | rounds + 1, depth, c :: rest =>
    if c = '\\' then do
      let (e, scan', rest) ← escape? scan rest
      let tokens ← match e with
        | .literal c => some [.literal c]
        | .set => some [.set]
        | .spelled tokens => some tokens
        | .assertion => some [.invalid]
        | .backref _ => none
      let (more, scan', rest) ← classTokens? scan' rounds depth rest
      return (tokens ++ more, scan', rest)
    else if c = ']' && depth ≤ 1 then some ([.bare ']'], scan, rest)
    else do
      let depth := if c = '[' then depth + 1 else if c = ']' then depth - 1 else depth
      let (more, scan', rest) ← classTokens? scan rounds depth rest
      return (.bare c :: more, scan', rest)

/-- A class whose opening bracket has been read. A sign of negation, and a closing bracket
    right after it, belong to the class. -/
def class? (scan : Scan) (cs : List Char) : Option (Scan × List Char) := do
  let (head, cs) := match cs with
    | '^' :: cs => ([ClassToken.bare '^'], cs)
    | cs => ([], cs)
  let (head, cs) := match cs with
    | ']' :: cs => (head ++ [ClassToken.bare ']'], cs)
    | cs => (head, cs)
  let (tokens, scan, rest) ← classTokens? scan (cs.length + 1) 1 cs
  if isClass (head ++ tokens) then some (scan, rest) else none

end Relayout.Pattern
