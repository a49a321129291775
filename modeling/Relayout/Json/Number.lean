/-
  Relayout/Json/Number.lean
  =========================
  **Reading the number at the start of a text.**

  An integer between `-2^63` and `2^64 - 1` stays an integer; `-0` and everything else is
  a double.  A double is read in two roundings: the digits that fit 64 bits are rounded to
  a double, and that double is multiplied or divided by a rounded power of ten.  Digits
  beyond those 64 bits only count as places of the exponent before the decimal point, and
  for nothing after it.
-/
import Relayout.Json.Basic

namespace Relayout

/-- Why a JSON text cannot be read. -/
inductive Json.SyntaxCause where
  | endOfValue
  | endOfList
  | endOfObject
  | endOfString
  | endOfEscape
  | expectedValue
  | expectedWord
  | expectedColon
  | expectedListEnd
  | expectedObjectEnd
  | keyNotString
  | trailingComma
  | trailingText
  | invalidEscape
  | loneSurrogate
  | controlCharacter
  | invalidNumber
  | numberTooLarge
  | nestedTooDeeply
deriving DecidableEq, Repr

/-- A fault, with the text that was left where it was noticed. `ahead` says that the fault
    is the next character and not the one before it. -/
structure Json.Fault where
  cause : Json.SyntaxCause
  rest : List Char
  ahead : Bool
deriving Repr

namespace Json

/-- Fail at the next character. -/
def failAhead {α : Type} (cause : SyntaxCause) (rest : List Char) : Except Fault α :=
  .error ⟨cause, rest, true⟩

/-- Fail at the character that was just read. -/
def failBehind {α : Type} (cause : SyntaxCause) (rest : List Char) : Except Fault α :=
  .error ⟨cause, rest, false⟩

namespace NumberText

/-- The value of a decimal digit. -/
def digitValue (c : Char) : Nat := c.toNat - 48

/-- The greatest significand kept. -/
def greatest : Nat := Nat.pow 2 64 - 1

/-- Take digits into a significand while it fits; what is left starts with the first digit
    that does not fit, or with no digit. -/
def takeDigits : Nat → Nat → List Char → Nat × Nat × List Char
  | acc, taken, c :: cs =>
    if c.isDigit then
      let next := acc * 10 + digitValue c
      if greatest < next then (acc, taken, c :: cs) else takeDigits next (taken + 1) cs
    else (acc, taken, c :: cs)
  | acc, taken, [] => (acc, taken, [])

/-- The double `± significand · 10^exponent`, read in two roundings; none if it is too large.
    Exponents below the table of powers are first raised by dividing by `10^308`. -/
def scaled (neg : Bool) (significand : Nat) (exponent : Int) : Option Double :=
  let start := Double.ofRatio false significand 1
  let power (n : Nat) : Double := Double.ofRatio false (Nat.pow 10 n) 1
  let checked (x : Double) : Option Double :=
    if x.isFinite then some (x.withSign neg) else none
  if 0 ≤ exponent then
    if exponent ≤ 308 then checked (start.mulMagnitudes (power exponent.toNat))
    else if start.isZero then some (start.withSign neg)
    else none
  else
    let below := (-exponent).toNat
    let rounds := (below - 1) / 308
    -- three divisions already leave zero, so further ones change nothing
    let lowered := (List.range (min rounds 4)).foldl
      (fun x _ => if x.isZero then x else x.divMagnitudes (power 308)) start
    if lowered.isZero then some (lowered.withSign neg)
    else checked (lowered.divMagnitudes (power (below - 308 * rounds)))

/-- The exponent part after its `e`. An exponent that does not fit 32 bits gives zero, or
    is too large. -/
def exponentPart (neg : Bool) (significand : Nat) (start : Int) (cs : List Char) :
    Except Fault (Number × List Char) := do
  let (negExp, cs) := match cs with
    | '+' :: cs => (false, cs)
    | '-' :: cs => (true, cs)
    | cs => (false, cs)
  match cs with
  | [] => failBehind .endOfValue []
  | c :: rest =>
    if !c.isDigit then failBehind .invalidNumber rest
    else
      let digits := cs.takeWhile Char.isDigit
      let rest := cs.dropWhile Char.isDigit
      let size := digits.foldl (fun n d => 10 * n + digitValue d) 0
      if Nat.pow 2 31 - 1 < size then
        if significand ≠ 0 && !negExp then failBehind .numberTooLarge rest
        else return (.double (Double.ofMagnitudeBits neg 0), rest)
      else
        let exponent : Int := if negExp then start - size else start + size
        match scaled neg significand exponent with
        | some x => return (.double x, rest)
        | none => failBehind .numberTooLarge rest

/-- What may follow the digits of a double: an exponent or the end. -/
def doubleTail (neg : Bool) (significand : Nat) (exponent : Int) (cs : List Char) :
    Except Fault (Number × List Char) :=
  let plain : Except Fault (Number × List Char) :=
    match scaled neg significand exponent with
    | some x => .ok (.double x, cs)
    | none => failBehind .numberTooLarge cs
  match cs with
  | c :: rest => if c = 'e' || c = 'E' then exponentPart neg significand exponent rest else plain
  | [] => plain

/-- The digits after a decimal point. -/
def fractionPart (neg : Bool) (significand : Nat) (exponent : Int) (cs : List Char) :
    Except Fault (Number × List Char) :=
  match cs with
  | [] => failAhead .endOfValue []
  | c :: _ =>
    if !c.isDigit then failAhead .invalidNumber cs
    else
      let (acc, taken, rest) := takeDigits significand 0 cs
      doubleTail neg acc (exponent - taken) (rest.dropWhile Char.isDigit)

/-- What may follow the integral digits of a number. -/
def afterDigits (neg : Bool) (significand : Nat) (dropped : Nat) (cs : List Char) :
    Except Fault (Number × List Char) :=
  match cs with
  | '.' :: rest => fractionPart neg significand dropped rest
  | c :: rest =>
    if c = 'e' || c = 'E' then exponentPart neg significand dropped rest
    else if dropped ≠ 0 then doubleTail neg significand dropped cs
    else .ok (integer, cs)
  | [] => if dropped ≠ 0 then doubleTail neg significand dropped cs else .ok (integer, cs)
where
  /-- The number without fraction and exponent. -/
  integer : Number :=
    if !neg then .int significand
    else if significand = 0 || Nat.pow 2 63 < significand then
      .double (Double.ofRatio true significand 1)
    else .int (-(significand : Int))

/-- The digits of a number whose sign has been read. -/
def unsigned (neg : Bool) : List Char → Except Fault (Number × List Char)
  | [] => failBehind .endOfValue []
  | '0' :: cs =>
    match cs with
    | c :: _ => if c.isDigit then failAhead .invalidNumber cs else afterDigits neg 0 0 cs
    | [] => afterDigits neg 0 0 []
  | c :: cs =>
    if !c.isDigit then failBehind .invalidNumber cs
    else
      let (acc, _, rest) := takeDigits 0 0 (c :: cs)
      let dropped := (rest.takeWhile Char.isDigit).length
      afterDigits neg acc dropped (rest.dropWhile Char.isDigit)

end NumberText

end Json

end Relayout
