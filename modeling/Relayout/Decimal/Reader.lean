/-
  Relayout/Decimal/Reader.lean
  ============================
  **Reading a whole text as a number.**

  An integer is decimal, with a sign or without, and fits 64 bits.  A float is a word for a
  value that is not finite, or digits with a point among them or at either end, and perhaps
  a power of ten; it is rounded once.
-/
import Relayout.Decimal.Double
import Relayout.Text.Basic

namespace Relayout.Decimal

/-- An integer of 64 bits. -/
def integer? (cs : List Char) : Option Int := do
  let (neg, ds) := Text.signed cs
  Text.fitting? (Text.withSign neg (← Text.digits? ds))

/-- The power of ten after the digits of a float. -/
def exponent? : List Char → Option Int
  | [] => some 0
  | c :: cs =>
    if c = 'e' || c = 'E' then
      let (neg, ds) := Text.signed cs
      (Text.digits? ds).map (Text.withSign neg)
    else none

/-- A float. -/
def float? (cs : List Char) : Option Double :=
  let (neg, body) := Text.signed cs
  let word := String.ofList (body.map Char.toLower)
  if word = "inf" || word = "infinity" then some (Double.infinity neg)
  else if word = "nan" then some (Double.nan neg)
  else
    let whole := body.takeWhile Char.isDigit
    let (part, rest) := match body.dropWhile Char.isDigit with
      | '.' :: rest => (rest.takeWhile Char.isDigit, rest.dropWhile Char.isDigit)
      | rest => ([], rest)
    if whole.isEmpty && part.isEmpty then none
    else
      let digits := whole ++ part
      (exponent? rest).map (fun e =>
        Double.ofDigits neg (Text.digitsValue digits) digits.length (e - part.length))

end Relayout.Decimal
