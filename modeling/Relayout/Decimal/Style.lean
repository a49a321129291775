/-
  Relayout/Decimal/Style.lean
  ===========================
  **How a decimal is written out.**

  A style says between which positions of the decimal point a number is written
  positionally, whether an integral value gets a `.0`, and what the values that are not
  finite are called.  Outside the positional range the number is written with an exponent.
-/
import Relayout.Decimal.Shortest

namespace Relayout

/-- The choices that a written form of doubles leaves open. -/
structure Decimal.Style where
  /-- Positional when the point stands after at least this many digits … -/
  leastPoint : Option Int
  /-- … and after at most this many. -/
  greatestPoint : Option Int
  /-- Write `.0` after an integral value. -/
  keepFraction : Bool
deriving DecidableEq, Repr

namespace Decimal.Style

/-- JSON text: positional from `0.00001` up to sixteen integral digits, and always with a
    fraction or an exponent, so that the text reads back as a double. -/
def json : Decimal.Style := ⟨some (-4), some 16, true⟩

/-- Plain text: positional throughout and without a needless fraction. -/
def plain : Decimal.Style := ⟨none, none, false⟩

/-- Plain text in which every finite double shows a fraction. -/
def pointed : Decimal.Style := ⟨none, none, true⟩

/-- Whether a decimal with this point is written positionally. -/
def isPositional (n : Decimal.Style) (point : Int) : Bool :=
  (n.leastPoint.all (· ≤ point)) && (n.greatestPoint.all (point ≤ ·))

/-- The digits of a decimal with a point among them. -/
def positional (n : Decimal.Style) (d : Decimal) : List Char :=
  if d.point ≤ 0 then
    '0' :: '.' :: (List.replicate (-d.point).toNat '0' ++ d.digits)
  else
    let p := d.point.toNat
    if d.digits.length ≤ p then
      d.digits ++ List.replicate (p - d.digits.length) '0' ++
        (if n.keepFraction then ['.', '0'] else [])
    else d.digits.take p ++ '.' :: d.digits.drop p

/-- One digit before the point and a power of ten. -/
def scientific (d : Decimal) : List Char :=
  let fraction := d.digits.drop 1
  d.digits.take 1 ++ (if fraction.isEmpty then [] else '.' :: fraction)
    ++ 'e' :: (toString (d.point - 1)).toList

/-- The text of a double. -/
def write (n : Decimal.Style) (x : Double) : String :=
  if x.isNaN then "NaN"
  else
    let sign := if x.negative then ['-'] else []
    let body :=
      if !x.isFinite then ['i', 'n', 'f']
      else
        let d := x.shortest
        if n.isPositional d.point then n.positional d else scientific d
    String.ofList (sign ++ body)

end Decimal.Style

end Relayout
