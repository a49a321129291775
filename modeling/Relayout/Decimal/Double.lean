/-
  Relayout/Decimal/Double.lean
  ============================
  **Doubles as bit patterns with an exact meaning.**

  A double is its 64 bits.  A finite one stands for the rational `± m · 2^q` read off
  those bits, and `ofRatio` is the inverse direction: the double nearest to a rational,
  a half going to the even neighbour.  Products and quotients are computed on the
  rationals and rounded once, so nothing here leaves exact arithmetic.
-/

namespace Relayout

/-- An IEEE 754 binary64 value, by its bits. -/
structure Double where
  bits : UInt64
deriving DecidableEq, Repr, Inhabited

/-- `num / den` rounded to the nearest natural, a half to the even neighbour. -/
def roundHalfEven (num den : Nat) : Nat :=
  let q := num / den
  let r := num % den
  if 2 * r < den then q
  else if den < 2 * r then q + 1
  else if q % 2 = 0 then q else q + 1

namespace Double

/-- The sign bit. -/
def negative (x : Double) : Bool := x.bits.toNat / Nat.pow 2 63 = 1

/-- The eleven exponent bits. -/
def exponentField (x : Double) : Nat := x.bits.toNat / Nat.pow 2 52 % Nat.pow 2 11

/-- The fifty-two fraction bits. -/
def fractionField (x : Double) : Nat := x.bits.toNat % Nat.pow 2 52

/-- Neither an infinity nor a NaN. -/
def isFinite (x : Double) : Bool := x.exponentField ≠ 2047

/-- A NaN. -/
def isNaN (x : Double) : Bool := x.exponentField = 2047 && x.fractionField ≠ 0

/-- One of the two zeros. -/
def isZero (x : Double) : Bool := x.exponentField = 0 && x.fractionField = 0

/-- The `m` of a finite magnitude `m · 2^q`. -/
def significand (x : Double) : Nat :=
  if x.exponentField = 0 then x.fractionField else Nat.pow 2 52 + x.fractionField

/-- The `q + 1074` of a finite magnitude `m · 2^q`; it is never negative. -/
def scale (x : Double) : Nat := x.exponentField - 1

/-- The magnitude of a finite double as numerator and denominator. -/
def magnitude (x : Double) : Nat × Nat :=
  (x.significand * Nat.pow 2 x.scale, Nat.pow 2 1074)

/-- A finite double without a fraction part. -/
def isWhole (x : Double) : Bool := x.magnitude.1 % x.magnitude.2 = 0

/-- The bits of positive infinity. -/
def infinityBits : Nat := 2047 * Nat.pow 2 52

/-- Put a sign on a magnitude given by its bits. -/
def ofMagnitudeBits (neg : Bool) (bits : Nat) : Double :=
  ⟨UInt64.ofNat (if neg then Nat.pow 2 63 + bits else bits)⟩

/-- The largest `e` with `2^e ≤ num / den`, for positive arguments. -/
def floorLog2 (num den : Nat) : Int :=
  let e : Int := (num.log2 : Int) - (den.log2 : Int)
  let reached : Bool :=
    if 0 ≤ e then den * Nat.pow 2 e.toNat ≤ num else den ≤ num * Nat.pow 2 (-e).toNat
  if reached then e else e - 1

/-- The double nearest to `± num / den`, a half to the even neighbour. Values beyond the
    largest finite double become an infinity. -/
def ofRatio (neg : Bool) (num den : Nat) : Double :=
  if num = 0 then ofMagnitudeBits neg 0
  else
    let k := (floorLog2 num den + 1022).toNat
    let m := roundHalfEven (num * Nat.pow 2 1074) (den * Nat.pow 2 k)
    ofMagnitudeBits neg (min (k * Nat.pow 2 52 + m) infinityBits)

/-- The double nearest to an integer. -/
def ofInt (n : Int) : Double := ofRatio (n < 0) n.natAbs 1

/-- The double nearest to `± digits · 10^exponent`. -/
def ofDecimal (neg : Bool) (digits : Nat) (exponent : Int) : Double :=
  if 0 ≤ exponent then ofRatio neg (digits * Nat.pow 10 exponent.toNat) 1
  else ofRatio neg digits (Nat.pow 10 (-exponent).toNat)

/-- The double nearest to `± digits · 10^exponent`, where `digits` has no more decimal digits
    than `length`. An exponent far beyond the range of doubles is cut off where the result no
    longer changes. -/
def ofDigits (neg : Bool) (digits length : Nat) (exponent : Int) : Double :=
  let bound : Int := 400 + length
  ofDecimal neg digits (max (-bound) (min bound exponent))

/-- The double that is no number. -/
def nan (neg : Bool) : Double := ofMagnitudeBits neg (infinityBits + Nat.pow 2 51)

/-- The two infinities. -/
def infinity (neg : Bool) : Double := ofMagnitudeBits neg infinityBits

/-- The product of two finite magnitudes, rounded once. -/
def mulMagnitudes (x y : Double) : Double :=
  ofRatio false (x.magnitude.1 * y.magnitude.1) (x.magnitude.2 * y.magnitude.2)

/-- The quotient of two finite magnitudes, the second not zero, rounded once. -/
def divMagnitudes (x y : Double) : Double :=
  ofRatio false (x.magnitude.1 * y.magnitude.2) (x.magnitude.2 * y.magnitude.1)

/-- The same magnitude with this sign. -/
def withSign (neg : Bool) (x : Double) : Double :=
  ofMagnitudeBits neg (x.bits.toNat % Nat.pow 2 63)

/-- The magnitude of a finite double rounded to an integer, a half away from zero. -/
def roundHalfUp (x : Double) : Nat :=
  (2 * x.magnitude.1 + x.magnitude.2) / (2 * x.magnitude.2)

end Double

end Relayout
