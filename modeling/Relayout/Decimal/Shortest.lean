/-
  Relayout/Decimal/Shortest.lean
  ==============================
  **The fewest decimal digits that read back as a given double.**

  A finite positive double `v` is the nearest double to every real of an interval around
  it, ends included exactly when its significand is even.  For one digit, two digits, and so
  on, the two neighbours of `v` on the grid of decimals with that many digits are tried;
  the first grid with a neighbour inside the interval gives the digits, and of two such
  neighbours the nearer one is taken.
-/
import Relayout.Decimal.Double

namespace Relayout

/-- A positive decimal `0.d₁d₂…dₙ · 10^point`, with `d₁` and `dₙ` not zero. -/
structure Decimal where
  digits : List Char
  point : Int
deriving DecidableEq, Repr, Inhabited

namespace Decimal

/-- The decimal `n · 10^exponent`, without zeros at its end. Zero is `0` before the point. -/
def ofNat (n : Nat) (exponent : Int) : Decimal :=
  if n = 0 then ⟨['0'], 1⟩
  else
    let ds := Nat.toDigits 10 n
    ⟨(ds.reverse.dropWhile (· == '0')).reverse, ds.length + exponent⟩

end Decimal

namespace Double

/-- A rational that lies below, inside or above the reals that round to a double. The interval
    is given by its ends over a common denominator, with a flag for whether they belong to it. -/
structure Interval where
  low : Nat
  value : Nat
  high : Nat
  den : Nat
  closed : Bool

/-- The reals that round to a positive finite double. -/
def interval (x : Double) : Interval :=
  let m := x.significand
  let unit := Nat.pow 2 x.scale
  let below := if m = Nat.pow 2 52 && 1 < x.exponentField then 1 else 2
  { low := (4 * m - below) * unit
    value := 4 * m * unit
    high := (4 * m + 2) * unit
    den := 4 * Nat.pow 2 1074
    closed := m % 2 = 0 }

/-- Whether `n · 10^exponent` lies in the interval. -/
def Interval.holds (i : Interval) (n : Nat) (exponent : Int) : Bool :=
  let num := if 0 ≤ exponent then n * Nat.pow 10 exponent.toNat else n
  let den := if 0 ≤ exponent then 1 else Nat.pow 10 (-exponent).toNat
  let a := num * i.den
  let low := i.low * den
  let high := i.high * den
  if i.closed then low ≤ a && a ≤ high else low < a && a < high

/-- The largest `e` with `10^e ≤ num / den`, searched upwards from a lower estimate. -/
def floorLog10 (num den : Nat) : Int :=
  let start : Int := floorLog2 num den * 30103 / 100000 - 1
  let atLeast (e : Int) : Bool :=
    if 0 ≤ e then den * Nat.pow 10 e.toNat ≤ num else den ≤ num * Nat.pow 10 (-e).toNat
  if atLeast (start + 2) then start + 2
  else if atLeast (start + 1) then start + 1
  else start

/-- The point of the grid `10^exponent` that stands for the double, if its neighbours there
    lie in the interval; of two the nearer, of two equally near ones the upper. -/
def gridPoint? (i : Interval) (exponent : Int) : Option Nat :=
  let num := if 0 ≤ exponent then i.value else i.value * Nat.pow 10 (-exponent).toNat
  let den := if 0 ≤ exponent then i.den * Nat.pow 10 exponent.toNat else i.den
  let down := num / den
  let rest := num % den
  let downHolds := i.holds down exponent
  let upHolds := i.holds (down + 1) exponent
  if downHolds && (!upHolds || 2 * rest < den) then some down
  else if upHolds then some (down + 1)
  else none

/-- Try grids of one digit more each time, at most `tries` of them. -/
def searchGrids (i : Interval) : Nat → Int → Decimal
  | 0, exponent => Decimal.ofNat (i.value / i.den) exponent
  | tries + 1, exponent =>
    match gridPoint? i exponent with
    | some n => Decimal.ofNat n exponent
    | none => searchGrids i tries (exponent - 1)

/-- The shortest decimal that reads back as the magnitude of a finite double. -/
def shortest (x : Double) : Decimal :=
  if x.isZero then Decimal.ofNat 0 0
  else
    let i := x.interval
    searchGrids i 18 (floorLog10 i.value i.den)

end Double

end Relayout
