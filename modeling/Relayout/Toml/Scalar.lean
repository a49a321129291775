/-
  Relayout/Toml/Scalar.lean
  =========================
  **Reading TOML numbers and words.**

  Digits may be grouped by single underscores.  An integer is decimal with an optional sign,
  or hexadecimal, octal or binary without one, and fits 64 bits.  A float has a fraction or
  an exponent and is rounded once; one that is too large is refused, unless it is negative.
-/
import Relayout.Toml.Value
import Relayout.Toml.Moment
import Relayout.Text.Basic

namespace Relayout.Toml

namespace Scalar

/-- The value of a digit below a base. -/
def digitBelow? (base : Nat) (c : Char) : Option Nat :=
  (Text.hexValue? c).filter (· < base)

/-- A run of digits below a base and what follows it. An underscore may stand between two
    digits. -/
def digitRun (base : Nat) : List Char → List Nat × List Char
  | [] => ([], [])
  | c :: cs =>
    match digitBelow? base c with
    | some d => (d :: (digitRun base cs).1, (digitRun base cs).2)
    | none =>
      if c = '_' && (cs.head?.bind (digitBelow? base)).isSome then digitRun base cs
      else ([], c :: cs)

/-- A run of digits that begins with a digit, after which no underscore stands. -/
def digits (base : Nat) (cs : List Char) : Except Fault (List Nat × List Char) :=
  if (cs.head?.bind (digitBelow? base)).isNone then .error ⟨{}, cs, true⟩
  else
    let r := digitRun base cs
    if r.2.head? = some '_' then .error ⟨.ofExpected ["digit"], r.2.drop 1, false⟩ else .ok r

/-- A fault that is no longer soft. -/
def firm (fault : Fault) : Fault := { fault with soft := false }

/-- The value of digits. -/
def value (base : Nat) (ds : List Nat) : Nat := ds.foldl (fun n d => base * n + d) 0

/-- The digits before the point, which have no needless zero in front. -/
def wholeDigits (cs : List Char) : Except Fault (List Nat × List Char) :=
  match cs with
  | '0' :: rest => .ok ([0], rest)
  | _ => (digits 10 cs).mapError (Fault.inside "integer")

/-- An integer, if it fits 64 bits; else the fault is that of the whole number. -/
def integer (start : List Char) (n : Int) (rest : List Char) :
    Except Fault (Value × List Char) :=
  match Text.fitting? n with
  | some n => .ok (.int n, rest)
  | none => .error ⟨.ofReason (if n < 0 then .tooSmall else .tooLarge), start, false⟩

/-- An integer in another base than ten, after its mark. -/
def based (base : Nat) (name : String) (start cs : List Char) :
    Except Fault (Value × List Char) := do
  let (ds, rest) ← (digits base cs).mapError (fun f => firm (f.inside (name ++ " integer")))
  integer start (value base ds) rest

/-- The digits after a point, or none where no point stands. -/
def fractionDigits : List Char → Except Fault (List Nat × List Char)
  | '.' :: cs =>
    (digits 10 cs).mapError fun f =>
      firm { f with cause := { f.cause with expected := f.cause.expected ++ ["digit"] } }
  | cs => .ok ([], cs)

/-- The exponent after its letter, or zero where no letter stands. -/
def exponent : List Char → Except Fault (Int × List Char)
  | c :: cs =>
    if c = 'e' || c = 'E' then do
      let (neg, cs) := Text.signed cs
      let (ds, rest) ← (digits 10 cs).mapError firm
      return (Text.withSign neg (value 10 ds), rest)
    else .ok (0, c :: cs)
  | [] => .ok (0, [])

/-- What follows the digits before the point of a float. -/
def afterWhole (neg : Bool) (whole : List Nat) (start cs : List Char) :
    Except Fault (Value × List Char) := do
  let (part, rest) ← fractionDigits cs
  let (power, rest) ← exponent rest
  let digits := whole ++ part
  let x := Double.ofDigits neg (value 10 digits) digits.length (power - part.length)
  if !neg && !x.isFinite then .error ⟨{}, start, false⟩ else return (.float x, rest)

/-- Whether a fraction or an exponent begins. -/
def floatGoesOn (cs : List Char) : Bool :=
  cs.head? = some '.' || cs.head? = some 'e' || cs.head? = some 'E'

/-- A number that is not in another base. -/
def number (cs : List Char) : Except Fault (Value × List Char) :=
  let (neg, body) := Text.signed cs
  match body with
  | 'i' :: 'n' :: 'f' :: rest => .ok (.float (Double.infinity neg), rest)
  | 'n' :: 'a' :: 'n' :: rest => .ok (.float (Double.nan neg), rest)
  | _ => do
    let (whole, rest) ← wholeDigits body
    if floatGoesOn rest then
      (afterWhole neg whole cs rest).mapError (Fault.inside "floating-point number")
    else integer cs (Text.withSign neg (value 10 whole)) rest

/-- What begins as no value does. -/
def noValue (cs : List Char) : Fault := ⟨⟨some "string", ["`\"`", "`'`"], none⟩, cs, true⟩

/-- A sign that a number could begin with, if a digit stood in its place. -/
def noDigit (label : String) (cs : List Char) : Fault :=
  ⟨⟨some label, ["leading digit"], none⟩, cs, true⟩

end Scalar

/-- The word, number or moment at the start of a text. -/
def scalar (cs : List Char) : Except Fault (Value × List Char) :=
  match cs with
  | [] => .error ⟨{}, [], true⟩
  | 't' :: 'r' :: 'u' :: 'e' :: rest => .ok (.bool true, rest)
  | 'f' :: 'a' :: 'l' :: 's' :: 'e' :: rest => .ok (.bool false, rest)
  | '0' :: 'x' :: rest => Scalar.based 16 "hexadecimal" cs rest
  | '0' :: 'o' :: rest => Scalar.based 8 "octal" cs rest
  | '0' :: 'b' :: rest => Scalar.based 2 "binary" cs rest
  | c :: _ =>
    if c.isDigit || c = '+' || c = '-' then
      match moment? cs with
      | some r => r.map (fun r => (.datetime r.1, r.2))
      | none => Scalar.number cs
    else if c = 'i' || c = 'n' then (Scalar.number cs).mapError (fun _ => Scalar.noValue cs)
    else if c = '_' then .error (Scalar.noDigit "integer" cs)
    else if c = '.' then .error (Scalar.noDigit "floating-point number" cs)
    else .error (Scalar.noValue cs)

end Relayout.Toml
