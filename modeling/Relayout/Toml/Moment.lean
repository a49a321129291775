/-
  Relayout/Toml/Moment.lean
  =========================
  **Dates and times in one spelling.**

  A moment may be written with a blank or a letter of either case between date and time,
  with more digits than count, and with zeros at the end of its fraction.  `moment` reads any
  such spelling and gives the one with `T`, `Z`, and the shortest fraction of at most nine
  digits.  Four digits and a hyphen begin a date, and two digits and a colon a time; faults
  before that are soft.
-/
import Relayout.Toml.Fault
import Relayout.Text.Basic

namespace Relayout.Toml

namespace Moment

/-- Exactly this many digits, with their value. -/
def digits? (count : Nat) (cs : List Char) : Option (Nat × List Char) :=
  let ds := cs.take count
  if ds.length = count then (Text.digits? ds).map (fun n => (n, cs.drop count)) else none

/-- Two digits whose value lies between limits. -/
def twoDigits (least greatest : Nat) (cs : List Char) : Except Fault (Nat × List Char) :=
  match digits? 2 cs with
  | none => .error ⟨{}, cs, false⟩
  | some (n, rest) =>
    if least ≤ n && n ≤ greatest then .ok (n, rest) else .error ⟨.ofReason .outOfRange, cs, false⟩

/-- A given sign, which is named if it is missing. -/
def sign (c : Char) (expected : List String) (cs : List Char) : Except Fault (List Char) :=
  if cs.head? = some c then .ok (cs.drop 1) else .error ⟨.ofExpected expected, cs, false⟩

/-- Two digits of a value. -/
def shown (n : Nat) : List Char := [Char.ofNat (48 + n / 10 % 10), Char.ofNat (48 + n % 10)]

/-- Whether a year has a leap day. -/
def isLeapYear (year : Nat) : Bool := year % 4 = 0 && (year % 100 ≠ 0 || year % 400 = 0)

/-- The number of days of a month. -/
def daysIn (year month : Nat) : Nat :=
  if month = 2 then (if isLeapYear year then 29 else 28)
  else if month = 4 || month = 6 || month = 9 || month = 11 then 30
  else 31

/-- The year that begins a date, with the hyphen after it. -/
def year? (cs : List Char) : Option (Nat × List Char) :=
  match digits? 4 cs with
  | some (year, '-' :: rest) => some (year, rest)
  | _ => none

/-- The hour that begins a time, with the colon after it. -/
def hour? (cs : List Char) : Option (Nat × List Char) :=
  match digits? 2 cs with
  | some (hour, ':' :: rest) => if hour ≤ 23 then some (hour, rest) else none
  | _ => none

/-- What follows the year of a date. -/
def afterYear (year : Nat) (cs : List Char) : Except Fault (List Char × List Char) := do
  let (month, rest) ← twoDigits 1 12 cs
  let rest ← sign '-' ["`-`"] rest
  let (day, afterDay) ← twoDigits 1 31 rest
  if daysIn year month < day then .error ⟨.ofReason .outOfRange, rest, false⟩
  else return (shown month ++ '-' :: shown day, afterDay)

/-- The fraction of a second: at most nine digits, without zeros at the end. -/
def fraction (ds : List Char) : List Char :=
  let ds := ((ds.take 9).reverse.dropWhile (· = '0')).reverse
  if ds.isEmpty then [] else '.' :: ds

/-- What follows the hour of a time. -/
def afterHour (hour : Nat) (cs : List Char) : Except Fault (List Char × List Char) := do
  let (minute, rest) ← twoDigits 0 59 cs
  let rest ← sign ':' [] rest
  let (second, rest) ← twoDigits 0 60 rest
  let whole := shown hour ++ ':' :: (shown minute ++ ':' :: shown second)
  match rest with
  | '.' :: more =>
    let ds := more.takeWhile Char.isDigit
    if ds.isEmpty then return (whole, rest)
    else return (whole ++ fraction ds, more.dropWhile Char.isDigit)
  | _ => return (whole, rest)

/-- The distance from universal time, or nothing where none is given. -/
def offset (cs : List Char) : Except Fault (List Char × List Char) :=
  match cs with
  | [] => .ok ([], [])
  | c :: rest =>
    if c = 'Z' || c = 'z' then .ok (['Z'], rest)
    else if c = '+' || c = '-' then do
      let (hour, rest) ← twoDigits 0 23 rest
      let rest ← sign ':' [] rest
      let (minute, rest) ← twoDigits 0 59 rest
      let shownSign := if c = '-' && 0 < hour + minute then '-' else '+'
      return (shownSign :: (shown hour ++ ':' :: shown minute), rest)
    else .ok ([], cs)

/-- What may follow a date: a time, with or without an offset. -/
def afterDate (cs : List Char) : Except Fault (List Char × List Char) :=
  match cs with
  | c :: more =>
    if c = 'T' || c = 't' || c = ' ' then
      match hour? more with
      | none => .ok ([], cs)
      | some (hour, rest) => do
        let (time, rest) ← afterHour hour rest
        let (distance, rest) ← (offset rest).mapError (Fault.inside "time offset")
        return ('T' :: time ++ distance, rest)
    else .ok ([], cs)
  | [] => .ok ([], [])

/-- A date, perhaps with a time, whose year has been read. -/
def date (year : Nat) (cs : List Char) : Except Fault (List Char × List Char) := do
  let (day, rest) ← afterYear year cs
  let (time, rest) ← afterDate rest
  return (day ++ time, rest)

end Moment

/-- The date, the time or both at the start of a text, if one begins there. -/
def moment? (cs : List Char) : Option (Except Fault (String × List Char)) :=
  match Moment.year? cs with
  | some (year, rest) =>
    some (((Moment.date year rest).mapError (Fault.inside "date-time")).map
      (fun r => (String.ofList (cs.take 5 ++ r.1), r.2)))
  | none =>
    (Moment.hour? cs).map fun (hour, rest) =>
      ((Moment.afterHour hour rest).mapError (Fault.inside "time")).map
        (fun r => (String.ofList r.1, r.2))

end Relayout.Toml
