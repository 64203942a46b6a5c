import EcmaMachine.Number.Reader
import EcmaMachine.Number.Text

/-!
Dates and times as they stand in settings files: a day, a time of day, or both with an optional
distance from universal time. A setting keeps one as text, in one form: `T` before the time,
fractions of a second without zeros at their end.
-/

namespace EcmaMachine

structure Day where
  year : Nat
  month : Nat
  day : Nat

structure Clock where
  hour : Nat
  minute : Nat
  second : Nat
  nanosecond : Nat

inductive Zone
  | universal
  /-- The distance in minutes. -/
  | offset (minutes : Int)

namespace Date

/-- A number of exactly `n` digits between two bounds. -/
def number? (n low high : Nat) (cs : List Char) : Option (Nat × List Char) :=
  let ds := cs.take n
  let value := Number.decimalDigits ds
  if ds.length == n && ds.all Char.isDigit && low ≤ value && value ≤ high then
    some (value, cs.drop n)
  else none

def char? (c : Char) : List Char → Option (List Char)
  | d :: cs => if c == d then some cs else none
  | [] => none

def isLeap (year : Nat) : Bool := year % 4 == 0 && (year % 100 != 0 || year % 400 == 0)

def daysIn (year month : Nat) : Nat :=
  if month == 2 then (if isLeap year then 29 else 28)
  else if [4, 6, 9, 11].contains month then 30
  else 31

def day? (cs : List Char) : Option (Day × List Char) := do
  let (year, cs) ← number? 4 0 9999 cs
  let (month, cs) ← number? 2 1 12 (← char? '-' cs)
  let (day, cs) ← number? 2 1 (daysIn year month) (← char? '-' cs)
  some (⟨year, month, day⟩, cs)

/-- A fraction of a second in nanoseconds; further digits are cut. -/
def fraction (cs : List Char) : Nat × List Char :=
  match cs with
  | '.' :: rest =>
    let ds := rest.takeWhile Char.isDigit
    if ds.isEmpty then (0, cs)
    else
      let kept := ds.take 9
      (Number.decimalDigits (kept ++ List.replicate (9 - kept.length) '0'),
        rest.dropWhile Char.isDigit)
  | _ => (0, cs)

def clock? (cs : List Char) : Option (Clock × List Char) := do
  let (hour, cs) ← number? 2 0 23 cs
  let (minute, cs) ← number? 2 0 59 (← char? ':' cs)
  let (second, cs) ← number? 2 0 60 (← char? ':' cs)
  let (nanosecond, cs) := fraction cs
  some (⟨hour, minute, second, nanosecond⟩, cs)

def zone? (cs : List Char) : Option (Zone × List Char) :=
  match cs with
  | 'Z' :: rest => some (.universal, rest)
  | 'z' :: rest => some (.universal, rest)
  | '+' :: rest => offset 1 rest
  | '-' :: rest => offset (-1) rest
  | _ => none
where
  offset (sign : Int) (cs : List Char) : Option (Zone × List Char) := do
    let (hour, cs) ← number? 2 0 23 cs
    let (minute, cs) ← number? 2 0 59 (← char? ':' cs)
    some (.offset (sign * (hour * 60 + minute)), cs)

def padded (width n : Nat) : String :=
  let ds := Nat.toDigits 10 n
  String.ofList (List.replicate (width - ds.length) '0' ++ ds)

def dayText (d : Day) : String :=
  padded 4 d.year ++ "-" ++ padded 2 d.month ++ "-" ++ padded 2 d.day

def clockText (c : Clock) : String :=
  let zeroless := fun s : String =>
    String.ofList (s.toList.reverse.dropWhile (· == '0')).reverse
  padded 2 c.hour ++ ":" ++ padded 2 c.minute ++ ":" ++ padded 2 c.second ++
    (if c.nanosecond == 0 then "" else "." ++ zeroless (padded 9 c.nanosecond))

def zoneText : Zone → String
  | .universal => "Z"
  | .offset minutes =>
    (if minutes < 0 then "-" else "+") ++ padded 2 (minutes.natAbs / 60) ++ ":" ++
      padded 2 (minutes.natAbs % 60)

def isDivider (c : Char) : Bool := c == 'T' || c == 't' || c == ' '

/-- The time after a day, with its divider. -/
def timeText? : List Char → Option (String × List Char)
  | c :: cs =>
    if isDivider c then
      (clock? cs).map fun (clock, cs) =>
        match zone? cs with
        | some (zone, cs) => ("T" ++ clockText clock ++ zoneText zone, cs)
        | none => ("T" ++ clockText clock, cs)
    else none
  | [] => none

/-- The text of a date or time at the start of the input, and the input after it. -/
def read? (cs : List Char) : Option (String × List Char) :=
  match day? cs with
  | some (day, rest) =>
    match timeText? rest with
    | some (time, rest) => some (dayText day ++ time, rest)
    | none => some (dayText day, rest)
  | none => (clock? cs).map fun (clock, rest) => (clockText clock, rest)

end Date

end EcmaMachine
