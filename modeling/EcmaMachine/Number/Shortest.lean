import EcmaMachine.Number.Dyadic

/-!
The fewest decimal digits that read back as the same number. A number owns the interval of
reals that round to it. For 1, 2, … digits the two neighbours of the number on that decimal grid
are tested in exact arithmetic; the first grid with a hit wins, and of two hits the nearer.
-/

namespace EcmaMachine

/-- The value `digits · 10 ^ exponent`. -/
structure Decimal where
  digits : Nat
  exponent : Int
  deriving DecidableEq

/-- Which of two equally near decimals is taken. -/
inductive Tie
  | up
  | toEven
  deriving DecidableEq

namespace Decimal

/-- Moves trailing zeros of the digits into the exponent, at most `fuel` of them. -/
def stripZeros : Nat → Decimal → Decimal
  | 0, d => d
  | fuel + 1, d =>
    if d.digits % 10 == 0 && d.digits != 0 then
      stripZeros fuel ⟨d.digits / 10, d.exponent + 1⟩
    else d

end Decimal

namespace Number

/-- The interval of reals that round to one number, in fractions over `den`. -/
structure Interval where
  low : Nat
  mid : Nat
  high : Nat
  den : Nat
  closed : Bool

/-- The number's own interval. Below a power of two the neighbour is half as far away; a half
goes to the number with the even mantissa. -/
def interval (d : Dyadic) : Interval :=
  let below := if d.mantissa == 0x10000000000000 && d.exponent > -1074 then 1 else 2
  let scale := fun n : Nat =>
    match d.exponent - 2 with
    | .ofNat e => n * Nat.pow 2 e
    | .negSucc _ => n
  let den :=
    match d.exponent - 2 with
    | .ofNat _ => 1
    | .negSucc e => Nat.pow 2 (e + 1)
  { low := scale (4 * d.mantissa - below)
    mid := scale (4 * d.mantissa)
    high := scale (4 * d.mantissa + 2)
    den
    closed := d.mantissa % 2 == 0 }

/-- How many decimal digits `n` has. -/
def digitCount (n : Nat) : Nat := (Nat.toDigits 10 n).length

/-- The `k` with `10 ^ (k - 1) ≤ num / den < 10 ^ k`. -/
def magnitude (num den : Nat) : Int :=
  if num ≥ den then digitCount (num / den)
  else
    let c := digitCount (den / num)
    if num * Nat.pow 10 (c - 1) == den then 2 - (c : Int) else 1 - (c : Int)

/-- The decimal with at most `n` digits next to the number, if one lies in its interval. -/
def nearest (tie : Tie) (i : Interval) (k : Int) (n : Nat) : Option Decimal :=
  let grid := k - n
  let up := Nat.pow 10 grid.toNat * i.den
  let down := Nat.pow 10 (-grid).toNat
  let inside := fun c : Nat =>
    if i.closed then i.low * down ≤ c && c ≤ i.high * down
    else i.low * down < c && c < i.high * down
  let lower := i.mid * down / up
  let upper := lower + 1
  let pick := fun digits : Nat => some (Decimal.mk digits grid)
  match inside (lower * up), inside (upper * up) with
  | true, true =>
    let below := i.mid * down - lower * up
    let above := upper * up - i.mid * down
    if below < above then pick lower
    else if above < below then pick upper
    else
      match tie with
      | .up => pick upper
      | .toEven => if lower % 2 == 0 then pick lower else pick upper
  | true, false => pick lower
  | false, true => pick upper
  | false, false => none

/-- The shortest decimal of a positive number; 17 digits always suffice. -/
def shortest (tie : Tie) (d : Dyadic) : Decimal :=
  let i := interval d
  let k := magnitude i.mid i.den
  let found := (List.range 17).findSome? fun n => nearest tie i k (n + 1)
  (found.getD ⟨d.floorAbs, 0⟩).stripZeros 20

end Number

end EcmaMachine
