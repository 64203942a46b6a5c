/-!
Finite numbers as exact dyadic fractions. `dyadic?` reads sign, mantissa and exponent off the
bit pattern, so the integer part, the remainder and the decimal digits of a number are all
computed in `Nat` and `Int` without rounding.
-/

namespace EcmaMachine

/-- The number `± mantissa · 2 ^ exponent`. -/
structure Dyadic where
  negative : Bool
  mantissa : Nat
  exponent : Int
  deriving DecidableEq

namespace Dyadic

/-- The magnitude, cut to an integer. -/
def floorAbs (d : Dyadic) : Nat :=
  match d.exponent with
  | .ofNat e => d.mantissa * Nat.pow 2 e
  | .negSucc e => d.mantissa / Nat.pow 2 (e + 1)

/-- The integer part: the fraction is dropped, toward zero. -/
def trunc (d : Dyadic) : Int :=
  if d.negative then -(d.floorAbs : Int) else d.floorAbs

def isInteger (d : Dyadic) : Bool :=
  match d.exponent with
  | .ofNat _ => true
  | .negSucc e => d.mantissa % Nat.pow 2 (e + 1) == 0

end Dyadic

namespace Number

/-- 2 ^ 53: below it every integer is a number of its own. -/
def safeBound : Nat := 9007199254740992

/-- The exact value of a finite number; `none` for NaN and the infinities. -/
def dyadic? (x : Float) : Option Dyadic :=
  let bits := x.toBits.toNat
  let negative := bits / 0x8000000000000000 == 1
  let biased := bits / 0x10000000000000 % 0x800
  let fraction := bits % 0x10000000000000
  if biased == 2047 then none
  else if biased == 0 then some ⟨negative, fraction, -1074⟩
  else some ⟨negative, fraction + 0x10000000000000, Int.ofNat biased - 1075⟩

def isNegativeZero (x : Float) : Bool :=
  x.toBits == 0x8000000000000000

def nan : Float := Float.ofBits 0x7FF8000000000000

def infinity : Float := Float.ofBits 0x7FF0000000000000

/-- The integer a number stands for, if it stands for one. -/
def integer? (x : Float) : Option Int :=
  match dyadic? x with
  | some d => if d.isInteger then some d.trunc else none
  | none => none

/-- Integers below the safe bound, the ones written without a fraction or an exponent. -/
def safeInteger? (x : Float) : Option Int :=
  match integer? x with
  | some n => if n.natAbs < safeBound then some n else none
  | none => none

/-- Cuts a number to an integer of 64 bits; what lies outside is moved to the nearer end. -/
def toSigned64 (d : Dyadic) : Int :=
  max (-(0x8000000000000000 : Int)) (min 0x7FFFFFFFFFFFFFFF d.trunc)

/-- The representative of `n` modulo 2 ^ 32 in [-2 ^ 31, 2 ^ 31). -/
def wrap32 (n : Int) : Int :=
  let r := n % 0x100000000
  if r < 0x80000000 then r else r - 0x100000000

/-- The signed 32-bit operand of the bitwise operators; 0 for what is not finite. -/
def toInt32 (x : Float) : Int :=
  match dyadic? x with
  | some d => wrap32 (toSigned64 d)
  | none => 0

/-- The number with this magnitude in units of 2 ^ -1074, if it has one: the inverse of
`dyadic?` up to the choice of mantissa. -/
private def ofUnits (negative : Bool) (units : Nat) : Float :=
  let sign := if negative then 0x8000000000000000 else 0
  let len := if units == 0 then 0 else units.log2 + 1
  let bits :=
    if len ≤ 52 then units
    else (len - 52) * 0x10000000000000 + (units / Nat.pow 2 (len - 53) - 0x10000000000000)
  Float.ofBits (UInt64.ofNat (sign + bits))

/-- The magnitude in units of 2 ^ -1074. -/
private def units (d : Dyadic) : Nat :=
  d.mantissa * Nat.pow 2 (d.exponent + 1074).toNat

/-- The remainder of division cut toward zero; it has the sign of the dividend and is exact. -/
def remainder (x y : Float) : Float :=
  match dyadic? x, dyadic? y with
  | some a, some b =>
    if b.mantissa == 0 then nan else ofUnits a.negative (units a % units b)
  | some _, none => if y.isNaN then nan else x
  | none, _ => nan

/-- The nearest integer; halfway cases go up. -/
def round (x : Float) : Float :=
  if x.isFinite then (x + 0.5).floor else x

end Number

end EcmaMachine
