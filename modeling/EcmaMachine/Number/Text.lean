import EcmaMachine.Number.Shortest

/-!
Numbers as text, in three layouts over the same shortest digits: `Number.text` is what a script
sees, `Number.jsonText` is what stands in JSON, and `Number.plainText` has no exponents.
-/

namespace EcmaMachine.Number

def natText (n : Nat) : String := String.ofList (Nat.toDigits 10 n)

private def zeros (n : Nat) : String := String.ofList (List.replicate n '0')

def intText (n : Int) : String :=
  if n < 0 then "-" ++ natText n.natAbs else natText n.natAbs

/-- Positional notation; no point when there is no fraction. -/
private def positional (d : Decimal) : String :=
  match d.exponent with
  | .ofNat e => natText d.digits ++ zeros e
  | .negSucc e =>
    let cs := Nat.toDigits 10 d.digits
    if cs.length > e + 1 then
      String.ofList (cs.take (cs.length - (e + 1))) ++ "." ++
        String.ofList (cs.drop (cs.length - (e + 1)))
    else
      "0." ++ zeros (e + 1 - cs.length) ++ natText d.digits

/-- One digit, the others after a point, and the power of ten with its sign. -/
private def scientific (d : Decimal) : String :=
  let cs := Nat.toDigits 10 d.digits
  let power := d.exponent + (cs.length - 1 : Nat)
  let head := String.ofList (cs.take 1)
  let tail := if cs.length > 1 then "." ++ String.ofList (cs.drop 1) else ""
  let sign := if power < 0 then "-" else "+"
  head ++ tail ++ "e" ++ sign ++ natText power.natAbs

private def signed (negative : Bool) (text : String) : String :=
  if negative then "-" ++ text else text

/-- The text of a number: integers below 2 ^ 53 plainly, `e+` notation from 10 ^ 21 on, and
positional notation for all else, however small. A tie goes up and zero has no sign. -/
def text (x : Float) : String :=
  match dyadic? x with
  | none => if x.isNaN then "NaN" else if x > 0 then "Infinity" else "-Infinity"
  | some d =>
    match safeInteger? x with
    | some n => intText n
    | none =>
      let decimal := shortest .up d
      if d.floorAbs ≥ 1000000000000000000000 then signed d.negative (scientific decimal)
      else signed d.negative (positional decimal)

/-- The text of a JSON number that is kept as a fraction: positional from 10 ^ -5 up to 10 ^ 16,
with `.0` behind an integer; scientific outside. `null` if it is not finite. -/
def jsonText (x : Float) : String :=
  match dyadic? x with
  | none => "null"
  | some d =>
    if d.mantissa == 0 then signed d.negative "0.0"
    else
      let decimal := shortest .toEven d
      let power := decimal.exponent + (digitCount decimal.digits : Int)
      if -5 < power && power ≤ 16 then
        let plain := positional decimal
        signed d.negative (if decimal.exponent ≥ 0 then plain ++ ".0" else plain)
      else signed d.negative (scientific decimal)

/-- The text of a number in positional notation, however large or small. A tie goes up. -/
def plainText (x : Float) : String :=
  match dyadic? x with
  | none => if x.isNaN then "NaN" else if x > 0 then "inf" else "-inf"
  | some d =>
    if d.mantissa == 0 then signed d.negative "0"
    else signed d.negative (positional (shortest .up d))

end EcmaMachine.Number
