import EcmaMachine.Number.Dyadic
import EcmaMachine.Text.Blank

/-!
Text to number. Decimal text is rounded correctly: its digits are one natural number, its point
and exponent one power of ten, and the quotient is rounded once.
-/

namespace EcmaMachine.Number

/-- The value of a list of decimal digits. -/
def decimalDigits (cs : List Char) : Nat :=
  cs.foldl (fun n c => n * 10 + (c.toNat - '0'.toNat)) 0

def hexDigit? (c : Char) : Option Nat :=
  if c.isDigit then some (c.toNat - '0'.toNat)
  else if 'a' ≤ c && c ≤ 'f' then some (c.toNat - 'a'.toNat + 10)
  else if 'A' ≤ c && c ≤ 'F' then some (c.toNat - 'A'.toNat + 10)
  else none

/-- The value of a nonempty list of hexadecimal digits. -/
def hexDigits? (cs : List Char) : Option Nat :=
  if cs.isEmpty then none
  else cs.foldlM (fun n c => (hexDigit? c).map (n * 16 + ·)) 0

/-- The number nearest to `digits · 10 ^ exponent`. Exponents far outside the range are settled
before any power is formed. -/
def ofDecimal (digits : Nat) (exponent : Int) : Float :=
  let size := exponent + (Nat.toDigits 10 digits).length
  if digits == 0 then 0
  else if size > 400 then infinity
  else if size < -400 then 0
  else
    match exponent with
    | .ofNat e => Float.ofScientific digits false e
    | .negSucc e => Float.ofScientific digits true (e + 1)

/-- The exponent part `e±ddd` at the end of a decimal text. -/
def exponent? : List Char → Option Int
  | [] => some 0
  | c :: cs =>
    if c != 'e' && c != 'E' then none
    else
      let signed := fun (negative : Bool) (ds : List Char) =>
        if ds.isEmpty || !ds.all Char.isDigit then none
        else
          let n : Int := decimalDigits ds
          some (if negative then -n else n)
      match cs with
      | '-' :: ds => signed true ds
      | '+' :: ds => signed false ds
      | ds => signed false ds

/-- A decimal without sign: digits with an optional point, at least one of them, and an optional
exponent. -/
def unsignedDecimal? (cs : List Char) : Option Float :=
  let whole := cs.takeWhile Char.isDigit
  let (fraction, rest) :=
    match cs.dropWhile Char.isDigit with
    | '.' :: ds => (ds.takeWhile Char.isDigit, ds.dropWhile Char.isDigit)
    | ds => ([], ds)
  if whole.isEmpty && fraction.isEmpty then none
  else (exponent? rest).map fun e =>
    ofDecimal (decimalDigits (whole ++ fraction)) (e - fraction.length)

/-- A signed decimal, or a word for infinity or NaN in any case. -/
def decimal? (cs : List Char) : Option Float :=
  let unsigned := fun ds : List Char =>
    let word := String.ofList (ds.map Char.toLower)
    if word == "inf" || word == "infinity" then some infinity
    else if word == "nan" then some nan
    else unsignedDecimal? ds
  match cs with
  | '-' :: ds => (unsigned ds).map fun x => -x
  | '+' :: ds => unsigned ds
  | ds => unsigned ds

/-- An integer of 64 bits in hexadecimal digits with an optional sign. -/
def signedHex? (cs : List Char) : Option Int :=
  let bounded := fun (negative : Bool) (ds : List Char) =>
    (hexDigits? ds).bind fun n =>
      if negative then (if n ≤ 0x8000000000000000 then some (-(n : Int)) else none)
      else if n < 0x8000000000000000 then some (n : Int) else none
  match cs with
  | '-' :: ds => bounded true ds
  | '+' :: ds => bounded false ds
  | ds => bounded false ds

/-- The number a text converts to: blanks around it do not count, no text is 0, `0x` starts
hexadecimal digits, and what is no number is NaN. -/
def ofText (s : String) : Float :=
  match Text.trim s.toList with
  | [] => 0
  | '0' :: 'x' :: ds => (signedHex? ds).elim nan Float.ofInt
  | '0' :: 'X' :: ds => (signedHex? ds).elim nan Float.ofInt
  | cs => (decimal? cs).getD nan

end EcmaMachine.Number
