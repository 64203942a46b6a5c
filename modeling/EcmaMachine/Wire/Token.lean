import EcmaMachine.Number.Reader

/-!
Tokens: names for what cannot be sent by value. A token is a number of 128 bits, written as 32
hexadecimal digits in five groups.
-/

namespace EcmaMachine

structure Token where
  bits : Nat
  deriving DecidableEq

namespace Token

/-- A group of digits, filled up with zeros. -/
def groupText (n width : Nat) : String :=
  let ds := Nat.toDigits 16 n
  String.ofList (List.replicate (width - ds.length) '0' ++ ds)

def text (t : Token) : String :=
  "-".intercalate
    [groupText (t.bits / Nat.pow 2 96 % 0x100000000) 8,
      groupText (t.bits / Nat.pow 2 80 % 0x10000) 4,
      groupText (t.bits / Nat.pow 2 64 % 0x10000) 4,
      groupText (t.bits / Nat.pow 2 48 % 0x10000) 4,
      groupText (t.bits % 0x1000000000000) 12]

/-- Digits without hyphens. -/
def ofDigits? (cs : List Char) : Option Token :=
  if cs.length == 32 then (Number.hexDigits? cs).map Token.mk else none

/-- Digits in groups of 8, 4, 4, 4 and 12. -/
def ofGroups? (cs : List Char) : Option Token :=
  let hyphens := [8, 13, 18, 23]
  if cs.length == 36 && hyphens.all fun i => cs[i]? == some '-' then
    ofDigits? (cs.filter (· != '-'))
  else none

/-- Reads a token: bare digits, or groups that may stand in braces or behind `urn:uuid:`. -/
def ofText? (s : String) : Option Token :=
  let cs := s.toList
  match cs.length with
  | 32 => ofDigits? cs
  | 36 => ofGroups? cs
  | 38 =>
    if cs.head? == some '\x7b' && cs.getLast? == some '\x7d' then
      ofGroups? ((cs.drop 1).dropLast)
    else none
  | 45 => if "urn:uuid:".toList.isPrefixOf cs then ofGroups? (cs.drop 9) else none
  | _ => none

end Token

end EcmaMachine
