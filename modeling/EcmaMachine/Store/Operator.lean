import EcmaMachine.Store.Property
import EcmaMachine.Tree.Operator

/-!
Operators on values.
-/

namespace EcmaMachine.Store

/-- `==`: undefined and null agree with each other only; booleans, and a number beside a string,
are compared as numbers unless one side lives in the store. -/
def looseEquals (s : Store) (a b : Value) : Bool :=
  if a.isNullish || b.isNullish then a.isNullish && b.isNullish
  else if asNumbers a b && !a.isHandle && !b.isHandle then s.toNumber a == s.toNumber b
  else a.strictEquals b
where
  asNumbers : Value → Value → Bool
  | .number _, .string _ | .string _, .number _ | .bool _, _ | _, .bool _ => true
  | _, _ => false

def unary (s : Store) (operator : UnaryOp) (v : Value) : Value :=
  match operator with
  | .neg => .number (-s.toNumber v)
  | .plus => .number (s.toNumber v)
  | .not => .bool !v.isTruthy
  | .bitNot => .number (Float.ofInt (-(s.toInt32 v) - 1))
  | .typeOf => .string v.typeOf
  | .void => .undefined
  | .delete => .bool true

/-- `+` joins texts as soon as one side is a string or lives in the store. -/
def add (s : Store) (a b : Value) : Value :=
  if joins a || joins b then .string (s.text a ++ s.text b)
  else .number (s.toNumber a + s.toNumber b)
where
  joins : Value → Bool
  | .string _ => true
  | v => v.isHandle

/-- Two strings compare by their characters, all else as numbers; NaN compares with nothing. -/
def compare? (s : Store) (a b : Value) : Option Ordering :=
  match a, b with
  | .string x, .string y => some (if x < y then .lt else if x == y then .eq else .gt)
  | _, _ =>
    let x := s.toNumber a
    let y := s.toNumber b
    if x < y then some .lt else if x == y then some .eq else if x > y then some .gt else none

/-- Operands of the bitwise operators as words. -/
def word (s : Store) (v : Value) : BitVec 32 := BitVec.ofInt 32 (s.toInt32 v)

def shiftCount (s : Store) (v : Value) : Nat := (s.word v).toNat % 32

def signedWord (w : BitVec 32) : Value := .number (Float.ofInt w.toInt)

def instanceOf (s : Store) (v constructor : Value) : Except TypeFault (Bool × Store) :=
  match constructor with
  | .function f =>
    match v with
    | .object id =>
      let (p, s) := s.prototypeOf f
      .ok (((s.lineage id).drop 1).contains p, s)
    | _ => .ok (false, s)
  | _ => .error .instanceOf

def binary (s : Store) (operator : BinaryOp) (a b : Value) : Except TypeFault (Value × Store) :=
  let number := fun x : Float => Except.ok (Value.number x, s)
  let bool := fun x : Bool => Except.ok (Value.bool x, s)
  match operator with
  | .add => .ok (s.add a b, s)
  | .sub => number (s.toNumber a - s.toNumber b)
  | .mul => number (s.toNumber a * s.toNumber b)
  | .div => number (s.toNumber a / s.toNumber b)
  | .rem => number (Number.remainder (s.toNumber a) (s.toNumber b))
  | .exp => number (Float.pow (s.toNumber a) (s.toNumber b))
  | .eq => bool (s.looseEquals a b)
  | .notEq => bool !(s.looseEquals a b)
  | .strictEq => bool (a.strictEquals b)
  | .strictNotEq => bool !(a.strictEquals b)
  | .lt => bool (s.compare? a b == some .lt)
  | .ltEq => bool (s.compare? a b == some .lt || s.compare? a b == some .eq)
  | .gt => bool (s.compare? a b == some .gt)
  | .gtEq => bool (s.compare? a b == some .gt || s.compare? a b == some .eq)
  | .bitAnd => .ok (signedWord (s.word a &&& s.word b), s)
  | .bitOr => .ok (signedWord (s.word a ||| s.word b), s)
  | .bitXor => .ok (signedWord (s.word a ^^^ s.word b), s)
  | .shl => .ok (signedWord (s.word a <<< s.shiftCount b), s)
  | .shr => .ok (signedWord ((s.word a).sshiftRight (s.shiftCount b)), s)
  | .ushr => number (Float.ofNat (s.word a >>> s.shiftCount b).toNat)
  | .mem => do
    let found ← s.hasProperty b (s.text a)
    .ok (.bool found, s)
  | .instanceOf => do
    let (found, s) ← s.instanceOf a b
    .ok (.bool found, s)

end EcmaMachine.Store
