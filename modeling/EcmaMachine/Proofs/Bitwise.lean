import Mathlib.Data.Int.Bitwise
import EcmaMachine.Proofs.Wire.Numbers
import EcmaMachine.Store.Operator

/-!
Bitwise operators on integers. Operands are cut to integers of 64 bits before they are taken modulo
2 ^ 32, so those from 2 ^ 63 on all become -1 and those below -2 ^ 63 become 0. On what has become
of the operands, the operators are exact.
-/

namespace EcmaMachine

/-! ## Words as integers -/

theorem testBit_toInt {w : Nat} (x : BitVec w) (k : Nat) :
    x.toInt.testBit k = if k < w then x.getLsbD k else x.msb := by
  have small := x.isLt
  cases sign : x.msb with
  | false =>
    rw [BitVec.toInt_eq_msb_cond, sign]
    change x.toNat.testBit k = _
    rw [← BitVec.getLsbD]
    split
    · rfl
    · next outside => exact BitVec.getLsbD_of_ge x k (Nat.not_lt.1 outside)
  | true =>
    have flipped : x.toInt = .negSucc (~~~x).toNat := by
      rw [BitVec.toInt_eq_msb_cond, sign, if_pos rfl, BitVec.toNat_not]
      omega
    rw [flipped]
    change (!(~~~x).toNat.testBit k) = _
    rw [← BitVec.getLsbD, BitVec.getLsbD_not]
    split <;> simp_all

theorem int_eq_of_testBit {m n : Int} (same : ∀ k, m.testBit k = n.testBit k) : m = n := by
  have apart : ∀ i j : Nat, i.testBit (i + j) ≠ !j.testBit (i + j) := by
    intro i j
    have low : ∀ k ≤ i + j, k.testBit (i + j) = false := fun k le =>
      Nat.testBit_lt_two_pow (Nat.lt_of_le_of_lt le Nat.lt_two_pow_self)
    rw [low i (by omega), low j (by omega)]
    decide
  cases m with
  | ofNat i =>
    cases n with
    | ofNat j => exact congrArg _ (Nat.eq_of_testBit_eq same)
    | negSucc j => exact absurd (same _) (apart i j)
  | negSucc i =>
    cases n with
    | ofNat j => exact absurd (same (j + i)).symm (apart j i)
    | negSucc j => exact congrArg _ (Nat.eq_of_testBit_eq fun k => Bool.not_inj (same k))

/-- What is done bit by bit to words is done so to the integers that they stand for. -/
theorem toInt_bitwise {w : Nat} {x y z : BitVec w} {n : Int} {f : Bool → Bool → Bool}
    (bits : ∀ k, z.getLsbD k = f (x.getLsbD k) (y.getLsbD k)) (sign : z.msb = f x.msb y.msb)
    (exact : ∀ k, n.testBit k = f (x.toInt.testBit k) (y.toInt.testBit k)) : z.toInt = n := by
  refine int_eq_of_testBit fun k => ?_
  rw [exact, testBit_toInt, testBit_toInt, testBit_toInt]
  split
  · exact bits k
  · exact sign

namespace Number

theorem wrap32_eq (n : Int) : wrap32 n = n.bmod (2 ^ 32) := by
  simp only [wrap32, Int.bmod]
  rfl

theorem toInt32_range (x : Float) : -2 ^ 31 ≤ toInt32 x ∧ toInt32 x < 2 ^ 31 := by
  unfold toInt32 wrap32
  split
  · dsimp only
    split <;> omega
  · decide

/-- Large numbers are even, for they have no more than 53 bits. -/
theorem two_dvd_floorAbs {x : Float} {d : Dyadic} (read : dyadic? x = some d)
    (large : 2 ^ 53 ≤ d.floorAbs) : 2 ∣ d.floorAbs := by
  have bound : d.mantissa < 2 ^ 53 := by
    rcases dyadic?_range read with ⟨small, -⟩ | ⟨-, small⟩ <;> omega
  unfold Dyadic.floorAbs at large ⊢
  split at large
  · next e _ =>
    cases e with
    | zero => simp at large; omega
    | succ e => exact Dvd.dvd.mul_left (Dvd.intro_left (2 ^ e) rfl) _
  · exact absurd (Nat.le_trans large (Nat.div_le_self ..)) (Nat.not_le.2 bound)

/-- What becomes of an operand, said of its integer part. -/
theorem toInt32_eq {x : Float} {d : Dyadic} (read : dyadic? x = some d) :
    (toInt32 x = d.trunc.bmod (2 ^ 32) ↔
      -2 ^ 63 ≤ d.trunc ∧ d.trunc < 2 ^ 63 ∨ d.trunc < -2 ^ 63 ∧ 2 ^ 32 ∣ d.trunc) ∧
    (2 ^ 63 ≤ d.trunc → toInt32 x = -1) ∧ (d.trunc < -2 ^ 63 → toInt32 x = 0) := by
  have even : 2 ^ 63 ≤ d.trunc → 2 ∣ d.trunc := by
    unfold Dyadic.trunc
    split
    · omega
    · exact fun large => Int.natCast_dvd_natCast.2 (two_dvd_floorAbs read (by omega))
  have cut : toInt32 x = wrap32 (max (-2 ^ 63) (min (2 ^ 63 - 1) d.trunc)) := by
    rw [toInt32, read]
    rfl
  rw [cut, ← wrap32_eq]
  simp only [wrap32]
  refine ⟨⟨fun same => ?_, fun inside => ?_⟩, fun large => ?_, fun large => ?_⟩ <;> omega

end Number

/-! ## Operators -/

/-- The bitwise operators on integers of any size, in two's complement. Shifts go by at most 31
places, and what goes out to the left is lost. -/
def BinaryOp.onIntegers? : BinaryOp → Option (Int → Int → Int)
  | .bitAnd => some Int.land
  | .bitOr => some Int.lor
  | .bitXor => some Int.xor
  | .shl => some fun m n => (m * 2 ^ (n % 32).toNat).bmod (2 ^ 32)
  | .shr => some fun m n => m / 2 ^ (n % 32).toNat
  | .ushr => some fun m n => m % 2 ^ 32 / 2 ^ (n % 32).toNat
  | _ => none

namespace Store

variable (s : Store) (a b : Value)

theorem toInt_word : (s.word a).toInt = s.toInt32 a := by
  have range := Number.toInt32_range (s.toNumber a)
  rw [word, BitVec.toInt_ofInt, toInt32]
  exact Int.bmod_eq_of_le (by omega) (by omega)

theorem toNat_word : ((s.word a).toNat : Int) = s.toInt32 a % 2 ^ 32 := by
  rw [word, BitVec.toNat_ofInt]
  omega

theorem shiftCount_eq : s.shiftCount b = (s.toInt32 b % 32).toNat := by
  have word := s.toNat_word b
  rw [shiftCount]
  omega

theorem binary_onIntegers {operator : BinaryOp} {f : Int → Int → Int}
    (known : operator.onIntegers? = some f) :
    s.binary operator a b = .ok (.number (.ofInt (f (s.toInt32 a) (s.toInt32 b))), s) := by
  have signed : ∀ {w : BitVec 32} {n : Int}, w.toInt = n → signedWord w = .number (.ofInt n) :=
    fun exact => congrArg (Value.number ∘ Float.ofInt) exact
  have left := s.toInt_word a
  have right := s.toInt_word b
  have count := s.shiftCount_eq b
  cases operator <;> cases known
  · rw [binary, signed (toInt_bitwise (f := and) (fun _ => BitVec.getLsbD_and) BitVec.msb_and
      fun k => by rw [left, right, Int.testBit_land])]
  · rw [binary, signed (toInt_bitwise (f := or) (fun _ => BitVec.getLsbD_or) BitVec.msb_or
      fun k => by rw [left, right, Int.testBit_lor])]
  · rw [binary, signed (toInt_bitwise (f := xor) (fun _ => BitVec.getLsbD_xor) BitVec.msb_xor
      fun k => by rw [left, right, Int.testBit_lxor])]
  · have exact : (s.word a <<< s.shiftCount b).toInt =
        (s.toInt32 a * 2 ^ (s.toInt32 b % 32).toNat).bmod (2 ^ 32) := by
      rw [BitVec.toInt_shiftLeft, Nat.shiftLeft_eq, Nat.cast_mul, toNat_word, count, Nat.cast_pow]
      exact Int.emod_mul_bmod ..
    rw [binary, signed exact]
  · have exact : ((s.word a).sshiftRight (s.shiftCount b)).toInt =
        s.toInt32 a / 2 ^ (s.toInt32 b % 32).toNat := by
      rw [BitVec.toInt_sshiftRight, left, Int.shiftRight_eq_div_pow, count, Nat.cast_pow]
      rfl
    rw [binary, signed exact]
  · have exact : ((s.word a >>> s.shiftCount b).toNat : Int) =
        s.toInt32 a % 2 ^ 32 / 2 ^ (s.toInt32 b % 32).toNat := by
      rw [BitVec.toNat_ushiftRight, Nat.shiftRight_eq_div_pow, Int.natCast_ediv, toNat_word, count,
        Nat.cast_pow]
      rfl
    simp only [binary, ← exact]
    rfl

end Store

/-- Where the integer part of an operand has 64 bits the operators reduce it modulo 2 ^ 32; from
2 ^ 63 on it becomes -1, and below -2 ^ 63 it becomes 0, which is right only for multiples of 2 ^ 32.
The operators give what they give for the integers that the operands have become. -/
theorem bitwise_operators_exact (s : Store) (a b : Value) :
    (∀ d, Number.dyadic? (s.toNumber a) = some d →
      (s.toInt32 a = d.trunc.bmod (2 ^ 32) ↔
        -2 ^ 63 ≤ d.trunc ∧ d.trunc < 2 ^ 63 ∨ d.trunc < -2 ^ 63 ∧ 2 ^ 32 ∣ d.trunc) ∧
      (2 ^ 63 ≤ d.trunc → s.toInt32 a = -1) ∧ (d.trunc < -2 ^ 63 → s.toInt32 a = 0)) ∧
    s.unary .bitNot a = .number (.ofInt (s.toInt32 a).lnot) ∧
    ∀ operator f, BinaryOp.onIntegers? operator = some f →
      s.binary operator a b = .ok (.number (.ofInt (f (s.toInt32 a) (s.toInt32 b))), s) := by
  refine ⟨fun d read => Number.toInt32_eq read, ?_, fun _ _ => s.binary_onIntegers a b⟩
  have flipped : (s.toInt32 a).lnot = -(s.toInt32 a) - 1 := by
    cases s.toInt32 a <;> simp only [Int.lnot, Int.ofNat_eq_natCast] <;> omega
  rw [Store.unary, flipped]

namespace Sample

/-- 2 ^ 64, with no bits among the lowest 32. -/
def large : Value := .number 18446744073709551616

theorem large_operand :
    Number.dyadic? 18446744073709551616 = some ⟨false, 2 ^ 52, 12⟩ ∧ Store.empty.toInt32 large = -1 ∧
      Store.empty.binary .bitOr large (.number 0) = .ok (.number (.ofInt (-1)), .empty) := by
  have read : Number.dyadic? 18446744073709551616 = some ⟨false, 2 ^ 52, 12⟩ := by decide +kernel
  obtain ⟨operand, -, operators⟩ := bitwise_operators_exact .empty large (.number 0)
  have minus : Store.empty.toInt32 large = -1 := (operand _ read).2.1 (by decide)
  have zero : Store.empty.toInt32 (.number 0) = 0 := by decide +kernel
  have joined : Int.lor (-1) 0 = -1 := by decide +kernel
  exact ⟨read, minus, by rw [operators .bitOr Int.lor rfl, minus, zero, joined]⟩

end Sample

end EcmaMachine
