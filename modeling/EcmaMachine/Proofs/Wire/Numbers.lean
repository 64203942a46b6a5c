import Mathlib.Algebra.Group.Nat.Defs
import EcmaMachine.Number.Dyadic

/-!
Integers among the numbers. An integer below 2 ^ 53 is a number whose mantissa has the bits of the
integer, moved up so that the highest is in place 52. So each of these integers can be sent as such
and made a number again on the other side.
-/

namespace EcmaMachine.Number

variable {d : Dyadic} {n : Int}

open Float.Model UnpackedFloat

/-! ## Bits -/

theorem toNat_unpackMantissa (b : BitVec 64) :
    (@unpackMantissa Format.binary64 b).toNat = b.toNat % 2 ^ 52 := by
  simp [unpackMantissa]

theorem toNat_unpackExponent (b : BitVec 64) :
    (@unpackExponent Format.binary64 b).toNat = b.toNat / 2 ^ 52 % 2 ^ 11 := by
  simp [unpackExponent, Nat.shiftRight_eq_div_pow]

theorem toNat_unpackSign (b : BitVec 64) :
    (@unpackSign Format.binary64 b).toNat = b.toNat / 2 ^ 63 := by
  have := b.isLt
  delta unpackSign
  simp [Nat.shiftRight_eq_div_pow]
  omega

theorem beq_ofBitVec (b : BitVec 1) : (Sign.ofBitVec b == .negative) = (b.toNat == 1) := by
  revert b
  decide

theorem toNat_append {v w : Nat} (x : BitVec v) (y : BitVec w) :
    (x ++ y).toNat = x.toNat * 2 ^ w + y.toNat := by
  rw [BitVec.toNat_append, Nat.shiftLeft_eq, Nat.mul_comm, ← Nat.two_pow_add_eq_or_of_lt y.isLt]

/-- The exact value is that of the unpacked form. -/
theorem dyadic?_eq (x : Float) : dyadic? x =
    match x.toModel.unpack with
    | .notANumber | .infinity _ => none
    | .zero s => some ⟨s == .negative, 0, -1074⟩
    | .finite s m e _ => some ⟨s == .negative, m, e⟩ := by
  let b := x.toModel.toBits.toBitVec
  have bits : x.toBits.toNat = b.toNat := rfl
  have exponent := toNat_unpackExponent b
  have mantissa := toNat_unpackMantissa b
  have sign := toNat_unpackSign b
  have special : @unpackExponent Format.binary64 b = -1#11 ↔ b.toNat / 2 ^ 52 % 2 ^ 11 = 2047 := by
    rw [← exponent, ← BitVec.toNat_inj]
    rfl
  have small : @unpackExponent Format.binary64 b = 0#11 ↔ b.toNat / 2 ^ 52 % 2 ^ 11 = 0 := by
    rw [← exponent, ← BitVec.toNat_inj]
    rfl
  have empty : @unpackMantissa Format.binary64 b = 0#52 ↔ b.toNat % 2 ^ 52 = 0 := by
    rw [← mantissa, ← BitVec.toNat_inj]
    rfl
  have unpacked : x.toModel.unpack = @UnpackedFloat.unpack Format.binary64 b := rfl
  have long : (1#1 ++ @unpackMantissa Format.binary64 b).toNat = b.toNat % 2 ^ 52 + 2 ^ 52 := by
    rw [toNat_append, mantissa, Nat.add_comm]
    rfl
  have bias : (Format.binary64.exponentBias : Int) + (52 : Nat) = 1075 := rfl
  simp only [Nat.reducePow] at exponent mantissa sign special small empty long
  delta UnpackedFloat.unpack at unpacked
  simp only [dyadic?, bits, beq_iff_eq]
  rw [unpacked]
  dsimp only
  by_cases h : b.toNat / 0x10000000000000 % 0x800 = 2047
  · rw [if_pos (special.2 h), if_pos h]
    by_cases h' : @unpackMantissa Format.binary64 b = 0#52
    · rw [if_pos h']
    · rw [if_neg h']
  · rw [if_neg (mt special.1 h), if_neg h]
    by_cases h' : b.toNat / 0x10000000000000 % 0x800 = 0
    · rw [if_pos (small.2 h'), if_pos h']
      by_cases h'' : b.toNat % 0x10000000000000 = 0
      · rw [dif_pos (empty.2 h'')]
        simp only [beq_ofBitVec, sign, h'']
      · rw [dif_neg (mt empty.1 h'')]
        dsimp only
        simp only [beq_ofBitVec, sign, mantissa, exponent, h', bias]
        rfl
    · rw [if_neg (mt small.1 h'), if_neg h']
      dsimp only
      simp only [beq_ofBitVec, sign, long, exponent, bias]
      rfl

theorem dyadic?_range {x : Float} (h : dyadic? x = some d) :
    d.mantissa < 2 ^ 52 ∧ d.exponent = -1074 ∨ 2 ^ 52 ≤ d.mantissa ∧ d.mantissa < 2 ^ 53 := by
  have small : x.toBits.toNat % 0x10000000000000 < 0x10000000000000 := Nat.mod_lt _ (by decide)
  simp only [dyadic?] at h
  split at h
  · cases h
  · split at h
    · cases h
      exact .inl ⟨small, rfl⟩
    · cases h
      refine .inr ⟨Nat.le_add_left _ _, ?_⟩
      simp only
      omega

/-! ## Packing -/

theorem unpackSign_packComponents (s : Sign) (e : BitVec 11) (m : BitVec 52) :
    @unpackSign Format.binary64 (packComponents Format.binary64 s e m) = s.toBitVec := by
  have packed : (packComponents Format.binary64 s e m).toNat =
      (s.toBitVec.toNat * 2 ^ 11 + e.toNat) * 2 ^ 52 + m.toNat := by
    rw [← toNat_append, ← toNat_append]
    rfl
  have := e.isLt
  have := m.isLt
  apply BitVec.eq_of_toNat_eq
  rw [toNat_unpackSign, packed]
  omega

theorem ofBitVec_toBitVec (s : Sign) : Sign.ofBitVec s.toBitVec = s := by
  cases s <;> rfl

theorem unpack_pack {s : Sign} {m : Nat} {e : Int} (pos : 0 < m) (low : 2 ^ 52 ≤ m)
    (high : m < 2 ^ 53) (small : -1074 ≤ e) (large : e ≤ 971) :
    UnpackedFloat.unpack Format.binary64 (UnpackedFloat.pack Format.binary64 (.finite s m e pos)) =
      .finite s m e pos := by
  have log : m.log2 = 52 := (Nat.log2_eq_iff (by omega)).2 ⟨low, high⟩
  have bias : e + (Format.binary64.exponentBias : Int) + (52 : Nat) = e + 1075 := by
    rw [Int.add_assoc]; rfl
  have back : ((e + 1075).toNat : Int) - (Format.binary64.exponentBias + (52 : Nat)) = e := by
    have whole : (Format.binary64.exponentBias : Int) + (52 : Nat) = 1075 := rfl
    omega
  have bits : 52 + 1 = Format.binary64.mantissaBits := rfl
  have fits : ¬ 2 ^ 11 ≤ (e + 1075).toNat + 1 := by omega
  have exponent : (BitVec.ofNat 11 (e + 1075).toNat).toNat = (e + 1075).toNat := by
    simp only [BitVec.toNat_ofNat]
    omega
  have large' : BitVec.ofNat 11 (e + 1075).toNat ≠ -1#11 := by
    intro eq
    have := congrArg BitVec.toNat eq
    rw [exponent] at this
    simp at this
    omega
  have small' : BitVec.ofNat 11 (e + 1075).toNat ≠ 0#11 := by
    intro eq
    have := congrArg BitVec.toNat eq
    rw [exponent] at this
    simp at this
    omega
  have mantissa : (1#1 ++ BitVec.ofNat 52 m).toNat = m := by
    rw [toNat_append, BitVec.toNat_ofNat, BitVec.toNat_ofNat]
    omega
  have packed : UnpackedFloat.pack Format.binary64 (.finite s m e pos) = packComponents
      Format.binary64 s (BitVec.ofNat 11 (e + 1075).toNat) (BitVec.ofNat 52 m) := by
    delta UnpackedFloat.pack
    simp only [log, bias, if_neg fits, if_pos bits]
  have read : unpackExponent (packComponents Format.binary64 s (BitVec.ofNat 11 (e + 1075).toNat)
      (BitVec.ofNat 52 m)) = BitVec.ofNat 11 (e + 1075).toNat := unpackExponent_packComponents
  rw [packed]
  delta UnpackedFloat.unpack
  dsimp only
  rw [read, if_neg large', if_neg small', UnpackedFloat.finite.injEq, unpackSign_packComponents,
    ofBitVec_toBitVec, unpackMantissa_packComponents]
  refine ⟨rfl, mantissa, ?_⟩
  rw [exponent]
  exact back

/-! ## Integers -/

theorem log2_mul_two_pow {m : Nat} (pos : 0 < m) (k : Nat) : (m * 2 ^ k).log2 = m.log2 + k := by
  have positive : 0 < 2 ^ k := Nat.two_pow_pos k
  have low : 2 ^ m.log2 ≤ m := Nat.log2_self_le (by omega)
  have high : m < 2 ^ (m.log2 + 1) := Nat.lt_log2_self
  have ne : m * 2 ^ k ≠ 0 := Nat.ne_of_gt (Nat.mul_pos pos positive)
  rw [Nat.log2_eq_iff ne, Nat.pow_add, Nat.add_right_comm, Nat.pow_add]
  exact ⟨Nat.mul_le_mul_right _ low, Nat.mul_lt_mul_of_pos_right high positive⟩

/-- Bits that are zero are dropped without a trace. -/
theorem shiftRight_exact (m k : Nat) :
    (⟨m * 2 ^ k, false, false⟩ : ExtendedMantissa) >>> k = ⟨m, false, false⟩ := by
  induction k generalizing m with
  | zero =>
    rw [Nat.pow_zero, Nat.mul_one]
    rfl
  | succ k ih =>
    have before := ih (m * 2)
    rw [Nat.mul_assoc, ← Nat.pow_succ'] at before
    have last : (⟨m * 2 ^ (k + 1), false, false⟩ : ExtendedMantissa) >>> (k + 1) =
        ((⟨m * 2 ^ (k + 1), false, false⟩ : ExtendedMantissa) >>> k).shiftRightOne := rfl
    rw [last, before]
    simp [ExtendedMantissa.shiftRightOne]

theorem targetExponent_eq {e : Int} (small : -1021 ≤ e) :
    Format.binary64.targetExponent e = e - 53 := by
  have bits : (Format.binary64.mantissaBits : Int) = 53 := rfl
  have least : Format.binary64.minExponent = -1074 := rfl
  simp only [Format.targetExponent, bits, least]
  omega

theorem shiftToTargetExponent_eq {m : Nat} {e : Int} (low : 2 ^ 52 ≤ m) (high : m < 2 ^ 53)
    (small : -1074 ≤ e) (k : Nat) :
    shiftToTargetExponent Format.binary64 (m * 2 ^ k) (e - k) .exact = (⟨m, false, false⟩, e) := by
  have log : m.log2 = 52 := (Nat.log2_eq_iff (by omega)).2 ⟨low, high⟩
  have total : totalExponent (m * 2 ^ k) (e - k) = e + 53 := by
    simp only [totalExponent, log2_mul_two_pow (show 0 < m by omega), log]
    omega
  have target : Format.binary64.targetExponent (e + 53) = e := by
    rw [targetExponent_eq (by omega)]
    omega
  have amount : (e - (e - k)).toNat = k := by omega
  simp only [shiftToTargetExponent, total, target, shiftToExponent, amount,
    ExtendedMantissa.ofMantissaAndAccuracy, shiftRight_exact]
  simp

theorem roundWithAccuracy_eq {m : Nat} {e : Int} (s : Sign) (pos : 0 < m) (low : 2 ^ 52 ≤ m)
    (high : m < 2 ^ 53) (small : -1074 ≤ e) (k : Nat) :
    roundWithAccuracy Format.binary64 s (m * 2 ^ k) (e - k) .exact = .finite s m e pos := by
  have again : shiftToTargetExponent Format.binary64 m e .exact = (⟨m, false, false⟩, e) := by
    simpa using shiftToTargetExponent_eq low high small 0
  have rounded : (⟨m, false, false⟩ : ExtendedMantissa).roundedMantissa = m := rfl
  rw [roundWithAccuracy, shiftToTargetExponent_eq low high small k]
  dsimp only
  rw [rounded, again]
  exact dif_neg (Nat.ne_of_gt pos)

def aligned (m : Nat) : Nat := m * 2 ^ (52 - m.log2)

theorem aligned_pos {m : Nat} (pos : 0 < m) : 0 < aligned m := Nat.mul_pos pos (Nat.two_pow_pos _)

section Aligned

variable {m : Nat} (pos : 0 < m) (small : m < 2 ^ 53)

include pos small

theorem log2_le : m.log2 ≤ 52 := by
  have lt := (Nat.log2_lt (by omega)).2 small
  omega

theorem aligned_range : 2 ^ 52 ≤ aligned m ∧ aligned m < 2 ^ 53 := by
  have le := log2_le pos small
  have log : (aligned m).log2 = 52 := by
    rw [aligned, log2_mul_two_pow pos]
    omega
  exact (Nat.log2_eq_iff (Nat.ne_of_gt (aligned_pos pos))).1 log

theorem round_eq (s : Sign) : UnpackedFloat.round Format.binary64 s m 0 =
    .finite s (aligned m) (m.log2 - 52) (aligned_pos pos) := by
  have le := log2_le pos small
  obtain ⟨low, high⟩ := aligned_range pos small
  have total : totalExponent m 0 = m.log2 + 1 := by simp [totalExponent]
  have amount : (0 - ((m.log2 : Int) + 1 - 53)).toNat = 52 - m.log2 := by omega
  have exponent : (0 : Int) - (52 - m.log2 : Nat) = m.log2 - 52 := by omega
  have exact := roundWithAccuracy_eq s (aligned_pos pos) low high
    (show (-1074 : Int) ≤ m.log2 - 52 by omega) 0
  have shifted : decreaseExponent m 0 (Format.binary64.targetExponent (totalExponent m 0)) =
      (aligned m, (m.log2 : Int) - 52) := by
    rw [total, targetExponent_eq (by omega)]
    simp only [decreaseExponent, amount, exponent, Nat.shiftLeft_eq]
    rfl
  rw [Nat.pow_zero, Nat.mul_one, Int.natCast_zero, Int.sub_zero] at exact
  delta UnpackedFloat.round
  dsimp only
  rw [shifted]
  exact exact

/-- What the number of a small integer is unpacked to. -/
theorem unpack_ofNat : (Float.ofNat m).toModel.unpack =
    .finite .positive (aligned m) (m.log2 - 52) (aligned_pos pos) := by
  have le := log2_le pos small
  obtain ⟨low, high⟩ := aligned_range pos small
  have word : m.toUInt64.toNat = m := by
    simp
    omega
  have converted : m.toUInt64.toFloat.toModel.unpack =
      .finite .positive (aligned m) (m.log2 - 52) (aligned_pos pos) := by
    have positive : compare (m : Int) 0 = .gt := by
      rw [Int.compare_eq_gt]
      omega
    have normal : normalize Format.binary64 m 0 .positive =
        .finite .positive (aligned m) (m.log2 - 52) (aligned_pos pos) := by
      rw [UnpackedFloat.normalize, positive]
      exact round_eq pos small .positive
    have packed : m.toUInt64.toFloat.toModel.unpack = UnpackedFloat.unpack Format.binary64
        (UnpackedFloat.pack Format.binary64
          (normalize Format.binary64 m.toUInt64.toNat 0 .positive)) := rfl
    rw [packed, word, normal, unpack_pack _ low high (by omega) (by omega)]
  have one : (Float.ofBits 0x3FF0000000000000).toModel.unpack =
      .finite .positive (2 ^ 52) (-52) (by decide) := rfl
  -- The number is multiplied by the power of ten that is one, which changes nothing.
  have product : (Float.ofNat m).toModel.unpack = UnpackedFloat.unpack Format.binary64
      (UnpackedFloat.pack Format.binary64 (UnpackedFloat.mul Format.binary64
        m.toUInt64.toFloat.toModel.unpack (Float.ofBits 0x3FF0000000000000).toModel.unpack)) := by
    have exact : Float.ofNat m = m.toUInt64.toFloat * Float.ofBits 0x3FF0000000000000 :=
      dif_pos ⟨small, by decide⟩
    rw [exact]
    rfl
  have rounded := roundWithAccuracy_eq .positive (aligned_pos pos) low high
    (show (-1074 : Int) ≤ m.log2 - 52 by omega) 52
  rw [show (m.log2 : Int) - 52 - (52 : Nat) = m.log2 - 52 + -52 by omega] at rounded
  rw [product, converted, one]
  exact (congrArg _ (congrArg _ rounded)).trans (unpack_pack _ low high (by omega) (by omega))

end Aligned

def signOf (n : Int) : Sign := if n < 0 then .negative else .positive

theorem signOf_beq (n : Int) : (signOf n == .negative) = decide (n < 0) := by
  by_cases negative : n < 0
  · simp only [signOf, negative, if_true, decide_true]
    rfl
  · simp only [signOf, negative, if_false, decide_false]
    rfl

theorem unpack_ofInt (pos : 0 < n.natAbs) (small : n.natAbs < 2 ^ 53) :
    (Float.ofInt n).toModel.unpack =
      .finite (signOf n) (aligned n.natAbs) (n.natAbs.log2 - 52) (aligned_pos pos) := by
  cases n with
  | ofNat m => exact unpack_ofNat pos small
  | negSucc m =>
    have le := log2_le pos small
    obtain ⟨low, high⟩ := aligned_range pos small
    have packed : (Float.ofInt (.negSucc m)).toModel.unpack = UnpackedFloat.unpack Format.binary64
        (UnpackedFloat.pack Format.binary64
          (Float.ofNat (Int.negSucc m).natAbs).toModel.unpack.neg) := rfl
    have least : (-1074 : Int) ≤ (Int.negSucc m).natAbs.log2 - 52 := by omega
    have most : ((Int.negSucc m).natAbs.log2 : Int) - 52 ≤ 971 := by omega
    have sign : signOf (.negSucc m) = .negative := if_pos (Int.negSucc_lt_zero m)
    rw [packed, unpack_ofNat pos small, sign]
    exact unpack_pack (aligned_pos pos) low high least most

/-! ## Equality -/

theorem beq_self {f : UnpackedFloat} (h : f.isNaN = false) : f.beq f = true := by
  cases f with
  | notANumber => cases h
  | infinity s => cases s <;> rfl
  | zero s => rfl
  | finite s m e _ =>
    have same : (compare e e).then (compare m m) = .eq := by simp [Std.compare_self]
    cases s with
    | negative => exact beq_iff_eq.2 (congrArg (fun o => some (Ordering.swap o)) same)
    | positive => exact beq_iff_eq.2 (congrArg some same)

theorem beq_of_unpack {x y : Float} (same : x.toModel.unpack = y.toModel.unpack)
    (h : x.toModel.unpack.isNaN = false) : (x == y) = true := by
  have compared : (x == y) = x.toModel.unpack.beq y.toModel.unpack := rfl
  rw [compared, ← same, beq_self h]

theorem beq_of_isFinite {x : Float} (h : x.isFinite = true) : (x == x) = true := by
  have finite : x.toModel.unpack.isFinite = true := h
  refine beq_of_unpack rfl ?_
  generalize x.toModel.unpack = f at finite
  cases f with
  | notANumber => cases finite
  | _ => rfl

/-! ## Whole numbers -/

theorem dyadic_floorAbs {k : Nat} (exponent : d.exponent = -(k : Int)) :
    d.floorAbs = d.mantissa / 2 ^ k ∧ (d.isInteger = true ↔ d.mantissa % 2 ^ k = 0) := by
  obtain ⟨negative, mantissa, _⟩ := d
  subst exponent
  cases k with
  | zero => simp [Dyadic.floorAbs, Dyadic.isInteger, Nat.mod_one]
  | succ k =>
    have eq : -((k + 1 : Nat) : Int) = .negSucc k := rfl
    simp only [eq, Dyadic.floorAbs, Dyadic.isInteger, beq_iff_eq]
    exact ⟨rfl, Iff.rfl⟩

/-- A number that is `± m` with zeros behind the point stands for that integer. -/
theorem safeInteger?_of_dyadic {x : Float} {m k : Nat} (read : dyadic? x = some d)
    (exponent : d.exponent = -(k : Int)) (whole : d.mantissa = m * 2 ^ k) (small : m < safeBound) :
    safeInteger? x = some (if d.negative then -(m : Int) else m) := by
  obtain ⟨floor, integer⟩ := dyadic_floorAbs exponent
  have isInteger : d.isInteger = true := integer.2 (whole ▸ Nat.mul_mod_left _ _)
  have floor' : d.floorAbs = m := by rw [floor, whole, Nat.mul_div_cancel _ (Nat.two_pow_pos _)]
  have bound : (if d.negative then -(m : Int) else m).natAbs < safeBound := by split <;> omega
  simp only [safeInteger?, integer?, read, isInteger, if_true, Dyadic.trunc, floor', bound]

/-- Every integer below the safe bound is a number, and that number stands for it. -/
theorem safeInteger?_ofInt (small : n.natAbs < safeBound) :
    safeInteger? (Float.ofInt n) = some n := by
  rcases Nat.eq_zero_or_pos n.natAbs with zero | pos
  · obtain rfl : n = 0 := Int.natAbs_eq_zero.1 zero
    obtain ⟨k, read⟩ : ∃ k : Nat, dyadic? (Float.ofInt 0) = some ⟨false, 0, -(k : Int)⟩ :=
      ⟨1074, rfl⟩
    exact safeInteger?_of_dyadic read rfl (Nat.zero_mul _).symm (by decide)
  · have le := log2_le pos small
    have read : dyadic? (Float.ofInt n) =
        some ⟨signOf n == .negative, aligned n.natAbs, n.natAbs.log2 - 52⟩ := by
      rw [dyadic?_eq, unpack_ofInt pos small]
    have exponent : (n.natAbs.log2 : Int) - 52 = -((52 - n.natAbs.log2 : Nat) : Int) := by omega
    rw [safeInteger?_of_dyadic read exponent rfl small, signOf_beq]
    by_cases negative : n < 0
    · simp only [negative, decide_true, if_true]
      exact congrArg some (by omega)
    · simp only [negative, decide_false, Bool.false_eq_true, if_false]
      exact congrArg some (by omega)

/-- A number that stands for `± m` has the bits of `m` in their place. -/
theorem aligned_of_floorAbs {x : Float} {m : Nat} (read : dyadic? x = some d)
    (integer : d.isInteger = true) (floor : d.floorAbs = m) (pos : 0 < m) (small : m < 2 ^ 53) :
    d.mantissa = aligned m ∧ d.exponent = m.log2 - 52 := by
  have ofLog : ∀ k : Nat, d.exponent = -(k : Int) → d.mantissa = m * 2 ^ k := by
    intro k exponent
    obtain ⟨floor', whole⟩ := dyadic_floorAbs exponent
    have exact := Nat.div_mul_cancel (Nat.dvd_of_mod_eq_zero (whole.1 integer))
    rw [← exact, ← floor', floor]
  have ofPlace : ∀ k : Nat, 2 ^ 52 ≤ d.mantissa → d.mantissa < 2 ^ 53 → d.exponent = -(k : Int) →
      d.mantissa = aligned m ∧ d.exponent = m.log2 - 52 := by
    intro k low high exponent
    have log : d.mantissa.log2 = 52 := (Nat.log2_eq_iff (by omega)).2 ⟨low, high⟩
    have mantissa := ofLog k exponent
    rw [mantissa, log2_mul_two_pow pos] at log
    have place : 52 - m.log2 = k := by omega
    exact ⟨by rw [mantissa, aligned, place], by omega⟩
  rcases dyadic?_range read with ⟨low, exponent⟩ | ⟨low, high⟩
  · -- Such a number is smaller than one.
    obtain ⟨k, far, exponent⟩ : ∃ k : Nat, 52 ≤ k ∧ d.exponent = -(k : Int) :=
      ⟨1074, by decide, exponent⟩
    have large : 2 ^ 52 ≤ m * 2 ^ k :=
      Nat.le_trans (Nat.pow_le_pow_right (by decide) far) (Nat.le_mul_of_pos_left _ pos)
    have mantissa := ofLog k exponent
    omega
  · cases eq : d.exponent with
    | ofNat e =>
      have product : d.mantissa * 2 ^ e = m := by
        rw [← floor, Dyadic.floorAbs, eq]
        rfl
      have none : e = 0 := by
        rcases Nat.eq_zero_or_pos e with zero | more
        · exact zero
        · have double : 2 ^ 1 ≤ 2 ^ e := Nat.pow_le_pow_right (by decide) more
          have large : 2 ^ 52 * 2 ≤ d.mantissa * 2 ^ e := Nat.mul_le_mul low double
          omega
      subst none
      exact eq ▸ ofPlace 0 low high eq
    | negSucc k => exact eq ▸ ofPlace (k + 1) low high eq

theorem mantissa_eq_zero (integer : d.isInteger = true) (floor : d.floorAbs = 0) :
    d.mantissa = 0 := by
  cases eq : d.exponent with
  | ofNat e =>
    simp only [Dyadic.floorAbs, eq] at floor
    exact (Nat.mul_eq_zero.1 floor).resolve_right (Nat.ne_of_gt (Nat.two_pow_pos e))
  | negSucc k =>
    obtain ⟨floor', whole⟩ := dyadic_floorAbs (k := k + 1) eq
    rw [← Nat.div_mul_cancel (Nat.dvd_of_mod_eq_zero (whole.1 integer)), ← floor', floor,
      Nat.zero_mul]

/-- A number that stands for an integer equals the number of that integer. -/
theorem beq_ofInt {x : Float} (h : safeInteger? x = some n) : (x == Float.ofInt n) = true := by
  obtain ⟨d, read, integer, trunc, small⟩ : ∃ d, dyadic? x = some d ∧ d.isInteger = true ∧
      d.trunc = n ∧ n.natAbs < 2 ^ 53 := by
    simp only [safeInteger?, integer?] at h
    cases read : dyadic? x with
    | none => simp [read] at h
    | some d =>
      by_cases integer : d.isInteger = true
      · simp only [read, integer, if_true] at h
        split at h
        · next small =>
          cases h
          exact ⟨d, rfl, integer, rfl, small⟩
        · cases h
      · simp [read, integer] at h
  have floor : d.floorAbs = n.natAbs := by
    rw [← trunc, Dyadic.trunc]
    split <;> omega
  have unpacked := dyadic?_eq x
  rw [read] at unpacked
  rcases Nat.eq_zero_or_pos n.natAbs with zero | pos
  · obtain rfl : n = 0 := Int.natAbs_eq_zero.1 zero
    have mantissa := mantissa_eq_zero integer floor
    have compared : (x == Float.ofInt 0) = x.toModel.unpack.beq (.zero .positive) := rfl
    cases form : x.toModel.unpack with
    | notANumber | infinity s => simp [form] at unpacked
    | zero s =>
      rw [compared, form]
      rfl
    | finite s m e positive =>
      rw [form] at unpacked
      rw [Option.some.inj unpacked] at mantissa
      exact absurd mantissa (Nat.ne_of_gt positive)
  · obtain ⟨mantissa, exponent⟩ := aligned_of_floorAbs read integer floor pos small
    cases form : x.toModel.unpack with
    | notANumber | infinity s => simp [form] at unpacked
    | zero s =>
      simp only [form, Option.some.injEq] at unpacked
      rw [unpacked] at mantissa
      exact absurd mantissa.symm (Nat.ne_of_gt (aligned_pos pos))
    | finite s m e positive =>
      rw [form] at unpacked
      obtain rfl := Option.some.inj unpacked
      have sign : s = signOf n := by
        rw [Dyadic.trunc, floor] at trunc
        cases s with
        | negative =>
          have negative : -(n.natAbs : Int) = n := trunc
          exact (if_pos (by omega)).symm
        | positive =>
          have positive : (n.natAbs : Int) = n := trunc
          exact (if_neg (by omega)).symm
      have same : x.toModel.unpack = (Float.ofInt n).toModel.unpack := by
        rw [form, unpack_ofInt pos small]
        subst sign mantissa exponent
        rfl
      exact beq_of_unpack same (by rw [form]; rfl)

end EcmaMachine.Number
