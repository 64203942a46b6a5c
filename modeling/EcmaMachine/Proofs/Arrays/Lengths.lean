import EcmaMachine.Proofs.Wire.Numbers
import EcmaMachine.Store.Property

/-!
Lengths of arrays. They are checked as numbers, the length behind an index being the index as a
number plus one. Up to the bound this is exact; above 2 ^ 53 it is rounded, but never down to a
length that an array may have.
-/

namespace EcmaMachine

namespace Number

variable {e : Int} {i k m : Nat} {x : Float}

open Float.Model UnpackedFloat

/-! ## Rounding -/

theorem mantissa_shiftRight (em : ExtendedMantissa) (k : Nat) :
    (em >>> k).mantissa = em.mantissa / 2 ^ k := by
  induction k with
  | zero =>
    rw [Nat.pow_zero, Nat.div_one]
    rfl
  | succ k ih =>
    have last : (em >>> (k + 1)).mantissa = (em >>> k).mantissa / 2 := rfl
    rw [last, ih, Nat.div_div_eq_div_mul, ← Nat.pow_succ]

theorem roundedMantissa_range (em : ExtendedMantissa) :
    em.mantissa ≤ em.roundedMantissa ∧ em.roundedMantissa ≤ em.mantissa + 1 := by
  obtain ⟨m, round, sticky⟩ := em
  cases round <;> cases sticky <;>
    simp only [ExtendedMantissa.roundedMantissa, ExtendedMantissa.accuracy,
      Accuracy.roundToNearestEven] <;> omega

/-- A rounded mantissa is in place, or it has carried into one more bit. -/
theorem exists_shiftToTargetExponent (low : 2 ^ 52 ≤ m) (high : m ≤ 2 ^ 53) (small : -1074 ≤ e) :
    ∃ m' e', shiftToTargetExponent Format.binary64 m e .exact =
      (⟨m', false, false⟩, e') ∧ 2 ^ 52 ≤ m' ∧ m' < 2 ^ 53 ∧ e ≤ e' ∧ e' ≤ e + 1 := by
  rcases Nat.lt_or_eq_of_le high with fits | rfl
  · have still := shiftToTargetExponent_eq low fits small 0
    exact ⟨m, e, by simpa using still, low, fits, by omega, by omega⟩
  · have moved := shiftToTargetExponent_eq (m := 2 ^ 52) (e := e + 1) (by decide) (by decide)
      (by omega) 1
    rw [← Nat.pow_add, show e + 1 - (1 : Nat) = e by omega] at moved
    exact ⟨2 ^ 52, e + 1, moved, by decide, by decide, by omega, by omega⟩

/-- Rounding takes `k` bits off a mantissa that has so many more than there is room for. -/
theorem exists_roundWithAccuracy (s : Sign) (log : m.log2 = 52 + k) (small : -1074 ≤ e + k) :
    ∃ m' e' pos, roundWithAccuracy Format.binary64 s m e .exact = .finite s m' e' pos ∧
      2 ^ 52 ≤ m' ∧ m' < 2 ^ 53 ∧ e + k ≤ e' ∧ e' ≤ e + k + 1 := by
  have ne : m ≠ 0 := by
    rintro rfl
    rw [Nat.log2_zero] at log
    omega
  obtain ⟨low, high⟩ := (Nat.log2_eq_iff ne).1 log
  have low' : 2 ^ 52 ≤ m / 2 ^ k := by
    rw [Nat.le_div_iff_mul_le (Nat.two_pow_pos k), ← Nat.pow_add]
    exact low
  have high' : m / 2 ^ k < 2 ^ 53 := by
    rw [Nat.div_lt_iff_lt_mul (Nat.two_pow_pos k), ← Nat.pow_add]
    exact Nat.lt_of_lt_of_le high (Nat.pow_le_pow_right (by decide) (by omega))
  have amount : (Format.binary64.targetExponent (totalExponent m e) - e).toNat = k := by
    rw [totalExponent, log, targetExponent_eq (by omega)]
    omega
  have first : shiftToTargetExponent Format.binary64 m e .exact =
      ((⟨m, false, false⟩ : ExtendedMantissa) >>> k, e + k) := by
    simp only [shiftToTargetExponent, shiftToExponent, amount]
    rfl
  obtain ⟨least, most⟩ := roundedMantissa_range ((⟨m, false, false⟩ : ExtendedMantissa) >>> k)
  rw [mantissa_shiftRight] at least most
  obtain ⟨m', e', again, range⟩ :=
    exists_shiftToTargetExponent (Nat.le_trans low' least) (Nat.le_trans most high') small
  refine ⟨m', e', by omega, ?_, range⟩
  rw [roundWithAccuracy, first]
  dsimp only
  rw [again]
  exact dif_neg (show ¬ m' = 0 by omega)

/-! ## One more -/

/-- The sum with one, of numbers of at least one. -/
theorem unpack_add_one {pos : 0 < m}
    (unpacked : x.toModel.unpack = .finite .positive m ((k : Int) - 52) pos) :
    (x + 1).toModel.unpack = UnpackedFloat.unpack Format.binary64 (UnpackedFloat.pack
      Format.binary64 (UnpackedFloat.round Format.binary64 .positive (m * 2 ^ k + 2 ^ 52) (-52))) := by
  have one : (1 : Float).toModel.unpack = .finite .positive (2 ^ 52) (-52) (by decide) := rfl
  have sum : (x + 1).toModel.unpack = UnpackedFloat.unpack Format.binary64 (UnpackedFloat.pack
      Format.binary64 (UnpackedFloat.add Format.binary64 x.toModel.unpack
        (1 : Float).toModel.unpack)) := rfl
  have positive : compare ((m * 2 ^ k : Nat) + (2 ^ 52 : Nat) : Int) 0 = .gt := by
    rw [Int.compare_eq_gt]
    omega
  have least : min ((k : Int) - 52) (-52) = -52 := by omega
  have amount : ((k : Int) - 52 - -52).toNat = k := by omega
  rw [sum, unpacked, one]
  delta UnpackedFloat.add
  dsimp only
  simp only [least, decreaseExponent, amount, Nat.shiftLeft_eq, Sign.apply, Int.sub_self,
    Int.toNat_zero, Nat.pow_zero, Nat.mul_one, UnpackedFloat.normalize, positive]
  rfl

/-- Nothing is moved up where the bits fill the mantissa. -/
theorem round_of_log2 (s : Sign) (log : m.log2 = 52 + k) (small : -1074 ≤ e + k) :
    UnpackedFloat.round Format.binary64 s m e =
      roundWithAccuracy Format.binary64 s m e .exact := by
  have amount : (e - Format.binary64.targetExponent (totalExponent m e)).toNat = 0 := by
    rw [totalExponent, log, targetExponent_eq (by omega)]
    omega
  simp [UnpackedFloat.round, decreaseExponent, amount]

/-- Below 2 ^ 53 the sum is that of the integers. -/
theorem unpack_ofNat_add_one (small : i + 1 < 2 ^ 53) :
    (Float.ofNat i + 1).toModel.unpack = (Float.ofNat (i + 1)).toModel.unpack := by
  rcases Nat.eq_zero_or_pos i with rfl | pos
  · rfl
  have next : 0 < i + 1 := by omega
  have le := log2_le pos (by omega)
  have le' := log2_le next small
  obtain ⟨low, high⟩ := aligned_range next small
  have sum : aligned i * 2 ^ i.log2 + 2 ^ 52 = (i + 1) * 2 ^ 52 := by
    rw [aligned, Nat.mul_assoc, ← Nat.pow_add, Nat.sub_add_cancel le, Nat.add_mul, Nat.one_mul]
  have spread : (i + 1) * 2 ^ 52 = aligned (i + 1) * 2 ^ (i + 1).log2 := by
    rw [aligned, Nat.mul_assoc, ← Nat.pow_add, Nat.sub_add_cancel le']
  have log : ((i + 1) * 2 ^ 52).log2 = 52 + (i + 1).log2 := by
    rw [log2_mul_two_pow next, Nat.add_comm]
  have rounded := roundWithAccuracy_eq .positive (aligned_pos next) low high
    (show (-1074 : Int) ≤ (i + 1).log2 - 52 by omega) (i + 1).log2
  rw [show ((i + 1).log2 : Int) - 52 - (i + 1).log2 = -52 by omega, ← spread] at rounded
  rw [unpack_add_one (unpack_ofNat pos (by omega)), sum, round_of_log2 .positive log (by omega),
    rounded, unpack_pack _ low high (by omega) (by omega), unpack_ofNat next small]

/-- Integers that take more bits are converted as they stand, and rounded. -/
theorem ofNat_eq_of_le (large : 2 ^ 53 ≤ i) : Float.ofNat i =
    ⟨.pack (roundWithAccuracy Format.binary64 .positive (i * 2 ^ 53) (-53) .exact)⟩ := by
  have ne : i ≠ 0 := by omega
  have model : Float.ofNat i = ⟨.pack (UnpackedFloat.ofScientific Format.binary64 i 0)⟩ :=
    dif_neg fun h => by omega
  have low : ¬ (0 : Int) > 2 ^ Format.binary64.exponentBits := by decide
  have high : ¬ (0 : Int) < -(2 ^ Format.binary64.exponentBits + i.log2) := by
    have : (0 : Int) ≤ 2 ^ Format.binary64.exponentBits := by decide
    omega
  have one : i <<< Format.binary64.mantissaBits * 10 ^ (0 : Int).toNat = i * 2 ^ 53 := by
    rw [Nat.shiftLeft_eq]
    exact Nat.mul_one _
  rw [model]
  delta UnpackedFloat.ofScientific
  rw [dif_neg ne, if_neg low, if_neg high, if_pos (Int.le_refl 0), ← one]
  rfl

theorem exists_unpack_ofNat (large : 2 ^ 53 ≤ i) (word : i < 2 ^ 64) :
    ∃ (m k : Nat) (pos : 0 < m), (Float.ofNat i).toModel.unpack = .finite .positive m ((k : Int) - 52) pos ∧
      2 ^ 52 ≤ m ∧ m < 2 ^ 53 ∧ 53 ≤ k ∧ k ≤ 64 := by
  have ne : i ≠ 0 := by omega
  have low : 53 ≤ i.log2 := (Nat.le_log2 ne).2 large
  have high : i.log2 < 64 := (Nat.log2_lt ne).2 word
  have log : (i * 2 ^ 53).log2 = 52 + (i.log2 + 1) := by
    rw [log2_mul_two_pow (by omega)]
    omega
  obtain ⟨m, e, pos, rounded, least, most, range⟩ :=
    exists_roundWithAccuracy .positive (e := -53) log (by omega)
  obtain ⟨k, rfl⟩ : ∃ k : Nat, e = k - 52 := ⟨(e + 52).toNat, by omega⟩
  refine ⟨m, k, pos, ?_, least, most, by omega, by omega⟩
  rw [ofNat_eq_of_le large, rounded]
  exact unpack_pack pos least most (by omega) (by omega)

theorem log2_add_range (low : 2 ^ 52 ≤ m) (high : m < 2 ^ 53) (k : Nat) :
    52 + k ≤ (m * 2 ^ k + 2 ^ 52).log2 ∧ (m * 2 ^ k + 2 ^ 52).log2 < 54 + k := by
  have least : 2 ^ (52 + k) ≤ m * 2 ^ k + 2 ^ 52 := by
    rw [Nat.pow_add]
    exact Nat.le_add_right_of_le (Nat.mul_le_mul_right _ low)
  have most : m * 2 ^ k + 2 ^ 52 < 2 ^ (54 + k) := by
    have product : m * 2 ^ k < 2 ^ 53 * 2 ^ k :=
      Nat.mul_lt_mul_of_pos_right high (Nat.two_pow_pos k)
    have one : 2 ^ 52 ≤ 2 ^ 53 * 2 ^ k :=
      Nat.le_trans (by decide) (Nat.le_mul_of_pos_right _ (Nat.two_pow_pos k))
    calc m * 2 ^ k + 2 ^ 52 < 2 ^ 53 * 2 ^ k + 2 ^ 53 * 2 ^ k :=
          Nat.add_lt_add_of_lt_of_le product one
      _ = (2 ^ 53 + 2 ^ 53) * 2 ^ k := (Nat.add_mul _ _ _).symm
      _ = 2 ^ 54 * 2 ^ k := rfl
      _ = 2 ^ (54 + k) := (Nat.pow_add _ _ _).symm
  have ne : m * 2 ^ k + 2 ^ 52 ≠ 0 := Nat.ne_of_gt (Nat.lt_of_lt_of_le (Nat.two_pow_pos _) least)
  exact ⟨(Nat.le_log2 ne).2 least, (Nat.log2_lt ne).2 most⟩

/-- From 2 ^ 53 on the sum is rounded, but not to less than 2 ^ 53. -/
theorem exists_unpack_add_one (large : 2 ^ 53 ≤ i) (word : i < 2 ^ 64) :
    ∃ (m e : Nat) (pos : 0 < m), (Float.ofNat i + 1).toModel.unpack = .finite .positive m e pos ∧
      2 ^ 53 ≤ m * 2 ^ e := by
  obtain ⟨m, k, pos, unpacked, least, most, low, high⟩ := exists_unpack_ofNat large word
  obtain ⟨bits, bits'⟩ := log2_add_range least most k
  obtain ⟨j, log⟩ : ∃ j, (m * 2 ^ k + 2 ^ 52).log2 = 52 + j := Nat.exists_eq_add_of_le (by omega)
  rw [log] at bits bits'
  obtain ⟨m', e', pos', rounded, least', most', range⟩ :=
    exists_roundWithAccuracy .positive (e := -52) log (by omega)
  obtain ⟨e, rfl⟩ : ∃ e : Nat, e' = e := ⟨e'.toNat, by omega⟩
  refine ⟨m', e, pos', ?_, ?_⟩
  · rw [unpack_add_one unpacked, round_of_log2 .positive log (by omega), rounded,
      unpack_pack pos' least' most' (by omega) (by omega)]
  · have double : 2 ^ 1 ≤ 2 ^ e := Nat.pow_le_pow_right (by decide) (by omega)
    exact Nat.le_trans (by decide) (Nat.mul_le_mul least' double)

/-! ## Integers -/

theorem integer?_congr {y : Float} (same : x.toModel.unpack = y.toModel.unpack) :
    integer? x = integer? y := by
  simp only [integer?, dyadic?_eq, same]

theorem integer?_of_safeInteger? {n : Int} (h : safeInteger? x = some n) : integer? x = some n := by
  simp only [safeInteger?] at h
  split at h
  · next read =>
    split at h
    · rw [read, h]
    · cases h
  · cases h

theorem integer?_ofNat {n : Nat} (small : n < 2 ^ 53) : integer? (Float.ofNat n) = some (n : Int) :=
  integer?_of_safeInteger? (safeInteger?_ofInt (n := n) small)

theorem isInteger_zero (negative : Bool) (e : Int) :
    (⟨negative, 0, e⟩ : Dyadic).isInteger = true ∧ (⟨negative, 0, e⟩ : Dyadic).trunc = 0 := by
  cases e <;> simp [Dyadic.isInteger, Dyadic.trunc, Dyadic.floorAbs]

/-- Nothing but the two zeros is equal and not the same. -/
theorem eq_or_zero_of_beq {f g : UnpackedFloat} (h : f.beq g = true) :
    f = g ∨ ∃ s s', f = .zero s ∧ g = .zero s' := by
  rcases f with s | _ | s | ⟨s, m, e, pos⟩ <;> rcases g with s' | _ | s' | ⟨s', m', e', pos'⟩
  case zero.zero => exact .inr ⟨s, s', rfl, rfl⟩
  case finite.finite =>
    have same : s = s' ∧ (compare e e').then (compare m m') = .eq := by
      cases s <;> cases s' <;> try cases h
      · exact ⟨rfl, Ordering.swap_eq_eq.1 (Option.some.inj (beq_iff_eq.1 h))⟩
      · exact ⟨rfl, Option.some.inj (beq_iff_eq.1 h)⟩
    rw [Ordering.then_eq_eq, Std.LawfulEqCmp.compare_eq_iff_eq,
      Std.LawfulEqCmp.compare_eq_iff_eq] at same
    obtain ⟨rfl, rfl, rfl⟩ := same
    exact .inl rfl
  case infinity.infinity => cases s <;> cases s' <;> first | exact .inl rfl | cases h
  all_goals first | cases h | (cases s <;> cases h) | (cases s' <;> cases h)

/-- Numbers that are equal stand for one integer, the two zeros too. -/
theorem integer?_of_beq {y : Float} (h : (x == y) = true) : integer? x = integer? y := by
  have zero : ∀ {x : Float} {s : Sign}, x.toModel.unpack = .zero s → integer? x = some 0 := by
    intro x s form
    obtain ⟨integer, trunc⟩ := isInteger_zero (s == .negative) (-1074)
    simp only [integer?, dyadic?_eq, form, integer, trunc, if_true]
  have compared : x.toModel.unpack.beq y.toModel.unpack = true := h
  rcases eq_or_zero_of_beq compared with same | ⟨s, s', form, form'⟩
  · exact integer?_congr same
  · rw [zero form, zero form']

/-- The numbers that stand for a small integer are those equal to it. -/
theorem integer?_eq_some_iff {n : Nat} (small : n < 2 ^ 53) :
    integer? x = some (n : Int) ↔ (x == Float.ofNat n) = true := by
  constructor
  · intro h
    refine beq_ofInt (n := n) ?_
    simp only [safeInteger?, h]
    exact if_pos small
  · intro h
    rw [integer?_of_beq h, integer?_ofNat small]

end Number

namespace Store

variable {x : Float}

open Number

/-! ## Lengths -/

theorem arrayLength?_of_integer? {n : Nat} (read : integer? x = some (n : Int))
    (le : n ≤ maxArrayLength) : arrayLength? x = .ok n := by
  have bound : maxArrayLength = 2 ^ 24 := rfl
  have fits : (decide ((n : Int) < 0) || decide ((n : Int) ≥ 0x100000000)) = false := by
    simp
    omega
  have short : ¬ (n : Int) > maxArrayLength := by omega
  simp only [arrayLength?, read, fits, if_neg short, Int.toNat_natCast, Bool.false_eq_true, if_false]

/-- A number is a length exactly if it equals one of the integers up to the bound. -/
theorem arrayLength?_eq_ok_iff {n : Nat} :
    arrayLength? x = .ok n ↔ (x == Float.ofNat n) = true ∧ n ≤ maxArrayLength := by
  have bound : maxArrayLength = 2 ^ 24 := rfl
  constructor
  · intro h
    simp only [arrayLength?] at h
    split at h
    · next m read =>
      split at h
      · cases h
      · next fits =>
        simp only [Bool.or_eq_true, decide_eq_true_eq, not_or] at fits
        split at h
        · cases h
        · next short =>
          cases h
          have whole : (m.toNat : Int) = m := by omega
          rw [← whole] at read
          exact ⟨(integer?_eq_some_iff (by omega)).1 read, by omega⟩
    · cases h
  · rintro ⟨equal, le⟩
    exact arrayLength?_of_integer? ((integer?_eq_some_iff (by omega)).2 equal) le

theorem arrayLength?_of_lt {n : Int} (read : integer? x = some n) (lt : maxArrayLength < n) :
    ∃ fault, arrayLength? x = .error fault := by
  have long : n > maxArrayLength := lt
  simp only [arrayLength?, read, if_pos long]
  split
  · exact ⟨_, rfl⟩
  · exact ⟨_, rfl⟩

/-- The length that an array must have to hold an index. -/
theorem arrayLength?_index {i : Nat} (lt : i < maxArrayLength) :
    arrayLength? (Float.ofNat i + 1) = .ok (i + 1) := by
  have bound : maxArrayLength = 2 ^ 24 := rfl
  refine arrayLength?_of_integer? ?_ lt
  rw [integer?_congr (unpack_ofNat_add_one (by omega)), integer?_ofNat (by omega)]

theorem arrayLength?_index_of_le {i : Nat} (le : maxArrayLength ≤ i) (word : i < 2 ^ 64) :
    ∃ fault, arrayLength? (Float.ofNat i + 1) = .error fault := by
  have bound : maxArrayLength = 2 ^ 24 := rfl
  rcases Nat.lt_trichotomy (i + 1) (2 ^ 53) with small | edge | large
  · refine arrayLength?_of_lt (n := (i + 1 : Nat)) ?_ (by omega)
    rw [integer?_congr (unpack_ofNat_add_one small), integer?_ofNat small]
  · obtain rfl : i = 2 ^ 53 - 1 := by omega
    exact arrayLength?_of_lt (n := 2 ^ 53) (by decide +kernel) (by decide)
  · obtain ⟨m, e, pos, unpacked, value⟩ := exists_unpack_add_one (by omega) word
    refine arrayLength?_of_lt (n := (m * 2 ^ e : Nat)) ?_ (by omega)
    rw [integer?, dyadic?_eq, unpacked]
    rfl

end Store

end EcmaMachine
