import Mathlib.Algebra.Group.Nat.Defs
import EcmaMachine.Store.Property

/-!
Decimal digits. The digits that a natural number is written with are read back as the number, and
a text of digits without zeros in front is what its value is written as. So the keys that stand
for an index are the texts of the numbers of at most 64 bits, and the keys of an array or a string
read back what is in it.
-/

namespace EcmaMachine

variable {i : Nat}

/-! ## Numbers to digits -/

theorem toList_natText (n : Nat) : (Number.natText n).toList = Nat.toDigits 10 n := by
  rw [Number.natText, String.toList_ofList]

/-- The digits of a number, the first of which is not 0 unless it is the only one. -/
theorem exists_digits (n : Nat) :
    ∃ d ds, Nat.toDigits 10 n = d :: ds ∧ d.isDigit = true ∧ ds.all Char.isDigit = true := by
  have digit : ∀ k < 10, k.digitChar.isDigit = true := by decide
  induction n using Nat.base_induction 10 (by decide) with
  | single n small => exact ⟨_, [], Nat.toDigits_of_lt_base small, digit n small, rfl⟩
  | digit n k small pos ih =>
    obtain ⟨d, ds, eq, first, rest⟩ := ih
    refine ⟨d, ds ++ [k.digitChar], ?_, first, ?_⟩
    · rw [← Nat.toDigits_append_toDigits (by decide) pos small, eq, Nat.toDigits_of_lt_base small,
        List.cons_append]
    · simp [rest, digit k small]

theorem all_digits (n : Nat) : (Nat.toDigits 10 n).all Char.isDigit = true := by
  obtain ⟨d, ds, eq, first, rest⟩ := exists_digits n
  rw [eq, List.all_cons, first, rest]
  rfl

theorem decimalDigits_toDigits (n : Nat) : Number.decimalDigits (Nat.toDigits 10 n) = n := by
  have digit : ∀ k < 10, k.digitChar.toNat - '0'.toNat = k := by decide
  induction n using Nat.base_induction 10 (by decide) with
  | single n small =>
    rw [Nat.toDigits_of_lt_base small, Number.decimalDigits, List.foldl_cons, List.foldl_nil,
      digit n small, Nat.zero_mul, Nat.zero_add]
  | digit n k small pos ih =>
    unfold Number.decimalDigits at ih ⊢
    rw [← Nat.toDigits_append_toDigits (by decide) pos small, List.foldl_append, ih,
      Nat.toDigits_of_lt_base small]
    simp only [List.foldl_cons, List.foldl_nil, digit k small]
    omega

/-! ## Digits to numbers -/

/-- Digits as numbers are written with: at least one, and no zero before others. -/
def IsDecimal (cs : List Char) : Prop :=
  cs ≠ [] ∧ (1 < cs.length → cs.head? ≠ some '0') ∧ cs.all Char.isDigit = true

theorem toDigits_isDecimal (n : Nat) : IsDecimal (Nat.toDigits 10 n) := by
  refine ⟨Nat.toDigits_ne_nil, ?_, all_digits n⟩
  induction n using Nat.base_induction 10 (by decide) with
  | single n small => simp [Nat.toDigits_of_lt_base small]
  | digit n k small pos ih =>
    intro _
    have digit : ∀ k < 10, 0 < k → k.digitChar ≠ '0' := by decide
    obtain ⟨d, ds, eq, _⟩ := exists_digits n
    rw [← Nat.toDigits_append_toDigits (by decide) pos small, eq, List.cons_append, List.head?_cons]
    by_cases one : n < 10
    · rw [Nat.toDigits_of_lt_base one] at eq
      cases eq
      simpa using digit n one pos
    · have few := mt (Nat.length_toDigits_le_iff (b := 10) (k := 1) (by decide) (by decide)).1 one
      have first := ih (by omega)
      rwa [eq, List.head?_cons] at first

theorem digitChar_of_isDigit {c : Char} (h : c.isDigit = true) :
    c.toNat - '0'.toNat < 10 ∧ (c.toNat - '0'.toNat).digitChar = c := by
  obtain ⟨low, high⟩ := Char.isDigit_iff_toNat.1 h
  have zero : '0'.toNat = 48 := rfl
  have nine : '9'.toNat = 57 := rfl
  have small : c.toNat - '0'.toNat < 10 := by omega
  refine ⟨small, Char.toNat_inj.1 ?_⟩
  rw [Nat.toNat_digitChar_of_lt_ten small]
  omega

/-- Digits that are read on behind those of a positive number. -/
theorem toDigits_foldl {n : Nat} (pos : 0 < n) {cs : List Char}
    (digits : cs.all Char.isDigit = true) :
    Nat.toDigits 10 (cs.foldl (fun n c => n * 10 + (c.toNat - '0'.toNat)) n) =
      Nat.toDigits 10 n ++ cs := by
  induction cs generalizing n with
  | nil => rw [List.foldl_nil, List.append_nil]
  | cons c cs ih =>
    rw [List.all_cons, Bool.and_eq_true] at digits
    obtain ⟨small, same⟩ := digitChar_of_isDigit digits.1
    have digit : Nat.toDigits 10 (10 * n + (c.toNat - '0'.toNat)) = Nat.toDigits 10 n ++ [c] := by
      rw [← Nat.toDigits_append_toDigits (by decide) pos small, Nat.toDigits_of_lt_base small, same]
    rw [List.foldl_cons, Nat.mul_comm n 10, ih (by omega) digits.2, digit, List.append_assoc]
    rfl

theorem toDigits_decimalDigits {cs : List Char} (h : IsDecimal cs) :
    Nat.toDigits 10 (Number.decimalDigits cs) = cs := by
  obtain ⟨ne, lead, digits⟩ := h
  cases cs with
  | nil => exact absurd rfl ne
  | cons c cs =>
    rw [List.all_cons, Bool.and_eq_true] at digits
    obtain ⟨small, same⟩ := digitChar_of_isDigit digits.1
    rw [Number.decimalDigits, List.foldl_cons, Nat.zero_mul, Nat.zero_add]
    cases cs with
    | nil => rw [List.foldl_nil, Nat.toDigits_of_lt_base small, same]
    | cons c' cs =>
      have first : c ≠ '0' := by simpa using lead
      have pos : 0 < c.toNat - '0'.toNat := by
        refine Nat.pos_of_ne_zero fun zero => first ?_
        rw [← same, zero]
        rfl
      rw [toDigits_foldl pos digits.2, Nat.toDigits_of_lt_base small, same]
      rfl

/-! ## Indices -/

/-- A key stands for an index if it is the text of the index, and the index is a word. -/
theorem arrayIndex?_eq_some_iff {key : String} :
    arrayIndex? key = some i ↔ i < 2 ^ 64 ∧ key = Number.natText i := by
  have shape : (key.toList.isEmpty || (decide (key.toList.length > 1) &&
      key.toList.head? == some '0')) = false ∧ key.toList.all Char.isDigit = true ↔
      IsDecimal key.toList := by
    simp [IsDecimal, and_assoc]
  constructor
  · intro h
    simp only [arrayIndex?] at h
    split at h
    · cases h
    · next plain =>
      split at h
      · next digits =>
        have decimal := shape.1 ⟨Bool.eq_false_iff.2 plain, digits⟩
        split at h
        · next small =>
          cases h
          refine ⟨small, ?_⟩
          rw [Number.natText, toDigits_decimalDigits decimal, String.ofList_toList]
        · cases h
      · cases h
  · rintro ⟨small, rfl⟩
    rw [toList_natText] at shape
    obtain ⟨plain, digits⟩ := shape.2 (toDigits_isDecimal i)
    simp only [arrayIndex?, toList_natText, plain, digits, Bool.false_eq_true, if_false, if_true,
      decimalDigits_toDigits]
    exact if_pos small

/-! ## Keys of arrays and strings -/

theorem arrayIndex?_natText (word : i < 2 ^ 64) : arrayIndex? (Number.natText i) = some i :=
  arrayIndex?_eq_some_iff.2 ⟨word, rfl⟩

theorem natText_ne_length (word : i < 2 ^ 64) : (Number.natText i == "length") = false := by
  refine beq_false_of_ne fun eq => ?_
  have read := arrayIndex?_natText word
  have named : arrayIndex? "length" = none := by decide
  rw [eq, named] at read
  cases read

/-- The texts of positions, read one after the other, give what is at the positions. -/
theorem take_map_natText {α β : Type} {items : List α} {read : String → β} {give : α → β}
    (reads : ∀ i < 2 ^ 64, ∀ x, items[i]? = some x → read (Number.natText i) = give x) :
    (((List.range items.length).map Number.natText).map read).take (2 ^ 64) =
      (items.map give).take (2 ^ 64) := by
  refine List.ext_getElem? fun i => ?_
  by_cases word : i < 2 ^ 64
  · rw [List.getElem?_take_of_lt word, List.getElem?_take_of_lt word, List.map_map,
      List.getElem?_map, List.getElem?_map]
    cases found : items[i]? with
    | none =>
      have past := List.getElem?_eq_none_iff.1 found
      rw [List.getElem?_eq_none (by simpa using past)]
      rfl
    | some x =>
      have inside := (List.getElem?_eq_some_iff.1 found).1
      rw [List.getElem?_range inside]
      exact congrArg some (reads i word x found)
  · rw [List.getElem?_eq_none (by simp; omega), List.getElem?_eq_none (by simp; omega)]

/-- The keys that stand for an index are the decimal texts of the numbers of at most 64 bits: digits
only, and no zero before others. So the keys of an array or a string, whose length is a word, read
back the elements or the characters, all of them and in their order. -/
theorem index_keys_read_back (s : Store) :
    (∀ key i, arrayIndex? key = some i ↔ i < 2 ^ 64 ∧ key = Number.natText i) ∧
    (∀ key, (∃ i, key = Number.natText i) ↔ IsDecimal key.toList) ∧
    (∀ id, ((s.enumerableKeys (.array id)).map (s.getProperty (.array id))).take (2 ^ 64) =
      ((s.elements id).toList.map fun v => .ok (v, s)).take (2 ^ 64)) ∧
    ∀ t, ((s.enumerableKeys (.string t)).map (s.getProperty (.string t))).take (2 ^ 64) =
      (t.toList.map fun c => .ok (.string (String.singleton c), s)).take (2 ^ 64) := by
  refine ⟨fun key i => arrayIndex?_eq_some_iff, fun key => ⟨?_, fun decimal => ?_⟩, fun id => ?_,
    fun t => ?_⟩
  · rintro ⟨i, rfl⟩
    rw [toList_natText]
    exact toDigits_isDecimal i
  · refine ⟨Number.decimalDigits key.toList, ?_⟩
    rw [Number.natText, toDigits_decimalDigits decimal, String.ofList_toList]
  · refine take_map_natText fun i word v found => ?_
    rw [Array.getElem?_toList] at found
    simp [Store.getProperty, arrayIndex?_natText word, natText_ne_length word, found]
  · refine take_map_natText fun i word c found => ?_
    simp [Store.getProperty, arrayIndex?_natText word, natText_ne_length word, found]

end EcmaMachine
