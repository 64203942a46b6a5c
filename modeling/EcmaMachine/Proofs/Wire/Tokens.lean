import Mathlib.Algebra.Group.Nat.Defs
import Mathlib.Data.List.Nodup
import EcmaMachine.Wire.Registry

/-!
Tokens and those who give them out. A token can be read off its text, and a registry in which no
token was issued twice gives back the value that a token was issued for, however many were issued
since.
-/

namespace EcmaMachine

/-! ## Texts of tokens -/

namespace Number

theorem hexDigit?_digitChar : ∀ d < 16, hexDigit? d.digitChar = some d := by decide

def readHex (n : Nat) (cs : List Char) : Option Nat :=
  cs.foldlM (fun n c => (hexDigit? c).map (n * 16 + ·)) n

theorem readHex_append (n : Nat) (cs ds : List Char) :
    readHex n (cs ++ ds) = (readHex n cs).bind (readHex · ds) :=
  List.foldlM_append

theorem readHex_digitChar {d : Nat} (small : d < 16) (n : Nat) :
    readHex n [d.digitChar] = some (n * 16 + d) := by
  simp [readHex, hexDigit?_digitChar d small]

theorem readHex_zeros (n k : Nat) : readHex n (List.replicate k '0') = some (n * 16 ^ k) := by
  induction k generalizing n with
  | zero => simp [readHex]
  | succ k ih =>
    have first : readHex n ['0'] = some (n * 16) := readHex_digitChar (show 0 < 16 by decide) n
    rw [List.replicate_succ, ← List.singleton_append, readHex_append, first]
    simp only [Option.bind_some, ih, Nat.pow_succ', Nat.mul_assoc]

theorem readHex_toDigits (m n : Nat) :
    readHex m (Nat.toDigits 16 n) = some (m * 16 ^ (Nat.toDigits 16 n).length + n) := by
  induction n using Nat.base_induction 16 (by decide) with
  | single n small =>
    rw [Nat.toDigits_of_lt_base small, readHex_digitChar small]
    simp
  | digit n d small pos ih =>
    rw [← Nat.toDigits_append_toDigits (by decide) pos small, readHex_append, ih,
      Nat.toDigits_of_lt_base small]
    simp only [Option.bind_some, readHex_digitChar small, List.length_append, List.length_singleton]
    congr 1
    rw [Nat.pow_succ, ← Nat.mul_assoc]
    omega

end Number

namespace Token

theorem toList_groupText (n width : Nat) : (groupText n width).toList =
    List.replicate (width - (Nat.toDigits 16 n).length) '0' ++ Nat.toDigits 16 n := by
  simp [groupText]

section Groups

variable {n width : Nat} (fits : n < 16 ^ width) (pos : 0 < width)

include fits pos

theorem length_groupText : (groupText n width).toList.length = width := by
  have short := (Nat.length_toDigits_le_iff (by decide) pos).2 fits
  rw [toList_groupText, List.length_append, List.length_replicate]
  omega

theorem readHex_groupText (m : Nat) :
    Number.readHex m (groupText n width).toList = some (m * 16 ^ width + n) := by
  have short := (Nat.length_toDigits_le_iff (by decide) pos).2 fits
  have whole : width - (Nat.toDigits 16 n).length + (Nat.toDigits 16 n).length = width := by omega
  rw [toList_groupText, Number.readHex_append, Number.readHex_zeros]
  simp only [Option.bind_some, Number.readHex_toDigits, Nat.mul_assoc, ← Nat.pow_add, whole]

end Groups

theorem hyphen_not_mem (n width : Nat) : '-' ∉ (groupText n width).toList := by
  have hyphen : ∀ d : Nat, '-' ≠ d.digitChar := fun d eq => Nat.digitChar_ne '-' (by decide) eq.symm
  have digits : '-' ∉ Nat.toDigits 16 n := by
    induction n using Nat.base_induction 16 (by decide) with
    | single n small => simp [Nat.toDigits_of_lt_base small, hyphen n]
    | digit n d small pos ih =>
      rw [← Nat.toDigits_append_toDigits (by decide) pos small, Nat.toDigits_of_lt_base small]
      simp [ih, hyphen d]
  simp [toList_groupText, digits]

theorem filter_groupText (n width : Nat) :
    (groupText n width).toList.filter (· != '-') = (groupText n width).toList := by
  rw [List.filter_eq_self]
  intro c mem
  simp only [bne_iff_ne]
  rintro rfl
  exact hyphen_not_mem n width mem

/-- A token of 128 bits can be read off its text. -/
theorem ofText?_text {t : Token} (fits : t.bits < 2 ^ 128) : ofText? t.text = some t := by
  let a := t.bits / 2 ^ 96 % 0x100000000
  let b := t.bits / 2 ^ 80 % 0x10000
  let c := t.bits / 2 ^ 64 % 0x10000
  let d := t.bits / 2 ^ 48 % 0x10000
  let e := t.bits % 0x1000000000000
  have smallA : a < 16 ^ 8 := Nat.mod_lt _ (by decide)
  have smallB : b < 16 ^ 4 := Nat.mod_lt _ (by decide)
  have smallC : c < 16 ^ 4 := Nat.mod_lt _ (by decide)
  have smallD : d < 16 ^ 4 := Nat.mod_lt _ (by decide)
  have smallE : e < 16 ^ 12 := Nat.mod_lt _ (by decide)
  have chars : t.text.toList = (groupText a 8).toList ++ '-' :: (groupText b 4).toList ++
      '-' :: (groupText c 4).toList ++ '-' :: (groupText d 4).toList ++
      '-' :: (groupText e 12).toList := by
    simp only [text, String.intercalate_cons_cons, String.intercalate_singleton,
      String.toList_append]
    simp [a, b, c, d, e]
  have lengthA := length_groupText smallA (by decide)
  have lengthB := length_groupText smallB (by decide)
  have lengthC := length_groupText smallC (by decide)
  have lengthD := length_groupText smallD (by decide)
  have lengthE := length_groupText smallE (by decide)
  have length : t.text.toList.length = 36 := by
    simp [chars, lengthA, lengthB, lengthC, lengthD, lengthE]
  have hyphens : [8, 13, 18, 23].all (fun i => t.text.toList[i]? == some '-') = true := by
    simp [chars, List.getElem?_append, lengthA, lengthB, lengthC, lengthD]
  have digits : t.text.toList.filter (· != '-') = (groupText a 8).toList ++
      (groupText b 4).toList ++ (groupText c 4).toList ++ (groupText d 4).toList ++
      (groupText e 12).toList := by
    simp [chars, List.filter_append, filter_groupText]
  have count : (t.text.toList.filter (· != '-')).length = 32 := by
    simp [digits, lengthA, lengthB, lengthC, lengthD, lengthE]
  have value : (((a * 16 ^ 4 + b) * 16 ^ 4 + c) * 16 ^ 4 + d) * 16 ^ 12 + e = t.bits := by
    simp only [a, b, c, d, e]
    omega
  have read : Number.readHex 0 (t.text.toList.filter (· != '-')) = some t.bits := by
    rw [digits, ← value]
    simp only [Number.readHex_append, Option.bind_some, readHex_groupText smallA (by decide),
      readHex_groupText smallB (by decide), readHex_groupText smallC (by decide),
      readHex_groupText smallD (by decide), readHex_groupText smallE (by decide), Nat.zero_mul,
      Nat.zero_add]
  have nonempty : ¬ (t.text.toList.filter (· != '-')).isEmpty = true := by
    intro empty
    rw [List.isEmpty_iff.1 empty] at count
    cases count
  have numbers : Number.hexDigits? (t.text.toList.filter (· != '-')) = some t.bits := by
    rw [Number.hexDigits?, if_neg nonempty]
    exact read
  have groups : ofGroups? t.text.toList = some t := by
    simp only [ofGroups?, length, hyphens, ofDigits?, count, numbers]
    rfl
  simp only [ofText?, length, groups]

end Token

/-! ## Registries -/

namespace Registry

/-- The second registry has all the entries of the first, and maybe some after them. -/
def Within (r r' : Registry) : Prop := r.entries <+: r'.entries

/-- No token stands for two things, and each can be written down. -/
structure Sound (r : Registry) : Prop where
  distinct : (r.entries.map (·.1)).Nodup
  width : ∀ entry ∈ r.entries, entry.1.bits < 2 ^ 128

variable {r r' r'' : Registry}

theorem Within.refl (r : Registry) : r.Within r := List.prefix_refl _

theorem Within.trans (h : r.Within r') (h' : r'.Within r'') : r.Within r'' :=
  List.IsPrefix.trans h h'

theorem tokenFor_spec (r : Registry) (v : Value) :
    r.Within (r.tokenFor v).2 ∧ ((r.tokenFor v).1, v) ∈ (r.tokenFor v).2.entries := by
  simp only [tokenFor]
  split
  · next t w found =>
    have same := List.find?_some found
    simp only [Bool.and_eq_true, decide_eq_true_eq] at same
    obtain ⟨-, rfl⟩ := same
    exact ⟨.refl r, List.mem_of_find?_eq_some found⟩
  · exact ⟨List.prefix_append _ _, List.mem_append_right _ List.mem_cons_self⟩

theorem resolve?_of_mem (sound : r.Sound) {t : Token} {v : Value} (mem : (t, v) ∈ r.entries) :
    r.resolve? t = some v := by
  have all : ∀ entries : List (Token × Value), (entries.map (·.1)).Nodup → (t, v) ∈ entries →
      entries.find? (·.1 == t) = some (t, v) := by
    intro entries distinct mem
    induction entries with
    | nil => cases mem
    | cons entry rest ih =>
      obtain ⟨apart, distinct⟩ := List.nodup_cons.1 distinct
      rcases List.mem_cons.1 mem with rfl | later
      · simp
      · have ne : entry.1 ≠ t := fun eq => apart (List.mem_map.2 ⟨(t, v), later, eq.symm⟩)
        rw [List.find?_cons_of_neg (by simpa using ne), ih distinct later]
  simp only [resolve?, all r.entries sound.distinct mem, Option.map_some]

end Registry

end EcmaMachine
