import Mathlib.Data.Nat.Bitwise
import Mathlib.Data.List.Range
import Mathlib.Logic.Function.Basic

/-! # Bitmaps

A word of `k` bits is a set of numbers below `k`, and an array of words is a set of
numbers. The lowest number of a word is the count of its trailing zeros.
-/
namespace OpenIon.Lib

variable {k : ℕ}

theorem getLsbD_setBit (mask : BitVec k) (i j : ℕ) (hj : j < k) :
    (mask ||| (1#k <<< i)).getLsbD j = true ↔ mask.getLsbD j = true ∨ j = i := by
  rw [BitVec.getLsbD_or, Bool.or_eq_true]
  apply or_congr Iff.rfl
  rw [BitVec.getLsbD_shiftLeft, BitVec.getLsbD_one]
  have hk : 0 < k := by omega
  simp [hj, hk]
  omega

theorem getLsbD_clearBit (mask : BitVec k) (i j : ℕ) (hj : j < k) :
    (mask &&& ~~~(1#k <<< i)).getLsbD j = true ↔ mask.getLsbD j = true ∧ j ≠ i := by
  rw [BitVec.getLsbD_and, Bool.and_eq_true]
  apply and_congr Iff.rfl
  rw [BitVec.getLsbD_not, BitVec.getLsbD_shiftLeft, BitVec.getLsbD_one]
  have hk : 0 < k := by omega
  simp [hj, hk]
  omega

theorem getLsbD_clearBelow (mask : BitVec k) (i j : ℕ) (hi : i < k) (hj : j < k) :
    (mask &&& ~~~((1#k <<< i) - 1#k)).getLsbD j = true ↔ mask.getLsbD j = true ∧ i ≤ j := by
  have hpow : 2 ^ i < 2 ^ k := Nat.pow_lt_pow_right (by decide) hi
  have hpos := Nat.two_pow_pos i
  have hlow : ((1#k <<< i) - 1#k).getLsbD j = decide (j < i) := by
    have heq : (1#k <<< i) - 1#k = BitVec.ofNat k (2 ^ i - 1) := by
      apply BitVec.eq_of_toNat_eq
      have hone : 1 < 2 ^ k := Nat.one_lt_two_pow (by omega)
      rw [BitVec.toNat_sub, BitVec.toNat_shiftLeft, BitVec.toNat_ofNat, BitVec.toNat_ofNat,
        Nat.mod_eq_of_lt hone, Nat.one_shiftLeft, Nat.mod_eq_of_lt hpow,
        Nat.mod_eq_of_lt (show 2 ^ i - 1 < 2 ^ k by omega),
        show 2 ^ k - 1 + 2 ^ i = 2 ^ i - 1 + 2 ^ k by omega, Nat.add_mod_right]
      exact Nat.mod_eq_of_lt (by omega)
    rw [heq, BitVec.getLsbD_ofNat, Nat.testBit_two_pow_sub_one]
    simp [hj]
  rw [BitVec.getLsbD_and, BitVec.getLsbD_not, hlow]
  simp [hj]

theorem ctz_eq_of_lowest {word : BitVec k} {i : ℕ} (hi : word.getLsbD i = true)
    (hbelow : ∀ j < i, word.getLsbD j = false) : word.ctz.toNat = i := by
  have hne : word ≠ 0#k := by
    rintro rfl
    simp at hi
  have hset := BitVec.getLsbD_true_ctz_of_ne_zero hne
  rcases Nat.lt_trichotomy word.ctz.toNat i with hlt | heq | hgt
  · rw [hbelow _ hlt] at hset
    cases hset
  · exact heq
  · rw [BitVec.getLsbD_false_of_lt_ctz hgt] at hi
    cases hi

/-- The bit with the given number in an array of words. -/
def bit (words : ℕ → BitVec k) (i : ℕ) : Bool := (words (i / k)).getLsbD (i % k)

variable {words : ℕ → BitVec k} {i j : ℕ}

theorem index_eq_iff : j / k = i / k ∧ j % k = i % k ↔ j = i := by
  constructor
  · rintro ⟨hdiv, hmod⟩
    rw [← Nat.div_add_mod j k, ← Nat.div_add_mod i k, hdiv, hmod]
  · rintro rfl
    exact ⟨rfl, rfl⟩

theorem bit_set (hk : 0 < k) :
    bit (Function.update words (i / k) (words (i / k) ||| (1#k <<< (i % k)))) j = true ↔
      bit words j = true ∨ j = i := by
  rw [bit, bit, ← index_eq_iff (k := k)]
  by_cases hword : j / k = i / k
  · rw [hword, Function.update_self, getLsbD_setBit _ _ _ (Nat.mod_lt j hk)]
    simp
  · rw [Function.update_of_ne hword]
    simp [hword]

theorem bit_clear (hk : 0 < k) :
    bit (Function.update words (i / k) (words (i / k) &&& ~~~(1#k <<< (i % k)))) j = true ↔
      bit words j = true ∧ j ≠ i := by
  rw [bit, bit, ne_eq, ← index_eq_iff (k := k)]
  by_cases hword : j / k = i / k
  · rw [hword, Function.update_self, getLsbD_clearBit _ _ _ (Nat.mod_lt j hk)]
    simp
  · rw [Function.update_of_ne hword]
    simp [hword]

theorem and_bitMask_eq_zero (hk : 0 < k) :
    words (i / k) &&& (1#k <<< (i % k)) = 0 ↔ ¬ bit words i = true := by
  have hlt := Nat.mod_lt i hk
  constructor
  · intro hzero hset
    have hbit : (words (i / k) &&& (1#k <<< (i % k))).getLsbD (i % k) = true := by
      rw [BitVec.getLsbD_and, Bool.and_eq_true]
      exact ⟨hset, by simp [hlt]⟩
    rw [hzero] at hbit
    simp at hbit
  · intro hclear
    apply BitVec.eq_of_getLsbD_eq
    intro j hj
    change _ = (0#k).getLsbD j
    rw [BitVec.getLsbD_zero, Bool.eq_false_iff, ne_eq, BitVec.getLsbD_and, Bool.and_eq_true]
    rintro ⟨hset, hmask⟩
    have hji : j = i % k := by
      simpa using (getLsbD_setBit 0#k (i % k) j hj).mp (by simpa using hmask)
    rw [hji] at hset
    exact hclear hset

theorem bit_mul_add {n : ℕ} (hi : i < k) : bit words (n * k + i) = (words n).getLsbD i := by
  have hk : 0 < k := by omega
  rw [bit, Nat.mul_comm, Nat.mul_add_div hk, Nat.div_eq_of_lt hi, Nat.add_zero, Nat.mul_add_mod,
    Nat.mod_eq_of_lt hi]

/-- Clearing the low bits of a word of `w` bits rounds it down to a multiple of a power of two. -/
theorem and_highMask {w value : ℕ} (hk : k ≤ w) :
    value &&& (2 ^ w - 1 - (2 ^ k - 1)) = value % 2 ^ w / 2 ^ k * 2 ^ k := by
  have hpos := Nat.two_pow_pos k
  have hle := Nat.pow_le_pow_right (n := 2) (by decide) hk
  apply Nat.eq_of_testBit_eq
  intro j
  rw [show 2 ^ w - 1 - (2 ^ k - 1) = 2 ^ w - (2 ^ k - 1 + 1) by omega, Nat.testBit_and,
    Nat.testBit_two_pow_sub_succ (by omega), Nat.testBit_two_pow_sub_one, Nat.testBit_mul_two_pow,
    Nat.testBit_div_two_pow, Nat.testBit_mod_two_pow]
  by_cases hjk : k ≤ j
  · simp [hjk, Nat.sub_add_cancel hjk, Nat.not_lt.mpr hjk, Bool.and_comm]
  · simp [hjk, Nat.lt_of_not_le hjk]

theorem findSome?_range_eq_some {α : Type*} {n : ℕ} {f : ℕ → Option α} {a : α} (hi : i < n)
    (hfound : f i = some a) (hbefore : ∀ j < i, f j = none) :
    (List.range n).findSome? f = some a := by
  induction n with
  | zero => omega
  | succ n ih =>
    rw [List.range_succ, List.findSome?_append]
    by_cases hlast : i = n
    · have hnone : (List.range n).findSome? f = none := by
        rw [List.findSome?_eq_none_iff]
        intro j hj
        exact hbefore j (by rw [hlast]; exact List.mem_range.mp hj)
      rw [hnone, hlast.symm]
      simp [hfound]
    · rw [ih (by omega)]
      rfl

end OpenIon.Lib
