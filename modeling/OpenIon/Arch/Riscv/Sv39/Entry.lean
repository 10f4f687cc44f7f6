import OpenIon.Mm.Types
import Mathlib.Data.Nat.Bitwise

/-! # Page table entries of Sv39

An entry has ten flag bits and above them the 44 bits of a physical page number.
No operation on it overflows 64 bits, so entries are natural numbers.
-/
namespace OpenIon.Arch.Riscv.Sv39
open Mm

def pteV : ℕ := 1 <<< 0
def pteR : ℕ := 1 <<< 1
def pteW : ℕ := 1 <<< 2
def pteX : ℕ := 1 <<< 3
def pteA : ℕ := 1 <<< 6
def pteD : ℕ := 1 <<< 7

def ppnMask : ℕ := 0xFFFFFFFFFFF

def isValid (e : ℕ) : Bool := e &&& pteV ≠ 0

def isLeaf (e : ℕ) : Bool := e &&& pteV ≠ 0 && e &&& (pteR ||| pteW ||| pteX) ≠ 0

def ppn (e : ℕ) : ℕ := (e >>> 10) &&& ppnMask

def permsToPteBits (perms : MemPerms) : ℕ :=
  let bits := pteV ||| pteA ||| pteD
  let bits := if perms.read then bits ||| pteR else bits
  let bits := if perms.write then bits ||| pteW else bits
  if perms.execute then bits ||| pteX else bits

def pteToPerms (pte : ℕ) : MemPerms where
  read := pte &&& pteR ≠ 0
  write := pte &&& pteW ≠ 0
  execute := pte &&& pteX ≠ 0

def withPpn (bits addr : ℕ) : ℕ := bits ||| (((addr >>> pageShift) &&& ppnMask) <<< 10)

def tableEntry (addr : ℕ) : ℕ := withPpn pteV addr

def leafEntry (perms : MemPerms) (addr : ℕ) : ℕ := withPpn (permsToPteBits perms) addr

def pageAddr (e : ℕ) : ℕ := ppn e <<< pageShift

variable {bits addr : ℕ} {perms : MemPerms}

theorem isValid_zero : isValid 0 = false := by decide

theorem flags_and {x k : ℕ} (hk : k < 2 ^ 10) : (bits ||| x <<< 10) &&& k = bits &&& k := by
  apply Nat.eq_of_testBit_eq
  intro j
  rw [Nat.testBit_and, Nat.testBit_and, Nat.testBit_or, Nat.testBit_shiftLeft]
  by_cases hj : j < 10
  · simp [Nat.not_le.mpr hj]
  · have hkj : k.testBit j = false := by
      apply Nat.testBit_lt_two_pow
      calc k < 2 ^ 10 := hk
        _ ≤ 2 ^ j := Nat.pow_le_pow_right (by decide) (by omega)
    simp [hkj]

theorem isValid_flags (bits x : ℕ) : isValid (bits ||| x <<< 10) = isValid bits := by
  rw [isValid, isValid, flags_and (by decide)]

theorem isLeaf_flags (bits x : ℕ) : isLeaf (bits ||| x <<< 10) = isLeaf bits := by
  rw [isLeaf, isLeaf, flags_and (by decide), flags_and (by decide)]

/-- The low `k` bits of a page number are recovered from above the flags. -/
theorem pageNumber_mod {k : ℕ} (hbits : bits < 2 ^ 10) (x : ℕ) :
    (bits ||| (x &&& (2 ^ k - 1)) <<< 10) >>> 10 &&& (2 ^ k - 1) = x % 2 ^ k := by
  rw [← Nat.and_two_pow_sub_one_eq_mod]
  apply Nat.eq_of_testBit_eq
  intro j
  have hhigh : bits.testBit (10 + j) = false := by
    apply Nat.testBit_lt_two_pow
    calc bits < 2 ^ 10 := hbits
      _ ≤ 2 ^ (10 + j) := Nat.pow_le_pow_right (by decide) (by omega)
  simp only [Nat.testBit_and, Nat.testBit_shiftRight, Nat.testBit_or, Nat.testBit_shiftLeft,
    Nat.testBit_two_pow_sub_one, hhigh]
  by_cases hj : j < k
  · simp [hj]
  · simp [hj]

theorem pageNumber_eq {k : ℕ} (hbits : bits < 2 ^ 10) (haddr : addr < 2 ^ (pageShift + k)) :
    (bits ||| ((addr >>> pageShift) &&& (2 ^ k - 1)) <<< 10) >>> 10 &&& (2 ^ k - 1) =
      addr >>> pageShift := by
  rw [pageNumber_mod hbits]
  apply Nat.mod_eq_of_lt
  rwa [Nat.shiftRight_eq_div_pow, Nat.div_lt_iff_lt_mul (Nat.two_pow_pos _), ← pow_add,
    Nat.add_comm]

theorem pageAddr_withPpn (hbits : bits < 2 ^ 10) (haddr : addr < 2 ^ 56) (halign : addr % 4096 = 0) :
    pageAddr (withPpn bits addr) = addr := by
  have hppn : ppn (withPpn bits addr) = addr >>> pageShift := pageNumber_eq (k := 44) hbits haddr
  rw [pageAddr, hppn, pageShift, Nat.shiftLeft_eq, Nat.shiftRight_eq_div_pow]
  omega

theorem pageAddr_tableEntry (haddr : addr < 2 ^ 56) (halign : addr % 4096 = 0) :
    pageAddr (tableEntry addr) = addr :=
  pageAddr_withPpn (by decide) haddr halign

theorem permsToPteBits_lt (perms : MemPerms) : permsToPteBits perms < 2 ^ 10 := by
  rcases perms with ⟨r, w, x⟩
  revert r w x
  decide

theorem isValid_permsToPteBits (perms : MemPerms) : isValid (permsToPteBits perms) = true := by
  rcases perms with ⟨r, w, x⟩
  revert r w x
  decide

theorem isLeaf_permsToPteBits (h : perms.NonEmpty) : isLeaf (permsToPteBits perms) = true := by
  rcases perms with ⟨r, w, x⟩
  revert r w x
  decide

theorem isValid_leafEntry (perms : MemPerms) (addr : ℕ) : isValid (leafEntry perms addr) = true :=
  (isValid_flags _ _).trans (isValid_permsToPteBits perms)

theorem isLeaf_leafEntry (h : perms.NonEmpty) : isLeaf (leafEntry perms addr) = true :=
  (isLeaf_flags _ _).trans (isLeaf_permsToPteBits h)

theorem pteToPerms_leafEntry : pteToPerms (leafEntry perms addr) = perms := by
  rw [pteToPerms, leafEntry, withPpn, flags_and (by decide), flags_and (by decide),
    flags_and (by decide)]
  rcases perms with ⟨r, w, x⟩
  revert r w x
  decide

theorem isValid_tableEntry : isValid (tableEntry addr) = true := isValid_flags _ _

theorem isLeaf_tableEntry : isLeaf (tableEntry addr) = false := isLeaf_flags _ _

end OpenIon.Arch.Riscv.Sv39
