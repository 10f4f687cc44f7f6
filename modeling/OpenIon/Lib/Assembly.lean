import Mathlib.Algebra.Group.Nat.Defs
import Mathlib.Data.Fin.Basic
import Mathlib.Data.List.Basic
import Mathlib.Logic.Function.Basic

/-! # A fragment of RISC-V assembly

Moves, loads and stores of words at slots above a base register, the two registers that a
trap is entered and left with, and a branch over the instructions that follow it. Memory is
a function from the addresses of words to words of `bytes` bytes. Register `x0` is not used.
-/
namespace OpenIon.Lib.Asm

abbrev Reg := Fin 32

inductive Instr where
  | addi (rd rs : Reg) (imm : ℤ)
  | mv (rd rs : Reg)
  | la (rd : Reg) (addr : ℕ)
  | store (rs : Reg) (slot : ℕ) (base : Reg)
  | load (rd : Reg) (slot : ℕ) (base : Reg)
  | readStatus (rd : Reg)
  | writeStatus (rs : Reg)
  | readEpc (rd : Reg)
  | writeEpc (rs : Reg)
  | beq (rs rt : Reg) (skip : ℕ)

structure Machine where
  x : Reg → ℕ
  mem : ℕ → ℕ
  status : ℕ
  epc : ℕ

section Exec

variable (bytes : ℕ)

def slotAddr (base slot : ℕ) : ℕ := (base + slot * bytes) % 2 ^ (8 * bytes)

def Machine.setReg (m : Machine) (r : Reg) (v : ℕ) : Machine := { m with x := Function.update m.x r v }

def Instr.exec (m : Machine) : Instr → Machine
  | addi rd rs imm => m.setReg rd (((m.x rs : ℤ) + imm) % (2 ^ (8 * bytes) : ℕ)).toNat
  | mv rd rs => m.setReg rd (m.x rs)
  | la rd addr => m.setReg rd addr
  | store rs slot base =>
    { m with mem := Function.update m.mem (slotAddr bytes (m.x base) slot) (m.x rs) }
  | load rd slot base => m.setReg rd (m.mem (slotAddr bytes (m.x base) slot))
  | readStatus rd => m.setReg rd m.status
  | writeStatus rs => { m with status := m.x rs }
  | readEpc rd => m.setReg rd m.epc
  | writeEpc rs => { m with epc := m.x rs }
  | beq _ _ _ => m

/-- How many of the next instructions a branch skips. -/
def Instr.skips (m : Machine) : Instr → ℕ
  | beq rs rt skip => if m.x rs = m.x rt then skip else 0
  | _ => 0

/-- The code is executed after `skip` instructions of it. -/
def exec : (skip : ℕ) → List Instr → Machine → Machine
  | _, [], m => m
  | skip + 1, _ :: is, m => exec skip is m
  | 0, i :: is, m => exec (i.skips m) is (i.exec bytes m)

section Slots

variable (slot : Reg → ℕ) (base : ℕ)

def saveRegs (x : Reg → ℕ) : List Reg → (ℕ → ℕ) → ℕ → ℕ
  | [], mem => mem
  | r :: rs, mem => saveRegs x rs (Function.update mem (slotAddr bytes base (slot r)) (x r))

def restoreRegs (mem : ℕ → ℕ) (rs : List Reg) (x : Reg → ℕ) (r : Reg) : ℕ :=
  if r ∈ rs then mem (slotAddr bytes base (slot r)) else x r

end Slots
end Exec

variable {bytes : ℕ} {m : Machine} {slot : Reg → ℕ} {base : Reg} {rs : List Reg} {is : List Instr}

theorem toNat_add_emod {a k n : ℕ} (h : a + k < n) : (((a : ℤ) + k) % (n : ℕ)).toNat = a + k := by
  rw [Int.emod_eq_of_lt (by omega) (by omega)]
  omega

theorem toNat_sub_emod {a k n : ℕ} (hk : k ≤ a) (ha : a < n) :
    (((a : ℤ) + -(k : ℤ)) % (n : ℕ)).toNat = a - k := by
  rw [Int.emod_eq_of_lt (by omega) (by omega)]
  omega

theorem slotAddr_eq {b k : ℕ} (h : b + k * bytes < 2 ^ (8 * bytes)) :
    slotAddr bytes b k = b + k * bytes := Nat.mod_eq_of_lt h

theorem exec_saves (rs : List Reg) (m : Machine) :
    exec bytes 0 (rs.map (fun r => Instr.store r (slot r) base) ++ is) m =
      exec bytes 0 is { m with mem := saveRegs bytes slot (m.x base) m.x rs m.mem } := by
  induction rs generalizing m with
  | nil => rfl
  | cons r rs ih => exact ih _

/-- Loads into registers other than the base do not move the base. -/
theorem exec_restores (rs : List Reg) (m : Machine) (hbase : base ∉ rs) :
    exec bytes 0 (rs.map (fun r => Instr.load r (slot r) base) ++ is) m =
      exec bytes 0 is { m with x := restoreRegs bytes slot (m.x base) m.mem rs m.x } := by
  induction rs generalizing m with
  | nil => rfl
  | cons r rs ih =>
    rw [List.mem_cons, not_or] at hbase
    rw [List.map_cons, List.cons_append, exec]
    refine (ih _ hbase.2).trans ?_
    congr 2
    funext q
    simp only [Instr.exec, Machine.setReg, Function.update_of_ne hbase.1, restoreRegs]
    by_cases hq : q ∈ rs
    · simp [hq]
    · by_cases hqr : q = r
      · simp [hqr]
      · simp [hq, hqr]

theorem saveRegs_congr {b : ℕ} {x y : Reg → ℕ} {mem : ℕ → ℕ} (h : ∀ r ∈ rs, x r = y r) :
    saveRegs bytes slot b x rs mem = saveRegs bytes slot b y rs mem := by
  induction rs generalizing mem with
  | nil => rfl
  | cons r rs ih =>
    rw [saveRegs, saveRegs, h r List.mem_cons_self, ih fun q hq => h q (List.mem_cons_of_mem r hq)]

theorem saveRegs_of_ne {b a : ℕ} {x : Reg → ℕ} {mem : ℕ → ℕ}
    (h : ∀ r ∈ rs, a ≠ slotAddr bytes b (slot r)) : saveRegs bytes slot b x rs mem a = mem a := by
  induction rs generalizing mem with
  | nil => rfl
  | cons r rs ih =>
    rw [saveRegs, ih fun q hq => h q (List.mem_cons_of_mem r hq),
      Function.update_of_ne (h r List.mem_cons_self)]

/-- A register is found in its slot if no other one shares it. -/
theorem saveRegs_of_mem {b : ℕ} {x : Reg → ℕ} {mem : ℕ → ℕ} {r : Reg}
    (hinj : ∀ q ∈ rs, slotAddr bytes b (slot r) = slotAddr bytes b (slot q) → r = q)
    (hr : r ∈ rs) : saveRegs bytes slot b x rs mem (slotAddr bytes b (slot r)) = x r := by
  induction rs generalizing mem with
  | nil => cases hr
  | cons q rs ih =>
    have hinj' := fun q' hq' => hinj q' (List.mem_cons_of_mem q hq')
    rw [saveRegs]
    by_cases hrs : r ∈ rs
    · exact ih hinj' hrs
    · have hq : r = q := (List.mem_cons.mp hr).resolve_right hrs
      subst hq
      rw [saveRegs_of_ne, Function.update_self]
      intro q' hq' heq
      exact hrs (hinj' q' hq' heq ▸ hq')

end OpenIon.Lib.Asm
