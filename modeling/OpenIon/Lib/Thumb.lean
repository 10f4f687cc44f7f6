import Mathlib.Algebra.Group.Nat.Defs
import Mathlib.Data.List.Basic
import Mathlib.Logic.Function.Basic

/-! # A fragment of Thumb assembly

Moves, loads and stores of words, the load and store of several registers, access to the process
stack pointer, and a branch over the instructions that follow it. Code runs until it branches to
the address in a register; code that spins instead has no result. Memory is a function from the
addresses of words to words.
-/
namespace OpenIon.Lib.Thumb

inductive Reg where
  | r0 | r1 | r2 | r3 | r4 | r5 | r6 | r7 | r8 | r9 | r10 | r11 | r12 | lr
  deriving DecidableEq

inductive Instr where
  | mrsPsp (rd : Reg)
  | msrPsp (rs : Reg)
  | msrControl (rs : Reg)
  | cpsie
  | isb
  | lit (rd : Reg) (value : ℕ)
  | movs (rd : Reg) (imm : ℕ)
  | mov (rd rs : Reg)
  | adds (rd rn : Reg) (imm : ℕ)
  | ldr (rd rn : Reg) (offset : ℕ)
  | str (rs rn : Reg)
  | stmdb (rn : Reg) (rs : List Reg)
  | ldmia (rn : Reg) (rs : List Reg)
  | cmpZero (rn : Reg)
  | beq (skip : ℕ)
  | bx (rs : Reg)

structure Machine where
  r : Reg → ℕ
  mem : ℕ → ℕ
  psp : ℕ
  zero : Bool
  control : ℕ
  masked : Bool

def storeWords : ℕ → List ℕ → (ℕ → ℕ) → ℕ → ℕ
  | _, [], mem => mem
  | base, w :: ws, mem => storeWords (base + 4) ws (Function.update mem base w)

def loadRegs (mem : ℕ → ℕ) : ℕ → List Reg → (Reg → ℕ) → Reg → ℕ
  | _, [], r => r
  | base, q :: qs, r => loadRegs mem (base + 4) qs (Function.update r q (mem base))

@[simp]
def Machine.setReg (m : Machine) (q : Reg) (v : ℕ) : Machine :=
  { m with r := Function.update m.r q v }

def word (n : ℕ) : ℕ := n % 2 ^ 32

@[simp]
def Instr.exec (m : Machine) : Instr → Machine
  | mrsPsp rd => m.setReg rd m.psp
  | msrPsp rs => { m with psp := m.r rs }
  | msrControl rs => { m with control := m.r rs }
  | cpsie => { m with masked := false }
  | isb => m
  | lit rd value => m.setReg rd value
  | movs rd imm => { m.setReg rd imm with zero := imm == 0 }
  | mov rd rs => m.setReg rd (m.r rs)
  | adds rd rn imm => { m.setReg rd (word (m.r rn + imm)) with zero := word (m.r rn + imm) == 0 }
  | ldr rd rn offset => m.setReg rd (m.mem (word (m.r rn + offset)))
  | str rs rn => { m with mem := Function.update m.mem (m.r rn) (m.r rs) }
  | stmdb rn rs =>
    let base := word (m.r rn + 2 ^ 32 - 4 * rs.length)
    { m.setReg rn base with mem := storeWords base (rs.map m.r) m.mem }
  | ldmia rn rs =>
    let r := loadRegs m.mem (m.r rn) rs m.r
    { m with r := Function.update r rn (word (m.r rn + 4 * rs.length)) }
  | cmpZero rn => { m with zero := m.r rn == 0 }
  | beq _ => m
  | bx _ => m

/-- How many of the next instructions a branch skips. -/
@[simp]
def Instr.skips (m : Machine) : Instr → ℕ
  | beq skip => if m.zero then skip else 0
  | _ => 0

/-- Where the code goes on if this instruction leaves it. -/
@[simp]
def Instr.leaves (m : Machine) : Instr → Option ℕ
  | bx rs => some (m.r rs)
  | _ => none

/-- The code is executed after `skip` instructions of it. -/
@[simp]
def exec : (skip : ℕ) → List Instr → Machine → Option (Machine × ℕ)
  | _, [], _ => none
  | skip + 1, _ :: is, m => exec skip is m
  | 0, i :: is, m => (i.leaves m).elim (exec (i.skips m) is (i.exec m)) fun pc => some (m, pc)

variable {base a : ℕ} {ws : List ℕ} {mem : ℕ → ℕ}

theorem storeWords_of_ne (h : ∀ k < ws.length, a ≠ base + 4 * k) :
    storeWords base ws mem a = mem a := by
  induction ws generalizing base mem with
  | nil => rfl
  | cons w ws ih =>
    have hhead : a ≠ base := h 0 (Nat.succ_pos _)
    have htail : ∀ k < ws.length, a ≠ base + 4 + 4 * k := by
      intro k hk heq
      exact h (k + 1) (Nat.succ_lt_succ hk) (by omega)
    rw [storeWords, ih htail, Function.update_of_ne hhead]

theorem storeWords_add {k : ℕ} (hk : k < ws.length) :
    storeWords base ws mem (base + 4 * k) = ws[k] := by
  induction ws generalizing base mem k with
  | nil => cases hk
  | cons w ws ih =>
    rw [storeWords]
    cases k with
    | zero =>
      rw [storeWords_of_ne (fun k _ => by omega), Nat.mul_zero, Nat.add_zero, Function.update_self]
      rfl
    | succ k =>
      have haddr : base + 4 * (k + 1) = base + 4 + 4 * k := by omega
      rw [haddr, ih (Nat.lt_of_succ_lt_succ hk)]
      rfl

end OpenIon.Lib.Thumb
