import OpenIon.Arch.Riscv.Sv39.View
import OpenIon.Lib.Run

/-! # Sv39 page tables refine a map of addresses

Runs of mapping and unmapping operations from a zeroed root. In every state that
such a run reaches, every further operation acts on the map of addresses as it
should, whether it succeeds or fails.
-/
namespace OpenIon.Arch.Riscv.Sv39
open Mm Lib

inductive Op where
  | mapPage (vaddr paddr : ℕ) (perms : MemPerms)
  | mapSuperpage (vaddr paddr : ℕ) (perms : MemPerms)
  | unmapPage (vaddr : ℕ)

namespace Op

def InRange : Op → Prop
  | mapPage vaddr paddr perms | mapSuperpage vaddr paddr perms =>
    vaddr < 2 ^ 39 ∧ paddr < 2 ^ 56 ∧ perms.NonEmpty
  | unmapPage vaddr => vaddr < 2 ^ 39

instance : (op : Op) → Decidable op.InRange
  | mapPage vaddr paddr perms | mapSuperpage vaddr paddr perms =>
    inferInstanceAs (Decidable (vaddr < 2 ^ 39 ∧ paddr < 2 ^ 56 ∧ perms.NonEmpty))
  | unmapPage vaddr => inferInstanceAs (Decidable (vaddr < 2 ^ 39))

def exec (root : ℕ) (m : Memory) : Op → Memory
  | mapPage vaddr paddr perms => (Sv39.mapPage root m vaddr paddr perms).2
  | mapSuperpage vaddr paddr perms => (Sv39.mapSuperpage root m vaddr paddr superpageSize perms).2
  | unmapPage vaddr => (Sv39.unmapPage root m vaddr).2

end Op

def step (root : ℕ) (m : Memory) (op : Op) : Option Memory :=
  if op.InRange then some (op.exec root m) else none

/-- What each operation does to the map of addresses. A failed operation changes nothing, and
`map_page` reports `AlreadyMapped` exactly for aligned addresses of which the virtual one is
mapped. -/
def Correct (root : ℕ) (m : Memory) : Op → Prop
  | .mapPage v p perms =>
    match Sv39.mapPage root m v p perms with
    | (.ok _, m') => MapsBlock root m m' v p pageSize perms ∧
        ¬ (v % pageSize = 0 ∧ p % pageSize = 0 ∧ (translate root m v).isSome = true)
    | (.error err, m') => KeepsView root m m' ∧ (err = .alreadyMapped ↔
        v % pageSize = 0 ∧ p % pageSize = 0 ∧ (translate root m v).isSome = true)
  | .mapSuperpage v p perms =>
    match Sv39.mapSuperpage root m v p superpageSize perms with
    | (.ok _, m') => MapsBlock root m m' v p superpageSize perms
    | (.error _, m') => KeepsView root m m'
  | .unmapPage v =>
    match Sv39.unmapPage root m v with
    | (.ok p, m') => translate root m v = some p ∧ UnmapsPage root m m' v
    | (.error _, m') => KeepsView root m m'

variable {root : ℕ} {m m' : Memory} {op : Op}

theorem WellFormed.exec (h : WellFormed root m) (hop : op.InRange) :
    WellFormed root (op.exec root m) := by
  cases op with
  | mapPage v p perms =>
    rcases h.mapPage perms hop.1 hop.2.1 with ⟨r, m', heq, hwf, -⟩
    rwa [Op.exec, heq]
  | mapSuperpage v p perms =>
    rcases h.mapSuperpage hop.1 hop.2.1 hop.2.2 with ⟨r, m', heq, hwf, -⟩
    rwa [Op.exec, heq]
  | unmapPage v =>
    rcases h.unmapPage_spec hop with ⟨r, m', heq, hwf, -⟩
    rwa [Op.exec, heq]

theorem WellFormed.correct (h : WellFormed root m) (hop : op.InRange) : Correct root m op := by
  cases op with
  | mapPage v p perms =>
    rcases h.mapPage perms hop.1 hop.2.1 with ⟨r, m', heq, -, -, hr⟩
    rw [Correct, heq]
    cases r with
    | ok _ => exact ⟨hr.2.2.2, by simp [hr.2.2.1]⟩
    | error err =>
      refine ⟨hr.1, ?_⟩
      rcases hr.2 with ⟨rfl, halign⟩ | ⟨rfl, hmapped⟩ | ⟨rfl, -, hnone⟩
      · exact ⟨(by simp), fun hall => absurd ⟨hall.1, hall.2.1⟩ halign⟩
      · exact ⟨fun _ => hmapped, fun _ => rfl⟩
      · simp [hnone]
  | mapSuperpage v p perms =>
    rcases h.mapSuperpage hop.1 hop.2.1 hop.2.2 with ⟨r, m', heq, -, -, hr⟩
    rw [Correct, heq]
    cases r with
    | ok _ => exact hr.2.2
    | error err => exact hr
  | unmapPage v =>
    rcases h.unmapPage_spec hop with ⟨r, m', heq, -, hr⟩
    rw [Correct, heq]
    cases r with
    | ok p => exact hr
    | error err => exact hr

theorem wellFormed_of_zero (hroot : root % 4096 = 0) (hzero : ∀ idx, m.entry root idx = 0)
    (hframes : Supply {root} m) : WellFormed root m :=
  paging.wellFormed_of_empty hroot hzero hframes hframes.page

/-- After any run of operations from a zeroed root, every operation is correct. -/
theorem operations_refine_map (root : ℕ) (m : Memory) (hroot : root % pageSize = 0)
    (hzero : ∀ idx, m.entry root idx = 0) (hframes : Supply {root} m) (ops : List Op) (m' : Memory)
    (hrun : run (step root) m ops = some m') (op : Op) (hop : op.InRange) : Correct root m' op := by
  have hwf : WellFormed root m' := by
    apply run_preserves _ (wellFormed_of_zero hroot hzero hframes) hrun
    intro m op m' h hstep
    rw [step, Option.ite_none_right_eq_some] at hstep
    rcases hstep with ⟨hop, hm⟩
    cases hm
    exact h.exec hop
  exact hwf.correct hop

def twoFrames : Memory where
  words _ := 0
  frames n := [8192, 12288][n]?
  requests := 0

theorem twoFrames_supply : Supply {4096} twoFrames := by
  have hcases : ∀ n f, twoFrames.frames n = some f → (n = 0 ∧ f = 8192) ∨ (n = 1 ∧ f = 12288) := by
    intro n f hf
    match n with
    | 0 => exact .inl ⟨rfl, (Option.some.inj hf).symm⟩
    | 1 => exact .inr ⟨rfl, (Option.some.inj hf).symm⟩
    | n + 2 => simp [twoFrames] at hf
  constructor
  · intro n f _ hf
    rcases hcases n f hf with ⟨-, rfl⟩ | ⟨-, rfl⟩
    · decide
    · decide
  · rintro n f _ hf rfl
    rcases hcases n 4096 hf with ⟨-, h⟩ | ⟨-, h⟩
    · simp at h
    · simp at h
  · intro n k f _ _ hn hk
    rcases hcases n f hn with ⟨rfl, rfl⟩ | ⟨rfl, rfl⟩ <;> rcases hcases k _ hk with ⟨rfl, h⟩ | ⟨rfl, h⟩
    · rfl
    · simp at h
    · simp at h
    · rfl

theorem twoFrames_not_refused (h : m.requests ≤ 2) : ¬ Refused twoFrames m := by
  rintro ⟨n, -, hlt, hnone⟩
  have hn : n < 2 := by omega
  simp [twoFrames, hn] at hnone

/-- The first page is mapped, which takes both frames; then operations on it and on a page that
needs another table are correct. -/
theorem first_page_operations_correct :
    ∃ m', run (step 4096) twoFrames [.mapPage 0 0x80000000 ⟨true, true, false⟩] = some m' ∧
      translate 4096 m' 5 = some 0x80000005 ∧ Correct 4096 m' (.unmapPage 0) ∧
      Correct 4096 m' (.mapPage 0 0x80001000 ⟨true, false, false⟩) ∧
      Correct 4096 m' (.mapPage 0x40000000 0x80001000 ⟨true, false, false⟩) := by
  have hrun : run (step 4096) twoFrames [.mapPage 0 0x80000000 ⟨true, true, false⟩] =
      some (Op.exec 4096 twoFrames (.mapPage 0 0x80000000 ⟨true, true, false⟩)) := rfl
  have hcorrect := operations_refine_map 4096 twoFrames rfl (fun _ => rfl) twoFrames_supply _ _ hrun
  exact ⟨_, hrun, by decide +kernel, hcorrect _ (by decide), hcorrect _ (by decide),
    hcorrect _ (by decide)⟩

end OpenIon.Arch.Riscv.Sv39
