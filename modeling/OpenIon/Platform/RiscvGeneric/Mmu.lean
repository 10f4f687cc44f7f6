import OpenIon.Lib.Bitmap
import OpenIon.Mm.Types
import Mathlib.Tactic.Ring

/-! # Identity mapping of memory regions

`map_identity_region_with` of `platform/riscv-generic/mmu.rs` for a `usize` of `w`
bits. It is generic in the page table; the loops get as fuel a bound on their
number of turns, which the distance of the addresses gives.
-/
namespace OpenIon.Platform.RiscvGeneric
open Mm

variable {σ : Type*}

/-- The methods of the trait `RiscvPageTable` that map, with the allocator in the state. -/
structure RiscvPageTable (σ : Type*) where
  mapPage : σ → ℕ → ℕ → MemPerms → Except MmError Unit × σ
  maxSuperpageSize : ℕ
  mapSuperpage : σ → ℕ → ℕ → ℕ → MemPerms → Except MmError Unit × σ

def saturatingAdd (w a b : ℕ) : ℕ := min (a + b) (2 ^ w - 1)

/-- `value & !(align - 1)`. -/
def alignDown (w value align : ℕ) : ℕ := value &&& (2 ^ w - 1 - (align - 1))

/-- `(value + align - 1) & !(align - 1)`. -/
def alignUp (w value align : ℕ) : ℕ := alignDown w ((value + align - 1) % 2 ^ w) align

def isAligned (value align : ℕ) : Bool := value &&& (align - 1) = 0

/-- The loop of `uniform_region_perms`: the pages up to `stop` have the permissions of the first. -/
def uniformFrom (w : ℕ) (permsFor : ℕ → Option MemPerms) (first : MemPerms) (stop : ℕ) :
    ℕ → ℕ → Bool
  | 0, _ => true
  | fuel + 1, addr =>
    if addr < stop then
      permsFor addr = some first &&
        uniformFrom w permsFor first stop fuel (saturatingAdd w addr pageSize)
    else true

def uniformRegionPerms (w start size : ℕ) (permsFor : ℕ → Option MemPerms) : Option MemPerms :=
  match permsFor start with
  | none => none
  | some first =>
    let stop := saturatingAdd w start size
    if uniformFrom w permsFor first stop size (saturatingAdd w start pageSize) then some first
    else none

/-- The attempt to map a superpage at the address, and whether it succeeded. -/
def trySuperpage (w : ℕ) (T : RiscvPageTable σ) (superpageSize : ℕ)
    (permsFor : ℕ → Option MemPerms) (stop addr : ℕ) (table : σ) : Bool × σ :=
  if superpageSize ≠ 0 ∧ isAligned addr superpageSize ∧
      saturatingAdd w addr superpageSize ≤ stop then
    match uniformRegionPerms w addr superpageSize permsFor with
    | none => (false, table)
    | some perms =>
      match T.mapSuperpage table addr addr superpageSize perms with
      | (.ok _, table) => (true, table)
      | (.error _, table) => (false, table)
  else (false, table)

/-- The loop of `map_identity_region_with`. An error other than `AlreadyMapped` ends it. -/
def mapLoop (w : ℕ) (T : RiscvPageTable σ) (superpageSize : ℕ) (permsFor : ℕ → Option MemPerms)
    (stop : ℕ) : ℕ → ℕ → Bool → σ → Bool × σ
  | 0, _, mappedAny, table => (mappedAny, table)
  | fuel + 1, addr, mappedAny, table =>
    let next := mapLoop w T superpageSize permsFor stop fuel
    if addr < stop then
      match trySuperpage w T superpageSize permsFor stop addr table with
      | (true, table) => next (saturatingAdd w addr superpageSize) true table
      | (false, table) =>
        match permsFor addr with
        | none => next (saturatingAdd w addr pageSize) mappedAny table
        | some perms =>
          match T.mapPage table addr addr perms with
          | (.ok _, table) | (.error .alreadyMapped, table) =>
            next (saturatingAdd w addr pageSize) true table
          | (.error _, table) => (mappedAny, table)
    else (mappedAny, table)

def mapIdentityRegionWith (w : ℕ) (T : RiscvPageTable σ) (table : σ) (base size : ℕ)
    (useSuperpages : Bool) (permsFor : ℕ → Option MemPerms) : Bool × σ :=
  if size = 0 then (false, table)
  else
    let start := alignDown w base pageSize
    let stop := alignUp w (saturatingAdd w base size) pageSize
    let superpageSize := if useSuperpages then T.maxSuperpageSize else 0
    mapLoop w T superpageSize permsFor stop (stop - start) start false table

structure KernelSections where
  textStart : ℕ
  textEnd : ℕ
  rodataStart : ℕ
  rodataEnd : ℕ

def kernelMemoryPerms (w addr : ℕ) (sections : KernelSections) : MemPerms :=
  if addr ≥ alignDown w sections.textStart pageSize ∧
      addr < alignUp w sections.textEnd pageSize then
    ⟨true, false, true⟩
  else if addr ≥ alignDown w sections.rodataStart pageSize ∧
      addr < alignUp w sections.rodataEnd pageSize then
    ⟨true, false, false⟩
  else ⟨true, true, false⟩

/-- The page of one of the stack guards that the scheduler lists. -/
def isStackGuardPage (w : ℕ) (guards : List ℕ) (addr : ℕ) : Bool :=
  guards.any fun guard => addr = alignDown w guard pageSize

def mapMemoryRegion (w : ℕ) (T : RiscvPageTable σ) (guards : List ℕ) (table : σ) (base size : ℕ)
    (sections : KernelSections) : Bool × σ :=
  mapIdentityRegionWith w T table base size true fun addr =>
    if isStackGuardPage w guards addr then none else some (kernelMemoryPerms w addr sections)

theorem kernelMemoryPerms_nonEmpty (w addr : ℕ) (sections : KernelSections) :
    (kernelMemoryPerms w addr sections).NonEmpty := by
  rw [kernelMemoryPerms]
  split
  · rfl
  · split
    · rfl
    · rfl

theorem alignDown_eq {w k value : ℕ} (hk : k ≤ w) (hvalue : value < 2 ^ w) :
    alignDown w value (2 ^ k) = value / 2 ^ k * 2 ^ k := by
  rw [alignDown, Lib.and_highMask hk, Nat.mod_eq_of_lt hvalue]

theorem saturatingAdd_eq {w a b : ℕ} (h : a + b < 2 ^ w) : saturatingAdd w a b = a + b :=
  min_eq_left (Nat.le_sub_one_of_lt h)

theorem alignUp_eq {w k value : ℕ} (hk : k ≤ w) (h : value + 2 ^ k - 1 < 2 ^ w) :
    alignUp w value (2 ^ k) = (value + 2 ^ k - 1) / 2 ^ k * 2 ^ k := by
  rw [alignUp, Nat.mod_eq_of_lt h, alignDown_eq hk h]

theorem uniformFrom_eq_true_iff {w stop : ℕ} {permsFor : ℕ → Option MemPerms} {first : MemPerms}
    (hstop : stop + pageSize < 2 ^ w) (fuel addr : ℕ) (hfuel : stop - addr ≤ fuel) :
    uniformFrom w permsFor first stop fuel addr = true ↔
      ∀ k, addr + pageSize * k < stop → permsFor (addr + pageSize * k) = some first := by
  induction fuel generalizing addr with
  | zero => exact iff_of_true rfl fun k hk => by omega
  | succ fuel ih =>
    rw [uniformFrom]
    split
    next hlt =>
      have hnext : ∀ k, addr + pageSize + pageSize * k = addr + pageSize * (k + 1) := by
        intro k
        ring
      rw [Bool.and_eq_true, decide_eq_true_eq, saturatingAdd_eq (by omega),
        ih _ (by simp only [pageSize]; omega)]
      simp only [hnext]
      constructor
      · rintro ⟨hfirst, hrest⟩ k hk
        cases k with
        | zero => exact hfirst
        | succ k => exact hrest k hk
      · exact fun h => ⟨h 0 hlt, fun k hk => h (k + 1) hk⟩
    next hge => exact iff_of_true rfl fun k hk => by omega

theorem uniformRegionPerms_eq_some_iff {w start size : ℕ} {permsFor : ℕ → Option MemPerms}
    {perms : MemPerms} (hsize : start + size + pageSize < 2 ^ w) (hpos : 0 < size) :
    uniformRegionPerms w start size permsFor = some perms ↔
      ∀ k, pageSize * k < size → permsFor (start + pageSize * k) = some perms := by
  have hpages : ∀ first, uniformFrom w permsFor first (saturatingAdd w start size) size
      (saturatingAdd w start pageSize) = true ↔
        ∀ k, pageSize * (k + 1) < size → permsFor (start + pageSize * (k + 1)) = some first := by
    intro first
    rw [saturatingAdd_eq (by omega), saturatingAdd_eq (by omega),
      uniformFrom_eq_true_iff hsize size _ (by omega)]
    refine forall_congr' fun k => ?_
    rw [show start + pageSize + pageSize * k = start + pageSize * (k + 1) by ring,
      Nat.add_lt_add_iff_left]
  rw [uniformRegionPerms]
  constructor
  · intro h k hk
    cases hfirst : permsFor start with
    | none => simp [hfirst] at h
    | some first =>
      simp only [hfirst, Option.ite_none_right_eq_some, Option.some.injEq] at h
      rcases h with ⟨huniform, rfl⟩
      cases k with
      | zero => exact hfirst
      | succ k => exact (hpages first).mp huniform k hk
  · intro h
    have hfirst : permsFor start = some perms := h 0 hpos
    simp only [hfirst]
    exact if_pos ((hpages perms).mpr fun k hk => h (k + 1) hk)

end OpenIon.Platform.RiscvGeneric
