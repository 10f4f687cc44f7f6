import OpenIon.Mm.FreePages

/-! # The frames that are handed out after boot

`mm::init` of `mm/mod.rs` gives the memory above the kernel to the frame allocator. It looks
at the end of the memory bank only, so the frames lie inside the bank unless the bank begins
above the kernel. Sums that overflow wrap, and it is recorded that they did.
-/
namespace OpenIon.Mm

structure PlatformConfig where
  memoryBase : ℕ
  memorySize : ℕ
  kernelEnd : ℕ

structure MmState where
  initialized : Bool := false
  frames : FrameAllocator := .new

/-- A sum of two words and whether it overflowed. -/
def overflowingAdd (w a b : ℕ) : ℕ × Bool := ((a + b) % 2 ^ w, decide (2 ^ w ≤ a + b))

def overflowingSub (w a b : ℕ) : ℕ × Bool := ((a + 2 ^ w - b) % 2 ^ w, decide (a < b))

/-- `(value + align - 1) & !(align - 1)`. -/
def alignUp (w value align : ℕ) : ℕ × Bool :=
  let sum := overflowingAdd w value align
  let top := overflowingSub w sum.1 1
  (top.1 &&& (2 ^ w - 1 - (align - 1)), sum.2 || top.2)

/-- The state after `init`, and whether the arithmetic overflowed. -/
def MmState.init (w : ℕ) (config : PlatformConfig) (mm : MmState) : MmState × Bool :=
  if mm.initialized then (mm, false)
  else
    let frameStart := alignUp w config.kernelEnd pageSize
    let memEnd := min (config.memoryBase + config.memorySize) (2 ^ w - 1)
    if frameStart.1 < memEnd then
      ({ initialized := true
         frames := FrameAllocator.init w frameStart.1 (memEnd - frameStart.1) }, frameStart.2)
    else ({ mm with initialized := true }, frameStart.2)

namespace FrameAllocator

variable {w : ℕ} {a : FrameAllocator} {F : Finset ℕ}

theorem new_represents : new.Represents ∅ := by
  refine ⟨?_, ?_, Nat.zero_le _, rfl, rfl, show 0 < bitmapWords by decide,
    show 0 < wordBits by decide, ?_⟩
  · intro i
    simp [isFree, Lib.bit, new]
  · intro i hi
    exact absurd hi (Finset.notMem_empty i)
  · intro i hi
    exact absurd hi (Finset.notMem_empty i)

theorem Represents.alloc_after (h : a.Represents F) (hw : 12 ≤ w) {ops : List FrameOp} {addr : ℕ}
    (halloc : ((ops.foldl (FrameAllocator.exec w) a).alloc w).1 = some addr) :
    ∃ m < a.totalPages, addr = a.pageAddr w m := by
  rcases h.execs hw ops with ⟨hrep, hbase, htotal⟩
  rcases hrep.alloc (w := w) with ⟨-, hnone⟩ | ⟨m, hm, -, hsome⟩
  · simp [hnone] at halloc
  · rw [hsome] at halloc
    have hlt := hrep.lt m hm
    rw [htotal] at hlt
    refine ⟨m, hlt, ?_⟩
    rw [← Option.some.inj halloc, pageAddr, pageAddr, hbase]

theorem alloc_init (hw : 12 ≤ w) {base size : ℕ} (hpos : 0 < (init w base size).totalPages) :
    ((init w base size).alloc w).1 = some ((init w base size).pageAddr w 0) := by
  have hzero : 0 ∈ Finset.range (init w base size).totalPages := Finset.mem_range.mpr hpos
  rcases (init_represents hw base size).alloc (w := w) with ⟨hempty, -⟩ | ⟨m, -, hlow, halloc⟩
  · exact absurd (hempty ▸ hzero) (Finset.notMem_empty 0)
  · rw [halloc, Nat.le_zero.mp (hlow 0 hzero)]

end FrameAllocator

variable {w : ℕ} {config : PlatformConfig}

/-- The first page boundary at or above the end of the kernel. -/
def PlatformConfig.firstFrame (config : PlatformConfig) : ℕ :=
  (config.kernelEnd + (pageSize - 1)) / pageSize * pageSize

theorem alignUp_overflows (hw : 13 ≤ w) (value : ℕ) :
    (alignUp w value pageSize).2 = true ↔ 2 ^ w ≤ value + pageSize := by
  have hpow : 2 ^ 13 ≤ 2 ^ w := Nat.pow_le_pow_right (by decide) hw
  change (decide (2 ^ w ≤ value + pageSize) || decide ((value + pageSize) % 2 ^ w < 1)) = true ↔ _
  rw [Bool.or_eq_true, decide_eq_true_eq, decide_eq_true_eq, or_iff_left_of_imp]
  intro hsub
  by_contra hlt
  rw [Nat.mod_eq_of_lt (Nat.lt_of_not_le hlt), pageSize] at hsub
  omega

theorem alignUp_eq (hw : 13 ≤ w) (value : ℕ) (hvalue : value + pageSize < 2 ^ w) :
    (alignUp w value pageSize).1 = (value + (pageSize - 1)) / pageSize * pageSize := by
  have hlt : value + (pageSize - 1) < 2 ^ w :=
    (Nat.add_le_add_left (Nat.sub_le _ _) _).trans_lt hvalue
  have htop : (value + pageSize + 2 ^ w - 1) % 2 ^ w = value + (pageSize - 1) := by
    rw [show value + pageSize + 2 ^ w - 1 = value + (pageSize - 1) + 2 ^ w by rw [pageSize]; omega,
      Nat.add_mod_right, Nat.mod_eq_of_lt hlt]
  change pageAlign w (((value + pageSize) % 2 ^ w + 2 ^ w - 1) % 2 ^ w) = _
  rw [Nat.mod_eq_of_lt hvalue, htop, FrameAllocator.pageAlign_eq (by omega), Nat.mod_eq_of_lt hlt]

/-- What `init` gives to the frame allocator when nothing overflows. -/
theorem init_frames (hw : 13 ≤ w) (hkernel : config.kernelEnd + pageSize < 2 ^ w)
    (hbank : config.memoryBase + config.memorySize < 2 ^ w) :
    (MmState.init w config {}).1.frames =
      if config.firstFrame < config.memoryBase + config.memorySize then
        .init w config.firstFrame (config.memoryBase + config.memorySize - config.firstFrame)
      else .new := by
  have hend : min (config.memoryBase + config.memorySize) (2 ^ w - 1) =
      config.memoryBase + config.memorySize := Nat.min_eq_left (Nat.le_sub_one_of_lt hbank)
  have hstart : (alignUp w config.kernelEnd pageSize).1 = config.firstFrame :=
    alignUp_eq hw config.kernelEnd hkernel
  unfold MmState.init
  rw [if_neg Bool.false_ne_true]
  dsimp only
  rw [hstart, hend]
  split_ifs <;> rfl

theorem kernelEnd_le_firstFrame : config.kernelEnd ≤ config.firstFrame := by
  rw [PlatformConfig.firstFrame, pageSize]
  omega

theorem firstFrame_aligned : config.firstFrame % pageSize = 0 := Nat.mul_mod_left _ _

theorem init_region (hw : 13 ≤ w) {base : ℕ} (hbase : base % pageSize = 0) (hlt : base < 2 ^ w)
    (size : ℕ) :
    (FrameAllocator.init w base size).baseAddr = base ∧
      (FrameAllocator.init w base size).totalPages = min (size / pageSize) maxPages := by
  have halign : pageAlign w base = base := by
    rw [FrameAllocator.pageAlign_eq (by omega), Nat.mod_eq_of_lt hlt]
    exact Nat.div_mul_cancel (Nat.dvd_of_mod_eq_zero hbase)
  exact ⟨halign, FrameAllocator.totalPages_init (by omega) base size⟩

/-- A page in free memory: inside the bank and not below the end of the kernel. -/
structure PlatformConfig.InFreeRam (config : PlatformConfig) (addr : ℕ) : Prop where
  aligned : addr % pageSize = 0
  aboveKernel : config.kernelEnd ≤ addr
  inBank : config.memoryBase ≤ addr ∧ addr + pageSize ≤ config.memoryBase + config.memorySize

theorem init_overflows (hw : 13 ≤ w) :
    (MmState.init w config {}).2 = false ↔ config.kernelEnd + pageSize < 2 ^ w := by
  have hflag : (MmState.init w config {}).2 = (alignUp w config.kernelEnd pageSize).2 := by
    unfold MmState.init
    rw [if_neg Bool.false_ne_true]
    dsimp only
    split_ifs <;> rfl
  rw [hflag, Bool.eq_false_iff, ne_eq, alignUp_overflows hw, Nat.not_le]

section Bounded

variable (hw : 13 ≤ w) (hkernel : config.kernelEnd + pageSize < 2 ^ w)
  (hbank : config.memoryBase + config.memorySize < 2 ^ w)

include hw hkernel hbank

theorem alloc_in_region {ops : List FrameAllocator.FrameOp} {addr : ℕ}
    (halloc : ((ops.foldl (FrameAllocator.exec w) (MmState.init w config {}).1.frames).alloc w).1 =
      some addr) :
    ∃ m, addr = config.firstFrame + m * pageSize ∧
      config.firstFrame + (m + 1) * pageSize ≤ config.memoryBase + config.memorySize := by
  rw [init_frames hw hkernel hbank] at halloc
  split_ifs at halloc with hroom
  · have hrep := FrameAllocator.init_represents (w := w) (by omega) config.firstFrame
      (config.memoryBase + config.memorySize - config.firstFrame)
    rcases hrep.alloc_after (by omega) halloc with ⟨m, hm, rfl⟩
    rcases init_region hw firstFrame_aligned (hroom.trans hbank)
      (config.memoryBase + config.memorySize - config.firstFrame) with ⟨hbase, htotal⟩
    rw [htotal, pageSize] at hm
    have hinside : config.firstFrame + (m + 1) * pageSize ≤
        config.memoryBase + config.memorySize := by
      rw [pageSize]
      omega
    refine ⟨m, ?_, hinside⟩
    rw [FrameAllocator.pageAddr, hbase, Nat.mod_eq_of_lt]
    rw [Nat.succ_mul] at hinside
    rw [pageSize] at *
    omega
  · rcases FrameAllocator.new_represents.alloc_after (by omega) halloc with ⟨m, hm, -⟩
    exact absurd hm (Nat.not_lt_zero m)

theorem first_alloc
    (hroom : config.firstFrame + pageSize ≤ config.memoryBase + config.memorySize) :
    ((MmState.init w config {}).1.frames.alloc w).1 = some config.firstFrame := by
  have hlt : config.firstFrame < config.memoryBase + config.memorySize := by
    rw [pageSize] at hroom
    omega
  rcases init_region hw firstFrame_aligned (hlt.trans hbank)
    (config.memoryBase + config.memorySize - config.firstFrame) with ⟨hbase, htotal⟩
  rw [init_frames hw hkernel hbank, if_pos hlt, FrameAllocator.alloc_init (by omega),
    FrameAllocator.pageAddr, hbase, Nat.zero_mul, Nat.add_zero, Nat.mod_eq_of_lt (hlt.trans hbank)]
  rw [htotal, maxPages, pageSize]
  rw [pageSize] at hroom
  omega

end Bounded

/-- Every page that `alloc_frame` returns after `init` and any calls is in free memory, and nothing
overflows in `init`, exactly if the kernel does not end in the last page of the address space and
the bank does not begin above the first frame with room for one below its end. -/
theorem frames_in_free_ram_iff (hw : w = 32 ∨ w = 64)
    (hbank : config.memoryBase + config.memorySize < 2 ^ w) :
    ((MmState.init w config {}).2 = false ∧
      ∀ (ops : List FrameAllocator.FrameOp) (addr : ℕ),
        ((ops.foldl (FrameAllocator.exec w) (MmState.init w config {}).1.frames).alloc w).1 =
          some addr → config.InFreeRam addr) ↔
    config.kernelEnd + pageSize < 2 ^ w ∧ (config.memoryBase ≤ config.firstFrame ∨
      config.memoryBase + config.memorySize < config.firstFrame + pageSize) := by
  have hw' : 13 ≤ w := by omega
  rw [init_overflows hw']
  refine and_congr_right fun hkernel => ?_
  constructor
  · intro hfree
    by_contra hbad
    rw [not_or, Nat.not_le, Nat.not_lt] at hbad
    have hfirst := (hfree [] _ (first_alloc hw' hkernel hbank hbad.2)).inBank.1
    omega
  · intro hbase ops addr halloc
    rcases alloc_in_region hw' hkernel hbank halloc with ⟨m, rfl, hinside⟩
    have hkernelEnd : config.kernelEnd ≤ config.firstFrame := kernelEnd_le_firstFrame
    have haligned : config.firstFrame % pageSize = 0 := firstFrame_aligned
    rw [pageSize] at *
    constructor
    · rw [pageSize, Nat.add_mul_mod_self_right, haligned]
    · omega
    · rw [pageSize]
      omega

theorem kernel_in_bank_gets_ram :
    (MmState.init 64 ⟨0x80000000, 0x300000, 0x80201234⟩ {}).2 = false ∧
      ∀ (ops : List FrameAllocator.FrameOp) (addr : ℕ),
        ((ops.foldl (FrameAllocator.exec 64)
          (MmState.init 64 ⟨0x80000000, 0x300000, 0x80201234⟩ {}).1.frames).alloc 64).1 = some addr →
        (⟨0x80000000, 0x300000, 0x80201234⟩ : PlatformConfig).InFreeRam addr :=
  (frames_in_free_ram_iff (w := 64) (.inr rfl) (by decide)).mpr (by decide)

/-- With a bank above the kernel the first frame is below the bank, and a kernel that ends in the
last page of the address space makes the sum overflow. -/
theorem bank_above_kernel_is_left :
    let config : PlatformConfig := ⟨0x80203000, 0x1000, 0x80201234⟩
    ((MmState.init 64 config {}).1.frames.alloc 64).1 = some 0x80202000 ∧
      ¬ config.InFreeRam 0x80202000 ∧
      (MmState.init 64 ⟨0x80000000, 0x300000, 2 ^ 64 - 0x1000⟩ {}).2 = true := by
  refine ⟨by decide +kernel, fun h => ?_, by decide +kernel⟩
  exact absurd h.inBank.1 (by decide)

end OpenIon.Mm
