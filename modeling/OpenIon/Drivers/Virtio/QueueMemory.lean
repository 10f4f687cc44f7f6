import OpenIon.Lib.Bitmap
import OpenIon.Lib.Layout

/-! # The queue memory of the VirtIO drivers

`setup_queue` of each driver rounds the address of a static byte array up to a page and places the
rings and the request buffers from there on. The array can be at any address, so the areas are
inside it only if the array is long enough for the rounding.
-/
namespace OpenIon.Drivers.Virtio
open Lib Lib.Shape

/-! ## The rings -/

def virtqDesc : List Shape := [u64, u32, u16, u16]

def virtqAvail (n : ℕ) : List Shape := [u16, u16, array n u16]

def virtqUsedElem : List Shape := [u32, u32]

def virtqUsed (n : ℕ) : List Shape := [u16, u16, array n (struct virtqUsedElem)]

/-- `(base + 4095) & !4095`. -/
def alignPage (w base : ℕ) : ℕ := (base + 4095) % 2 ^ w &&& (2 ^ w - 1 - 4095)

/-- The pointers to a queue with `n` descriptors, and the memory that is cleared for it. -/
structure Queue (n : ℕ) where
  cleared : Area
  desc : ℕ
  avail : ℕ
  used : ℕ

namespace Queue

variable {n : ℕ} (q : Queue n)

def descArea : Area := ⟨q.desc, (array n (struct virtqDesc)).size⟩

def availArea : Area := ⟨q.avail, (struct (virtqAvail n)).size⟩

def usedArea : Area := ⟨q.used, (struct (virtqUsed n)).size⟩

def descFields (i : ℕ) : List Area :=
  [0, 1, 2, 3].map fun f => q.descArea.part ((elem (struct virtqDesc) i).part (field virtqDesc f))

def availIdx : Area := q.availArea.part (field (virtqAvail n) 1)

def availRing (i : ℕ) : Area := q.availArea.part ((field (virtqAvail n) 2).part (elem u16 i))

def usedIdx : Area := q.usedArea.part (field (virtqUsed n) 1)

/-- The length in element `i` of the used ring. -/
def usedRingLen (i : ℕ) : Area :=
  q.usedArea.part ((field (virtqUsed n) 2).part
    ((elem (struct virtqUsedElem) i).part (field virtqUsedElem 1)))

def publish (idx : UInt16) : List Area :=
  [q.availIdx, q.availRing (idx.toNat % n), q.availIdx]

end Queue

/-! ## The drivers -/

namespace Blk

def queueSize : ℕ := 16

def blkRequest : List Shape := [u32, u32, u64, array 512 u8, u8]

structure QueueMem extends Queue queueSize where
  request : ℕ

def QueueMem.requestArea (q : QueueMem) : Area := ⟨q.request, (struct blkRequest).size⟩

def QueueMem.areas (q : QueueMem) : List Area :=
  [q.descArea, q.availArea, q.usedArea, q.requestArea]

def setupQueue (aligned : ℕ) : QueueMem :=
  let requestOff := roundUp (struct (virtqUsed queueSize)).size 8
  { cleared := ⟨aligned, 12288⟩
    desc := aligned
    avail := aligned + queueSize * 16
    used := aligned + 4096
    request := aligned + 4096 + requestOff }

/-- The descriptors that `setup_queue` writes and the areas they give to the device. -/
def descriptors (q : QueueMem) : List Area :=
  q.descFields 0 ++ q.descFields 1 ++ q.descFields 2 ++
    [⟨q.request, 16⟩, ⟨q.request + 16, 512⟩, ⟨q.request + 16 + 512, 1⟩]

/-- The accesses of `read_sector_locked`. -/
def readSector (q : QueueMem) (availIdx : UInt16) : List Area :=
  [0, 1, 2, 4].map (fun f => q.requestArea.part (field blkRequest f)) ++ q.publish availIdx ++
    [q.usedIdx, q.requestArea.part (field blkRequest 4), q.requestArea.part (field blkRequest 3)]

end Blk

namespace Gpu

def controlQueueSize : ℕ := 8

def gpuCtrlHdr : List Shape := [u32, u32, u64, u32, u8, array 3 u8]

def gpuRect : List Shape := [u32, u32, u32, u32]

def gpuDisplayOne : List Shape := [struct gpuRect, u32, u32]

def gpuDisplayInfo : List Shape := [struct gpuCtrlHdr, array 16 (struct gpuDisplayOne)]

def respSize : ℕ := (struct gpuDisplayInfo).size

structure QueueMem extends Queue controlQueueSize where
  request : ℕ
  response : ℕ

def QueueMem.requestArea (q : QueueMem) : Area := ⟨q.request, 256⟩

def QueueMem.responseArea (q : QueueMem) : Area := ⟨q.response, respSize⟩

def QueueMem.areas (q : QueueMem) : List Area :=
  [q.descArea, q.availArea, q.usedArea, q.requestArea, q.responseArea]

def setupQueue (aligned : ℕ) : QueueMem :=
  { cleared := ⟨aligned, 12288⟩
    desc := aligned
    avail := aligned + controlQueueSize * (struct virtqDesc).size
    used := aligned + 4096
    request := aligned + 8192
    response := aligned + 8192 + 256 }

/-- The accesses of `send_command_locked` and the areas that it gives to the device. A command or
a response that is too long is refused. -/
def sendCommand (q : QueueMem) (requestLen responseLen : ℕ) (availIdx : UInt16) : List Area :=
  if requestLen > 256 ∨ responseLen > respSize then []
  else
    [q.requestArea, q.responseArea, ⟨q.request, requestLen⟩] ++
      q.descFields 0 ++ [⟨q.request, requestLen⟩] ++
      q.descFields 1 ++ [⟨q.response, responseLen⟩] ++ q.publish availIdx ++
      [q.usedIdx, q.responseArea.part (field gpuCtrlHdr 0)]

end Gpu

namespace Rng

def queueSize : ℕ := 8

def rngBufSize : ℕ := 256

structure QueueMem extends Queue queueSize where
  entropyBuf : ℕ

def QueueMem.entropyArea (q : QueueMem) : Area := ⟨q.entropyBuf, rngBufSize⟩

def QueueMem.areas (q : QueueMem) : List Area :=
  [q.descArea, q.availArea, q.usedArea, q.entropyArea]

def entropyOff : ℕ := roundUp (struct (virtqUsed queueSize)).size 8

def setupQueue (aligned : ℕ) : QueueMem :=
  { cleared := ⟨aligned, 4096 + entropyOff + rngBufSize⟩
    desc := aligned
    avail := aligned + queueSize * (struct virtqDesc).size
    used := aligned + 4096
    entropyBuf := aligned + 4096 + entropyOff }

def descriptors (q : QueueMem) : List Area := q.descFields 0 ++ [q.entropyArea]

/-- The accesses of `fill_bytes_locked` for a buffer of length `len`, and the area that it gives to
the device, which returns that it used `usedLen` bytes of it. -/
def fillBytes (q : QueueMem) (len usedLen : ℕ) (availIdx last : UInt16) : List Area :=
  let want := min len rngBufSize
  [q.entropyArea] ++ q.descFields 0 ++ [⟨q.entropyBuf, want⟩] ++
    q.publish availIdx ++ [q.usedIdx, q.usedRingLen (last.toNat % queueSize)] ++
    [⟨q.entropyBuf, min usedLen want⟩]

end Rng

inductive VirtioDriver where
  | blk
  | gpu
  | rng
  deriving DecidableEq

namespace VirtioDriver

def bufferSize : VirtioDriver → ℕ
  | blk => 16384
  | gpu => 12288
  | rng => 8192

def cleared (aligned : ℕ) : VirtioDriver → Area
  | blk => (Blk.setupQueue aligned).cleared
  | gpu => (Gpu.setupQueue aligned).cleared
  | rng => (Rng.setupQueue aligned).cleared

def areas (aligned : ℕ) : VirtioDriver → List Area
  | blk => (Blk.setupQueue aligned).areas
  | gpu => (Gpu.setupQueue aligned).areas
  | rng => (Rng.setupQueue aligned).areas

def Uses (aligned : ℕ) (a : Area) : VirtioDriver → Prop
  | blk =>
    let q := Blk.setupQueue aligned
    a ∈ Blk.descriptors q ∨ ∃ availIdx, a ∈ Blk.readSector q availIdx
  | gpu =>
    ∃ requestLen responseLen availIdx,
      a ∈ Gpu.sendCommand (Gpu.setupQueue aligned) requestLen responseLen availIdx
  | rng =>
    let q := Rng.setupQueue aligned
    a ∈ Rng.descriptors q ∨ ∃ len usedLen availIdx last,
      a ∈ Rng.fillBytes q len usedLen availIdx last

end VirtioDriver

/-- The memory of the queue of a driver whose static array is at `base`: all of it is inside the
array, and the areas do not overlap. -/
structure Contained (w : ℕ) (d : VirtioDriver) (base : ℕ) : Prop where
  cleared : (d.cleared (alignPage w base)).Within ⟨base, d.bufferSize⟩
  areas : ∀ a ∈ d.areas (alignPage w base), a.Within ⟨base, d.bufferSize⟩
  apart : (d.areas (alignPage w base)).Pairwise Area.Apart
  uses : ∀ a, d.Uses (alignPage w base) a → ∃ b ∈ d.areas (alignPage w base), a.Within b

/-- What the rounding may skip at the beginning of the array. -/
def VirtioDriver.slack : VirtioDriver → ℕ
  | blk => 4096
  | gpu => 0
  | rng => 3768

/-! ## Accesses -/

namespace Queue

variable {n i : ℕ} (q : Queue n)

theorem descFields_within (hi : i < n) : ∀ a ∈ q.descFields i, a.Within q.descArea := by
  intro a ha
  obtain ⟨f, -, rfl⟩ := List.mem_map.mp ha
  have hfield := field_stop_le virtqDesc (by decide) f
  exact Area.part_within (Nat.le_trans (Area.part_stop_le hfield) (elem_stop_le _ hi))

theorem field_virtqAvail_stop_le (f : ℕ) :
    (field (virtqAvail n) f).stop ≤ (struct (virtqAvail n)).size := by
  apply field_stop_le
  simp [virtqAvail, array, u16]

theorem field_virtqUsed_stop_le (f : ℕ) :
    (field (virtqUsed n) f).stop ≤ (struct (virtqUsed n)).size := by
  apply field_stop_le
  simp [virtqUsed, virtqUsedElem, array, struct, u16, u32]

theorem publish_within (hn : 0 < n) (idx : UInt16) :
    ∀ a ∈ q.publish idx, a.Within q.availArea := by
  have hidx : q.availIdx.Within q.availArea := Area.part_within (field_virtqAvail_stop_le 1)
  have hring : (q.availRing (idx.toNat % n)).Within q.availArea := by
    have helem := elem_stop_le u16 (Nat.mod_lt idx.toNat hn)
    exact Area.part_within (Nat.le_trans (Area.part_stop_le helem) (field_virtqAvail_stop_le 2))
  simp only [publish, List.mem_cons, List.not_mem_nil, or_false]
  rintro a (rfl | rfl | rfl)
  exacts [hidx, hring, hidx]

theorem usedIdx_within : q.usedIdx.Within q.usedArea :=
  Area.part_within (field_virtqUsed_stop_le 1)

theorem usedRingLen_within (hi : i < n) : (q.usedRingLen i).Within q.usedArea := by
  have hfield := field_stop_le virtqUsedElem (by decide) 1
  have helem := Nat.le_trans (Area.part_stop_le hfield) (elem_stop_le (struct virtqUsedElem) hi)
  exact Area.part_within (Nat.le_trans (Area.part_stop_le helem) (field_virtqUsed_stop_le 2))

end Queue

variable {a : Area}

theorem Blk.descriptors_within (q : Blk.QueueMem) (h : a ∈ Blk.descriptors q) :
    ∃ b ∈ q.areas, a.Within b := by
  have hdesc : ∀ i < 16, a ∈ q.descFields i → ∃ b ∈ q.areas, a.Within b :=
    fun i hi h => ⟨_, .head _, q.descFields_within hi a h⟩
  have hrequest : ∀ pos len, pos + len ≤ 536 →
      ∃ b ∈ q.areas, Area.Within ⟨q.request + pos, len⟩ b := by
    intro pos len hlen
    have hin : Area.stop ⟨pos, len⟩ ≤ q.requestArea.len := hlen
    exact ⟨q.requestArea, by simp [Blk.QueueMem.areas], Area.part_within hin⟩
  simp only [Blk.descriptors, List.mem_append, List.mem_cons, List.not_mem_nil, or_false] at h
  rcases h with ((h | h) | h) | rfl | rfl | rfl
  · exact hdesc 0 (by decide) h
  · exact hdesc 1 (by decide) h
  · exact hdesc 2 (by decide) h
  · exact hrequest 0 16 (by decide)
  · exact hrequest 16 512 (by decide)
  · rw [Nat.add_assoc]
    exact hrequest (16 + 512) 1 (by decide)

theorem Blk.readSector_within (q : Blk.QueueMem) {availIdx : UInt16}
    (h : a ∈ Blk.readSector q availIdx) : ∃ b ∈ q.areas, a.Within b := by
  have hrequest : ∀ f, ∃ b ∈ q.areas, (q.requestArea.part (field blkRequest f)).Within b := by
    intro f
    exact ⟨q.requestArea, by simp [Blk.QueueMem.areas],
      Area.part_within (field_stop_le blkRequest (by decide) f)⟩
  simp only [Blk.readSector, List.mem_append, List.mem_map, List.mem_cons, List.not_mem_nil,
    or_false] at h
  rcases h with (⟨f, -, rfl⟩ | h) | rfl | rfl | rfl
  · exact hrequest f
  · exact ⟨q.availArea, by simp [Blk.QueueMem.areas], q.publish_within (by decide) availIdx a h⟩
  · exact ⟨q.usedArea, by simp [Blk.QueueMem.areas], q.usedIdx_within⟩
  · exact hrequest 4
  · exact hrequest 3

theorem Gpu.sendCommand_within (q : Gpu.QueueMem) {requestLen responseLen : ℕ} {availIdx : UInt16}
    (h : a ∈ Gpu.sendCommand q requestLen responseLen availIdx) :
    ∃ b ∈ q.areas, a.Within b := by
  rw [Gpu.sendCommand] at h
  split_ifs at h with hlong
  · cases h
  rw [not_or, Nat.not_lt, Nat.not_lt] at hlong
  have hdesc : ∀ i < 8, a ∈ q.descFields i → ∃ b ∈ q.areas, a.Within b :=
    fun i hi h => ⟨_, .head _, q.descFields_within hi a h⟩
  have hrequest : ∀ n ≤ 256, ∃ b ∈ q.areas, Area.Within ⟨q.request, n⟩ b :=
    fun n hn => ⟨q.requestArea, by simp [Gpu.QueueMem.areas], Area.take_within hn⟩
  have hresponse : ∀ n ≤ respSize, ∃ b ∈ q.areas, Area.Within ⟨q.response, n⟩ b :=
    fun n hn => ⟨q.responseArea, by simp [Gpu.QueueMem.areas], Area.take_within hn⟩
  simp only [List.mem_append, List.mem_cons, List.not_mem_nil, or_false] at h
  rcases h with ((((((rfl | rfl | rfl) | h) | rfl) | h) | rfl) | h) | rfl | rfl
  · exact hrequest 256 (Nat.le_refl _)
  · exact hresponse respSize (Nat.le_refl _)
  · exact hrequest requestLen hlong.1
  · exact hdesc 0 (by decide) h
  · exact hrequest requestLen hlong.1
  · exact hdesc 1 (by decide) h
  · exact hresponse responseLen hlong.2
  · exact ⟨q.availArea, by simp [Gpu.QueueMem.areas], q.publish_within (by decide) availIdx a h⟩
  · exact ⟨q.usedArea, by simp [Gpu.QueueMem.areas], q.usedIdx_within⟩
  · exact hresponse 4 (by decide)

theorem Rng.descriptors_within (q : Rng.QueueMem) (h : a ∈ Rng.descriptors q) :
    ∃ b ∈ q.areas, a.Within b := by
  simp only [Rng.descriptors, List.mem_append, List.mem_cons, List.not_mem_nil, or_false] at h
  rcases h with h | rfl
  · exact ⟨_, .head _, q.descFields_within (by decide) a h⟩
  · exact ⟨q.entropyArea, by simp [Rng.QueueMem.areas], Area.within_refl _⟩

theorem Rng.fillBytes_within (q : Rng.QueueMem) {len usedLen : ℕ} {availIdx last : UInt16}
    (h : a ∈ Rng.fillBytes q len usedLen availIdx last) : ∃ b ∈ q.areas, a.Within b := by
  have hentropy : ∀ n ≤ rngBufSize, ∃ b ∈ q.areas, Area.Within ⟨q.entropyBuf, n⟩ b :=
    fun n hn => ⟨q.entropyArea, by simp [Rng.QueueMem.areas], Area.take_within hn⟩
  have hwant : min len rngBufSize ≤ rngBufSize := Nat.min_le_right _ _
  have hlast : last.toNat % queueSize < queueSize := Nat.mod_lt _ (by decide)
  simp only [Rng.fillBytes, List.mem_append, List.mem_cons, List.not_mem_nil, or_false] at h
  rcases h with ((((rfl | h) | rfl) | h) | rfl | rfl) | rfl
  · exact hentropy rngBufSize (Nat.le_refl _)
  · exact ⟨_, .head _, q.descFields_within (by decide) a h⟩
  · exact hentropy _ hwant
  · exact ⟨q.availArea, by simp [Rng.QueueMem.areas], q.publish_within (by decide) availIdx a h⟩
  · exact ⟨q.usedArea, by simp [Rng.QueueMem.areas], q.usedIdx_within⟩
  · exact ⟨q.usedArea, by simp [Rng.QueueMem.areas], q.usedRingLen_within hlast⟩
  · exact hentropy _ (Nat.le_trans (Nat.min_le_right _ _) hwant)

/-- Commands access the areas of the queue only. -/
theorem VirtioDriver.uses_within (d : VirtioDriver) {aligned : ℕ} (h : d.Uses aligned a) :
    ∃ b ∈ d.areas aligned, a.Within b := by
  cases d with
  | blk =>
    rcases h with h | ⟨availIdx, h⟩
    · exact Blk.descriptors_within _ h
    · exact Blk.readSector_within _ h
  | gpu =>
    obtain ⟨requestLen, responseLen, availIdx, h⟩ := h
    exact Gpu.sendCommand_within _ h
  | rng =>
    rcases h with h | ⟨len, usedLen, availIdx, last, h⟩
    · exact Rng.descriptors_within _ h
    · exact Rng.fillBytes_within _ h

/-! ## The areas -/

theorem areas_blk (aligned : ℕ) : VirtioDriver.blk.areas aligned =
    [⟨aligned, 256⟩, ⟨aligned + 256, 36⟩, ⟨aligned + 4096, 132⟩,
      ⟨aligned + 4096 + 136, 536⟩] := rfl

theorem areas_gpu (aligned : ℕ) : VirtioDriver.gpu.areas aligned =
    [⟨aligned, 128⟩, ⟨aligned + 128, 20⟩, ⟨aligned + 4096, 68⟩, ⟨aligned + 8192, 256⟩,
      ⟨aligned + 8192 + 256, 408⟩] := rfl

theorem areas_rng (aligned : ℕ) : VirtioDriver.rng.areas aligned =
    [⟨aligned, 128⟩, ⟨aligned + 128, 20⟩, ⟨aligned + 4096, 68⟩,
      ⟨aligned + 4096 + 72, 256⟩] := rfl

def VirtioDriver.clearedLen : VirtioDriver → ℕ
  | blk => 12288
  | gpu => 12288
  | rng => 4424

theorem cleared_eq (d : VirtioDriver) (aligned : ℕ) :
    d.cleared aligned = ⟨aligned, d.clearedLen⟩ := by
  cases d <;> rfl

theorem areas_within_cleared (d : VirtioDriver) (aligned : ℕ) :
    ∀ a ∈ d.areas aligned, a.Within (d.cleared aligned) := by
  rw [cleared_eq]
  cases d
  all_goals
    simp only [areas_blk, areas_gpu, areas_rng, List.mem_cons, forall_eq_or_imp, List.not_mem_nil,
      false_imp_iff, implies_true, and_true, Area.Within, Area.stop, VirtioDriver.clearedLen]
    omega

theorem areas_apart (d : VirtioDriver) (aligned : ℕ) :
    (d.areas aligned).Pairwise Area.Apart := by
  cases d
  all_goals
    simp only [areas_blk, areas_gpu, areas_rng, List.pairwise_cons, List.mem_cons,
      forall_eq_or_imp, List.not_mem_nil, false_imp_iff, implies_true, and_true,
      List.Pairwise.nil, Area.Apart, Area.stop]
    omega

def padding (base : ℕ) : ℕ := (base + 4095) / 4096 * 4096 - base

theorem alignPage_eq {w base : ℕ} (hw : 12 ≤ w) (h : base + 4095 < 2 ^ w) :
    alignPage w base = base + padding base := by
  have hmask : base + 4095 &&& (2 ^ w - 1 - (2 ^ 12 - 1)) = _ := and_highMask hw
  rw [show 2 ^ 12 - 1 = 4095 from rfl, Nat.mod_eq_of_lt h] at hmask
  rw [alignPage, Nat.mod_eq_of_lt h, hmask, padding]
  omega

/-- The queue memory is inside the array if and only if the rounding leaves enough of it. -/
theorem queue_memory_contained_iff {w : ℕ} (hw : 12 ≤ w) (d : VirtioDriver) {base : ℕ}
    (h : base + d.bufferSize ≤ 2 ^ w) : Contained w d base ↔ padding base ≤ d.slack := by
  have hsize : 4095 < d.bufferSize ∧ d.slack + d.clearedLen = d.bufferSize := by
    cases d <;> decide
  have hcleared : (d.cleared (alignPage w base)).Within ⟨base, d.bufferSize⟩ ↔
      padding base ≤ d.slack := by
    rw [cleared_eq, alignPage_eq hw (by omega), ← hsize.2]
    simp only [Area.Within, Area.stop]
    omega
  rw [← hcleared]
  refine ⟨Contained.cleared, fun hin => ⟨hin, fun a ha => ?_, areas_apart d _, fun a => ?_⟩⟩
  · exact Area.Within.trans (areas_within_cleared d _ a ha) hin
  · exact d.uses_within

theorem contained_blk_0x1001 : Contained 64 .blk 0x1001 :=
  (queue_memory_contained_iff (by decide) .blk (by decide)).mpr (by decide)

/-- At an address that is only a multiple of 16, the GPU driver clears 4080 bytes behind its
array. -/
theorem gpu_clears_behind_array : ¬Contained 64 .gpu 0x80000010 := by
  intro h
  have hcleared := h.cleared
  revert hcleared
  decide

end OpenIon.Drivers.Virtio
