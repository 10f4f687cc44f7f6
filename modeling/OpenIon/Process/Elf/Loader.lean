import OpenIon.Lib.Fallible
import OpenIon.Lib.Layout
import OpenIon.Lib.Memory

/-! # The ELF loader

`loadElf` checks the header of an ELF file in memory and copies its load segments to their physical
addresses. The file is in the same memory as the segments, so a segment may be copied over it. The
state of a run has the memory and a record of the areas that the run read and wrote.
-/
namespace OpenIon.Process.Elf

open Lib Lib.Fallible

/-- The width of `usize`, and whether the build checks its sums. -/
structure Target where
  bits : ℕ
  overflowChecks : Bool
  wide : 16 ≤ bits

/-- Why the loader stops: an error that it returns or a failed overflow check. -/
inductive Stop where
  | panic
  | error (msg : String)
  deriving DecidableEq

/-- The fields of `Elf64Ehdr` that the loader uses. -/
structure Elf64Ehdr where
  eType : ℕ
  eEntry : ℕ
  ePhoff : ℕ
  ePhentsize : ℕ
  ePhnum : ℕ
  deriving DecidableEq

/-- The fields of `Elf64Phdr` that the loader uses. -/
structure Elf64Phdr where
  pType : ℕ
  pOffset : ℕ
  pPaddr : ℕ
  pFilesz : ℕ
  pMemsz : ℕ
  deriving DecidableEq

/-- A load segment as `load_elf` handles it, with numbers of type `usize`. -/
structure Segment where
  fileOffset : ℕ
  memAddr : ℕ
  fileSize : ℕ
  memSize : ℕ
  deriving DecidableEq

structure ElfLoadResult where
  entryPoint : ℕ
  loadBase : ℕ
  loadSize : ℕ
  deriving DecidableEq

structure Loading where
  mem : ℕ → UInt8
  loadBase : ℕ
  loadEnd : ℕ
  /-- A sum did not fit in `usize`. -/
  overflowed : Bool
  reads : List Area
  writes : List Area

abbrev Loader (α : Type) : Type := Fallible Loading Stop α

namespace Target

variable (T : Target)

def size : ℕ := 2 ^ T.bits

def asUsize (n : ℕ) : ℕ := n % T.size

/-- Addresses wrap around at the end of the address space. -/
def load (mem : ℕ → UInt8) (pos n : ℕ) : List UInt8 :=
  Memory.load (fun k => mem (k % T.size)) pos n

def store (mem : ℕ → UInt8) (pos : ℕ) (bytes : List UInt8) : ℕ → UInt8 := fun k =>
  bytes.getD ((k + T.size - pos % T.size) % T.size) (mem k)

/-- The result of a sum or product: a value that does not fit panics or wraps. -/
def checked (n : ℕ) : Loader ℕ :=
  if n < T.size then pure n
  else do
    update fun s => { s with overflowed := true }
    if T.overflowChecks then stop .panic else pure (n % T.size)

end Target

/-- The bytes of a slice: not at address zero, and all in the address space. -/
structure Slice (T : Target) extends Area where
  pos : 0 < start
  fits : start + len ≤ T.size

/-! The two headers are packed records, so their fields follow each other without gaps. -/

def ehdrFields : List Shape := Shape.packed
  [.array 16 .u8, .u16, .u16, .u32, .u64, .u64, .u64, .u32, .u16, .u16, .u16, .u16, .u16, .u16]

def phdrFields : List Shape := Shape.packed [.u32, .u32, .u64, .u64, .u64, .u64, .u64, .u64]

def ehdrSize : ℕ := (Shape.struct ehdrFields).size

def phdrSize : ℕ := (Shape.struct phdrFields).size

def elfMagic : List UInt8 := [0x7f, 0x45, 0x4c, 0x46]

def ptLoad : ℕ := 1

def etExec : ℕ := 2

section

variable (T : Target)

def fieldAt (mem : ℕ → UInt8) (pos : ℕ) (fields : List Shape) (i : ℕ) : ℕ :=
  Memory.leNat (T.load mem (pos + (Shape.field fields i).start) (Shape.field fields i).len)

def ehdrAt (mem : ℕ → UInt8) (pos : ℕ) : Elf64Ehdr where
  eType := fieldAt T mem pos ehdrFields 1
  eEntry := fieldAt T mem pos ehdrFields 4
  ePhoff := fieldAt T mem pos ehdrFields 5
  ePhentsize := fieldAt T mem pos ehdrFields 9
  ePhnum := fieldAt T mem pos ehdrFields 10

def phdrAt (mem : ℕ → UInt8) (pos : ℕ) : Elf64Phdr where
  pType := fieldAt T mem pos phdrFields 0
  pOffset := fieldAt T mem pos phdrFields 2
  pPaddr := fieldAt T mem pos phdrFields 4
  pFilesz := fieldAt T mem pos phdrFields 5
  pMemsz := fieldAt T mem pos phdrFields 6

def segmentOf (phdr : Elf64Phdr) : Segment where
  fileOffset := T.asUsize phdr.pOffset
  memAddr := T.asUsize phdr.pPaddr
  fileSize := T.asUsize phdr.pFilesz
  memSize := T.asUsize phdr.pMemsz

def readBytes (pos n : ℕ) : Loader (List UInt8) := fun s =>
  (.ok (T.load s.mem pos n), { s with reads := s.reads ++ [⟨pos, n⟩] })

/-- A reference to a header covers all its bytes. -/
def readEhdr (pos : ℕ) : Loader Elf64Ehdr := fun s =>
  (.ok (ehdrAt T s.mem pos), { s with reads := s.reads ++ [⟨pos, ehdrSize⟩] })

def readPhdr (pos : ℕ) : Loader Elf64Phdr := fun s =>
  (.ok (phdrAt T s.mem pos), { s with reads := s.reads ++ [⟨pos, phdrSize⟩] })

def copyNonoverlapping (src dst count : ℕ) : Loader Unit := update fun s =>
  { s with
    mem := T.store s.mem dst (T.load s.mem src count)
    reads := s.reads ++ [⟨src, count⟩]
    writes := s.writes ++ [⟨dst, count⟩] }

def writeBytes (dst : ℕ) (val : UInt8) (count : ℕ) : Loader Unit := update fun s =>
  { s with
    mem := T.store s.mem dst (List.replicate count val)
    writes := s.writes ++ [⟨dst, count⟩] }

def zeroBss (seg : Segment) : Loader Unit :=
  if seg.fileSize < seg.memSize then
    writeBytes T (seg.memAddr + seg.fileSize) 0 (seg.memSize - seg.fileSize)
  else pure ()

variable {T} (data : Slice T)

def validateElf : Loader Unit :=
  if data.len < ehdrSize then stop (.error "Too small for ELF header")
  else do
    let magic ← readBytes T data.start 4
    if magic ≠ elfMagic then stop (.error "Bad ELF magic")
    else do
      let cls ← readBytes T (data.start + 4) 1
      if cls ≠ [2] then stop (.error "Not ELF64")
      else do
        let encoding ← readBytes T (data.start + 5) 1
        if encoding ≠ [1] then stop (.error "Not little-endian") else pure ()

/-- The part of a turn after the test for `PT_LOAD`. -/
def loadSegment (seg : Segment) : Loader Unit := do
  let fileEnd ← T.checked (seg.fileOffset + seg.fileSize)
  if data.len < fileEnd then stop (.error "Segment data out of bounds")
  else do
    copyNonoverlapping T (data.start + seg.fileOffset) seg.memAddr seg.fileSize
    zeroBss T seg
    update fun s => if seg.memAddr < s.loadBase then { s with loadBase := seg.memAddr } else s
    let memEnd ← T.checked (seg.memAddr + seg.memSize)
    update fun s => if s.loadEnd < memEnd then { s with loadEnd := memEnd } else s

/-- A turn of the loop over the program headers. -/
def loadHeader (phoff phentsize i : ℕ) : Loader Unit := do
  let skipped ← T.checked (i * phentsize)
  let offset ← T.checked (phoff + skipped)
  let stop ← T.checked (offset + phdrSize)
  if data.len < stop then Fallible.stop (.error "Program header out of bounds")
  else do
    let phdr ← readPhdr T (data.start + offset)
    if phdr.pType ≠ ptLoad then pure () else loadSegment data (segmentOf T phdr)

def loadElf : Loader ElfLoadResult := do
  validateElf data
  let ehdr ← readEhdr T data.start
  if ehdr.eType ≠ etExec then stop (.error "Not an executable ELF")
  else do
    update fun s => { s with loadBase := T.size - 1, loadEnd := 0 }
    forRange (T.asUsize ehdr.ePhnum)
      (loadHeader data (T.asUsize ehdr.ePhoff) (T.asUsize ehdr.ePhentsize))
    let s ← get
    if s.loadEnd ≤ s.loadBase then stop (.error "No LOAD segments found")
    else pure ⟨T.asUsize ehdr.eEntry, s.loadBase, s.loadEnd - s.loadBase⟩

end

def Loading.start (mem : ℕ → UInt8) : Loading := ⟨mem, 0, 0, false, [], []⟩

/-! Small files at address 4096, their headers from byte 64 on. -/

def checked64 : Target := ⟨64, true, Nat.le_of_ble_eq_true rfl⟩

def word (n : UInt8) : List UInt8 := n :: List.replicate 7 0

def ehdrBytes (phnum : UInt8) : List UInt8 :=
  elfMagic ++ [2, 1, 1] ++ List.replicate 9 0 ++ [2, 0, 243, 0, 1, 0, 0, 0] ++ word 16 ++ word 64 ++
    word 0 ++ [0, 0, 0, 0, 64, 0, 56, 0, phnum, 0, 0, 0, 0, 0, 0, 0]

def phdrBytes (type offset paddr filesz memsz : UInt8) : List UInt8 :=
  [type, 0, 0, 0, 0, 0, 0, 0] ++ word offset ++ word 0 ++ word paddr ++ word filesz ++ word memsz ++
    word 0

theorem small_fits (n : UInt8) : 4096 + (64 + 56 * n.toNat) ≤ checked64.size := by
  have hn := n.toNat_lt
  have hsize : checked64.size = 2 ^ 64 := rfl
  omega

def smallSlice (phnum : UInt8) : Slice checked64 :=
  ⟨⟨4096, 64 + 56 * phnum.toNat⟩, Nat.succ_pos _, small_fits phnum⟩

def smallMemory (bytes : List UInt8) : ℕ → UInt8 := Memory.store (fun _ => 0) 4096 bytes

end OpenIon.Process.Elf
