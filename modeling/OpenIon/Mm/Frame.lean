import OpenIon.Lib.Bitmap
import OpenIon.Lib.Loop
import OpenIon.Mm.Types

/-! # The frame allocator

`FrameAllocator` of `mm/frame.rs` for a `usize` of `w` bits: a bitmap with one bit
for each page, set while the page is free, and a hint where `alloc` starts to look.
-/
namespace OpenIon.Mm
open Lib

def maxPages : ℕ := 32768
def wordBits : ℕ := 32
def bitmapWords : ℕ := maxPages / wordBits

abbrev oneU32 : BitVec wordBits := BitVec.ofNat wordBits 1

/-- `PhysAddr::page_align`. -/
def pageAlign (w addr : ℕ) : ℕ := addr &&& (2 ^ w - 1 - (pageSize - 1))

structure FrameAllocator where
  bitmap : ℕ → BitVec wordBits
  baseAddr : ℕ
  totalPages : ℕ
  freePages : ℕ
  nextWord : ℕ
  nextBit : ℕ

namespace FrameAllocator

def new : FrameAllocator := ⟨fun _ => 0, 0, 0, 0, 0, 0⟩

/-- The turn of the loop of `init` that frees page `i`. -/
def initPage (i : ℕ) (bitmap : ℕ → BitVec wordBits) : ℕ → BitVec wordBits :=
  let word := i / wordBits
  if word < bitmapWords then
    Function.update bitmap word (bitmap word ||| (oneU32 <<< (i % wordBits)))
  else bitmap

def init (w base size : ℕ) : FrameAllocator :=
  let baseAddr := pageAlign w base
  let adjust := baseAddr - base
  let usable := size - adjust
  let totalPages := min (usable / pageSize) maxPages
  { bitmap := forRange totalPages initPage fun _ => 0
    baseAddr := baseAddr
    totalPages := totalPages
    freePages := totalPages
    nextWord := 0
    nextBit := 0 }

/-- The turn of the loop of `alloc` that looks at one word. -/
def scanWord (a : FrameAllocator) (startWord startBit scan : ℕ) : Option ℕ :=
  let wordIdx := (startWord + scan) % bitmapWords
  let loaded := a.bitmap wordIdx
  if loaded = 0 then none
  else
    let word :=
      if scan = 0 ∧ 0 < startBit then loaded &&& ~~~((oneU32 <<< startBit) - oneU32)
      else loaded
    if word = 0 then none
    else
      let bit := word.ctz.toNat
      if wordBits ≤ bit then none
      else
        let pageIdx := wordIdx * wordBits + bit
        if a.totalPages ≤ pageIdx then none
        else if a.bitmap wordIdx &&& (oneU32 <<< bit) = 0 then none
        else some pageIdx

def pageAddr (w : ℕ) (a : FrameAllocator) (pageIdx : ℕ) : ℕ :=
  (a.baseAddr + pageIdx * pageSize) % 2 ^ w

/-- What `alloc` does to the state once it has found a page. -/
def take (a : FrameAllocator) (pageIdx : ℕ) : FrameAllocator :=
  let word := pageIdx / wordBits
  let bit := pageIdx % wordBits
  { a with
    bitmap := Function.update a.bitmap word (a.bitmap word &&& ~~~(oneU32 <<< bit))
    freePages := a.freePages - 1
    nextWord := if wordBits ≤ bit + 1 then (word + 1) % bitmapWords else word
    nextBit := if wordBits ≤ bit + 1 then 0 else bit + 1 }

def alloc (w : ℕ) (a : FrameAllocator) : Option ℕ × FrameAllocator :=
  if a.totalPages = 0 then (none, a)
  else
    let startWord := min a.nextWord (bitmapWords - 1)
    let startBit := min a.nextBit (wordBits - 1)
    match (List.range bitmapWords).findSome? (a.scanWord startWord startBit) with
    | none => (none, a)
    | some pageIdx => (some (a.pageAddr w pageIdx), a.take pageIdx)

/-- What `free` does to the state for a page that was not free. -/
def give (a : FrameAllocator) (pageIdx : ℕ) : FrameAllocator :=
  let word := pageIdx / wordBits
  let bit := pageIdx % wordBits
  let curWord := min a.nextWord (bitmapWords - 1)
  let curBit := min a.nextBit (wordBits - 1)
  let before := word < curWord ∨ word = curWord ∧ bit < curBit
  { a with
    bitmap := Function.update a.bitmap word (a.bitmap word ||| (oneU32 <<< bit))
    freePages := a.freePages + 1
    nextWord := if before then word else a.nextWord
    nextBit := if before then bit else a.nextBit }

def free (w : ℕ) (a : FrameAllocator) (addr : ℕ) : FrameAllocator :=
  let raw := pageAlign w addr
  if raw < a.baseAddr then a
  else
    let pageIdx := (raw - a.baseAddr) / pageSize
    if a.totalPages ≤ pageIdx then a
    else if a.bitmap (pageIdx / wordBits) &&& (oneU32 <<< (pageIdx % wordBits)) = 0 then
      a.give pageIdx
    else a

def isFree (a : FrameAllocator) (pageIdx : ℕ) : Bool := bit a.bitmap pageIdx

end FrameAllocator

end OpenIon.Mm
