import OpenIon.Arch.Riscv.Sv39.Entry

/-! # Sv39 page tables

The operations of `Sv39PageTable` in `arch/riscv/sv39.rs` on a memory of 64-bit
words. A table is a page of 512 entries, and the frames for new tables come from an
allocator that may run out.
-/
namespace OpenIon.Arch.Riscv.Sv39
open Mm

def ptEntries : ℕ := 512

def superpageSize : ℕ := 2 * 1024 * 1024

abbrev Index := Fin ptEntries

/-- The words of the memory, by their addresses, the answers of the allocator to the requests for a
frame, and how many requests there have been. -/
structure Memory where
  words : ℕ → ℕ
  frames : ℕ → Option ℕ
  requests : ℕ

namespace Memory

def entry (m : Memory) (table : ℕ) (idx : Index) : ℕ := m.words (table + 8 * idx)

def setEntry (m : Memory) (table : ℕ) (idx : Index) (val : ℕ) : Memory :=
  { m with words := Function.update m.words (table + 8 * idx) val }

def zeroPage (m : Memory) (page : ℕ) : Memory :=
  { m with words := fun a => if page ≤ a ∧ a < page + pageSize then 0 else m.words a }

def alloc (m : Memory) : Option ℕ × Memory :=
  (m.frames m.requests, { m with requests := m.requests + 1 })

end Memory

def vpn (vaddr level : ℕ) : Index :=
  ⟨(vaddr >>> (pageShift + 9 * level)) &&& 0x1FF, Nat.lt_of_le_of_lt Nat.and_le_right (by decide)⟩

def walkAlloc (vaddr : ℕ) : List ℕ → ℕ → Memory → Except MmError ℕ × Memory
  | [], table, m => (.ok table, m)
  | level :: levels, table, m =>
    let idx := vpn vaddr level
    if !isValid (m.entry table idx) then
      match m.alloc with
      | (none, m) => (.error .outOfMemory, m)
      | (some page, m) =>
        walkAlloc vaddr levels page ((m.zeroPage page).setEntry table idx (tableEntry page))
    else if isLeaf (m.entry table idx) then (.error .alreadyMapped, m)
    else walkAlloc vaddr levels (pageAddr (m.entry table idx)) m

def mapAt (root : ℕ) (m : Memory) (vaddr : ℕ) (upper : List ℕ) (level entry : ℕ) :
    Except MmError Unit × Memory :=
  match walkAlloc vaddr upper root m with
  | (.error err, m) => (.error err, m)
  | (.ok table, m) =>
    let idx := vpn vaddr level
    if isValid (m.entry table idx) then (.error .alreadyMapped, m)
    else (.ok (), m.setEntry table idx entry)

def mapPage (root : ℕ) (m : Memory) (vaddr paddr : ℕ) (perms : MemPerms) :
    Except MmError Unit × Memory :=
  if vaddr % pageSize ≠ 0 ∨ paddr % pageSize ≠ 0 then (.error .invalidAlignment, m)
  else mapAt root m vaddr [2, 1] 0 (leafEntry perms paddr)

def mapSuperpage (root : ℕ) (m : Memory) (vaddr paddr size : ℕ) (perms : MemPerms) :
    Except MmError Unit × Memory :=
  if size ≠ superpageSize then (.error .invalidRegion, m)
  else if vaddr % superpageSize ≠ 0 ∨ paddr % superpageSize ≠ 0 then (.error .invalidAlignment, m)
  else mapAt root m vaddr [2] 1 (leafEntry perms paddr)

def walk (m : Memory) (vaddr : ℕ) : List ℕ → ℕ → Except MmError ℕ
  | [], table => .ok table
  | level :: levels, table =>
    let e := m.entry table (vpn vaddr level)
    if !isValid e then .error .notMapped
    else if isLeaf e then .error .invalidRegion
    else walk m vaddr levels (pageAddr e)

def unmapPage (root : ℕ) (m : Memory) (vaddr : ℕ) : Except MmError ℕ × Memory :=
  if vaddr % pageSize ≠ 0 then (.error .invalidAlignment, m)
  else
    match walk m vaddr [2, 1] root with
    | .error err => (.error err, m)
    | .ok table =>
      let idx := vpn vaddr 0
      if !isValid (m.entry table idx) then (.error .notMapped, m)
      else (.ok (pageAddr (m.entry table idx)), m.setEntry table idx 0)

/-- `translate_leaf`: the offset covers all levels below that of the leaf. -/
def translateLeaf (e level vaddr : ℕ) : ℕ :=
  pageAddr e ||| (vaddr &&& ((1 <<< (pageShift + 9 * level)) - 1))

def translateFrom (m : Memory) (vaddr : ℕ) : List ℕ → ℕ → Option ℕ
  | [], table =>
    let e := m.entry table (vpn vaddr 0)
    if !isValid e then none else some (pageAddr e ||| (vaddr &&& 0xFFF))
  | level :: levels, table =>
    let e := m.entry table (vpn vaddr level)
    if !isValid e then none
    else if isLeaf e then some (translateLeaf e level vaddr)
    else translateFrom m vaddr levels (pageAddr e)

def translate (root : ℕ) (m : Memory) (vaddr : ℕ) : Option ℕ := translateFrom m vaddr [2, 1] root

end OpenIon.Arch.Riscv.Sv39
