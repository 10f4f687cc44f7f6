import OpenIon.Arch.Riscv.Paging

/-! # The tables of an Sv39 root as a tree

Sv39 is a format of page tables with three levels of 512 entries of 64 bits. A link
holds 44 bits of a page number, so tables can be anywhere below 2⁵⁶.
-/
namespace OpenIon.Arch.Riscv.Sv39
open Mm Lib

section Laws

variable {m : Memory} {t t' : ℕ} {i i' : Index} {e : ℕ}

theorem entry_setEntry_self (m : Memory) (t : ℕ) (i : Index) (e : ℕ) :
    (m.setEntry t i e).entry t i = e := by
  simp [Memory.entry, Memory.setEntry]

theorem entry_setEntry_of_ne (ht : t % 4096 = 0) (ht' : t' % 4096 = 0) (hne : t' = t → i' ≠ i) :
    (m.setEntry t i e).entry t' i' = m.entry t' i' := by
  have hi : (i : ℕ) < 512 := i.isLt
  have hi' : (i' : ℕ) < 512 := i'.isLt
  have haddr : t' + 8 * (i' : ℕ) ≠ t + 8 * (i : ℕ) := by
    intro heq
    have htt : t' = t := by omega
    exact hne htt (Fin.ext (by omega))
  simp [Memory.entry, Memory.setEntry, haddr]

theorem entry_zeroPage_self (m : Memory) (t : ℕ) (i : Index) : (m.zeroPage t).entry t i = 0 := by
  have hi : (i : ℕ) < 512 := i.isLt
  change (if t ≤ t + 8 * (i : ℕ) ∧ t + 8 * (i : ℕ) < t + pageSize then 0 else _) = 0
  rw [pageSize, if_pos (by omega)]

theorem entry_zeroPage_of_ne (ht : t % 4096 = 0) (ht' : t' % 4096 = 0) (hne : t' ≠ t) :
    (m.zeroPage t).entry t' i = m.entry t' i := by
  have hi : (i : ℕ) < 512 := i.isLt
  change (if t ≤ t' + 8 * (i : ℕ) ∧ t' + 8 * (i : ℕ) < t + pageSize then 0 else _) = _
  rw [pageSize, if_neg (by omega)]
  rfl

end Laws

/-- The tables in memory. Tables at distinct pages do not overlap. -/
def tables : Tables Memory Index ℕ where
  get := Memory.entry
  set := Memory.setEntry
  clear := Memory.zeroPage
  IsTable t := t % 4096 = 0
  empty := 0
  valid := isValid
  leaf := isLeaf
  child := pageAddr
  valid_empty := isValid_zero
  get_set_self := entry_setEntry_self
  get_set_of_ne _ _ _ _ _ _ := entry_setEntry_of_ne
  get_clear_self := entry_zeroPage_self
  get_clear_of_ne _ _ _ _ := entry_zeroPage_of_ne

def path (vaddr : ℕ) : List Index := [2, 1, 0].map (vpn vaddr)

theorem valid_tableEntry (page : ℕ) : tables.valid (tableEntry page) = true := isValid_tableEntry

theorem leaf_tableEntry (page : ℕ) : tables.leaf (tableEntry page) = false := isLeaf_tableEntry

def paging : Paging Index where
  toTables := tables
  levels := 3
  tableEntry := tableEntry
  Fits f := f % 4096 = 0 ∧ f < 2 ^ 56
  isTable_of_fits := by
    intro f hf
    exact hf.1
  valid_tableEntry := valid_tableEntry
  leaf_tableEntry := leaf_tableEntry
  child_tableEntry := by
    intro f hf
    exact pageAddr_tableEntry hf.2 hf.1
  get_alloc _ _ _ := rfl
  frames_set _ _ _ _ := rfl
  requests_set _ _ _ _ := rfl
  frames_clear _ _ := rfl
  requests_clear _ _ := rfl

/-- The tables of the root form a tree, and the allocator will not hand them out again. -/
abbrev WellFormed (root : ℕ) (m : Memory) : Prop := paging.WellFormed root m

theorem walkAlloc_eq (vaddr : ℕ) (levels : List ℕ) (t : ℕ) (m : Memory) :
    walkAlloc vaddr levels t m = paging.walkAlloc (levels.map (vpn vaddr)) t m := by
  induction levels generalizing t m with
  | nil => rfl
  | cons level levels ih =>
    simp only [walkAlloc, List.map_cons, Paging.walkAlloc, ih]
    rfl

theorem mapAt_eq (root : ℕ) (m : Memory) (vaddr : ℕ) (upper : List ℕ) (level entry : ℕ) :
    mapAt root m vaddr upper level entry =
      paging.mapAt root m (upper.map (vpn vaddr)) (vpn vaddr level) entry := by
  rw [mapAt, walkAlloc_eq]
  rfl

end OpenIon.Arch.Riscv.Sv39
