import OpenIon.Arch.Riscv.PageMap

/-! # Sv32 page tables

The operations of `Sv32PageTable` in `arch/riscv/sv32.rs`, which is built for 32-bit harts
only. There are two levels of tables with 1024 entries of 32 bits, and the flags of an
entry are those of Sv39. An entry has 22 bits of a page number, two more than an address
can use.
-/
namespace OpenIon.Arch.Riscv.Sv32
open Mm Lib
open Sv39 (Memory isValid isLeaf permsToPteBits pteV)

def ptEntries : ℕ := 1024

abbrev Index := Fin ptEntries

def ppnMask : ℕ := 0x003fffff

def ppn (e : ℕ) : ℕ := (e >>> 10) &&& ppnMask

def withPpn (bits addr : ℕ) : ℕ := bits ||| (((addr >>> pageShift) &&& ppnMask) <<< 10)

def tableEntry (addr : ℕ) : ℕ := withPpn pteV addr

def leafEntry (perms : MemPerms) (addr : ℕ) : ℕ := withPpn (permsToPteBits perms) addr

def pageAddr (e : ℕ) : ℕ := (ppn e <<< pageShift) % 2 ^ 32

def entry (m : Memory) (table : ℕ) (idx : Index) : ℕ := m.words (table + 4 * idx)

def setEntry (m : Memory) (table : ℕ) (idx : Index) (val : ℕ) : Memory :=
  { m with words := Function.update m.words (table + 4 * idx) val }

def vpn (vaddr level : ℕ) : Index :=
  ⟨(vaddr >>> (pageShift + 10 * level)) &&& 0x3ff, Nat.lt_of_le_of_lt Nat.and_le_right (by decide)⟩

section Laws

variable {m : Memory} {t t' : ℕ} {i i' : Index} {e : ℕ}

theorem entry_setEntry_self (m : Memory) (t : ℕ) (i : Index) (e : ℕ) :
    entry (setEntry m t i e) t i = e := by
  simp [entry, setEntry]

theorem entry_setEntry_of_ne (ht : t % 4096 = 0) (ht' : t' % 4096 = 0) (hne : t' = t → i' ≠ i) :
    entry (setEntry m t i e) t' i' = entry m t' i' := by
  have hi : (i : ℕ) < 1024 := i.isLt
  have hi' : (i' : ℕ) < 1024 := i'.isLt
  have haddr : t' + 4 * (i' : ℕ) ≠ t + 4 * (i : ℕ) := by
    intro heq
    have htt : t' = t := by omega
    exact hne htt (Fin.ext (by omega))
  simp [entry, setEntry, haddr]

theorem entry_zeroPage_self (m : Memory) (t : ℕ) (i : Index) : entry (m.zeroPage t) t i = 0 := by
  have hi : (i : ℕ) < 1024 := i.isLt
  change (if t ≤ t + 4 * (i : ℕ) ∧ t + 4 * (i : ℕ) < t + pageSize then 0 else _) = 0
  rw [pageSize, if_pos (by omega)]

theorem entry_zeroPage_of_ne (ht : t % 4096 = 0) (ht' : t' % 4096 = 0) (hne : t' ≠ t) :
    entry (m.zeroPage t) t' i = entry m t' i := by
  have hi : (i : ℕ) < 1024 := i.isLt
  change (if t ≤ t' + 4 * (i : ℕ) ∧ t' + 4 * (i : ℕ) < t + pageSize then 0 else _) = _
  rw [pageSize, if_neg (by omega)]
  rfl

end Laws

def tables : Tables Memory Index ℕ where
  get := entry
  set := setEntry
  clear := Memory.zeroPage
  IsTable t := t % 4096 = 0
  empty := 0
  valid := isValid
  leaf := isLeaf
  child := pageAddr
  valid_empty := Sv39.isValid_zero
  get_set_self := entry_setEntry_self
  get_set_of_ne _ _ _ _ _ _ := entry_setEntry_of_ne
  get_clear_self := entry_zeroPage_self
  get_clear_of_ne _ _ _ _ := entry_zeroPage_of_ne

theorem pageAddr_withPpn {bits addr : ℕ} (hbits : bits < 2 ^ 10) (haddr : addr < 2 ^ 32)
    (halign : addr % 4096 = 0) : pageAddr (withPpn bits addr) = addr := by
  have hwide : addr < 2 ^ (pageShift + 22) := haddr.trans (by decide)
  have hppn : ppn (withPpn bits addr) = addr >>> pageShift := Sv39.pageNumber_eq (k := 22) hbits hwide
  rw [pageAddr, hppn, pageShift, Nat.shiftLeft_eq, Nat.shiftRight_eq_div_pow]
  omega

theorem valid_tableEntry (page : ℕ) : tables.valid (tableEntry page) = true :=
  Sv39.isValid_flags _ _

theorem leaf_tableEntry (page : ℕ) : tables.leaf (tableEntry page) = false := Sv39.isLeaf_flags _ _

theorem child_tableEntry (page : ℕ) (h : page % 4096 = 0 ∧ page < 2 ^ 32) :
    tables.child (tableEntry page) = page :=
  pageAddr_withPpn (by decide) h.2 h.1

def paging : Paging Index where
  toTables := tables
  levels := 2
  tableEntry := tableEntry
  Fits f := f % 4096 = 0 ∧ f < 2 ^ 32
  isTable_of_fits := by
    intro f hf
    exact hf.1
  valid_tableEntry := valid_tableEntry
  leaf_tableEntry := leaf_tableEntry
  child_tableEntry := child_tableEntry
  get_alloc _ _ _ := rfl
  frames_set _ _ _ _ := rfl
  requests_set _ _ _ _ := rfl
  frames_clear _ _ := rfl
  requests_clear _ _ := rfl

def mapPage (root : ℕ) (m : Memory) (vaddr paddr : ℕ) (perms : MemPerms) :
    Except MmError Unit × Memory :=
  if vaddr % pageSize ≠ 0 ∨ paddr % pageSize ≠ 0 then (.error .invalidAlignment, m)
  else paging.mapAt root m ([1].map (vpn vaddr)) (vpn vaddr 0) (leafEntry perms paddr)

/-- The loop of `unmap_page` over the upper levels, which takes every entry in use for a link. -/
def walk (m : Memory) (vaddr : ℕ) : List ℕ → ℕ → Except MmError ℕ
  | [], table => .ok table
  | level :: levels, table =>
    let e := entry m table (vpn vaddr level)
    if !isValid e then .error .notMapped else walk m vaddr levels (pageAddr e)

def unmapPage (root : ℕ) (m : Memory) (vaddr : ℕ) : Except MmError ℕ × Memory :=
  if vaddr % pageSize ≠ 0 then (.error .invalidAlignment, m)
  else
    match walk m vaddr [1] root with
    | .error err => (.error err, m)
    | .ok table =>
      let idx := vpn vaddr 0
      if !isValid (entry m table idx) then (.error .notMapped, m)
      else (.ok (pageAddr (entry m table idx)), setEntry m table idx 0)

/-- The loop of `translate` over the upper levels, where a leaf counts as no mapping, and the last
level. -/
def translateFrom (m : Memory) (vaddr : ℕ) : List ℕ → ℕ → Option ℕ
  | [], table =>
    let e := entry m table (vpn vaddr 0)
    if !isValid e then none else some (pageAddr e ||| (vaddr &&& (pageSize - 1)))
  | level :: levels, table =>
    let e := entry m table (vpn vaddr level)
    if !isValid e then none
    else if isLeaf e then none
    else translateFrom m vaddr levels (pageAddr e)

def translate (root : ℕ) (m : Memory) (vaddr : ℕ) : Option ℕ := translateFrom m vaddr [1] root

def pageTable (root : ℕ) : PageTable Memory where
  mapPage := mapPage root
  unmapPage := unmapPage root
  translate := translate root

theorem vpn_val (vaddr level : ℕ) :
    (vpn vaddr level : ℕ) = vaddr / 2 ^ (12 + 10 * level) % 1024 := by
  change vaddr >>> (12 + 10 * level) &&& 2 ^ 10 - 1 = _
  rw [Nat.and_two_pow_sub_one_eq_mod, Nat.shiftRight_eq_div_pow]

def addressing : paging.Addressing where
  upper v := [1].map (vpn v)
  last v := vpn v 0
  length_upper _ := rfl
  below_iff := by
    intro u v hu hv
    simp only [List.map_cons, List.map_nil, List.cons_append, List.nil_append,
      List.cons_prefix_cons, List.nil_prefix, and_true, Fin.ext_iff, vpn_val, pageSize]
    omega

variable {root v p : ℕ} {m : Memory} {f : PageMap} {perms : MemPerms}

/-- Without leaves in the upper tables `unmap_page` takes no leaf for a link. -/
theorem unmapPage_eq (hlast : paging.LeavesLast root m) (hv : v % pageSize = 0) :
    unmapPage root m v = paging.unmapAt root m (addressing.upper v) (addressing.last v) := by
  have hroot : paging.follow m root [] = some root := rfl
  cases hvalid : isValid (entry m root (vpn v 1)) with
  | false =>
    have hfollow : paging.follow m root (addressing.upper v) = none := by
      have hlinks : paging.links (paging.get m root (vpn v 1)) = false := by
        change (isValid (entry m root (vpn v 1)) && _) = false
        rw [hvalid, Bool.false_and]
      change paging.follow m root [vpn v 1] = none
      rw [Tables.follow_cons, hlinks]
      rfl
    simp [unmapPage, hv, walk, hvalid, Paging.unmapAt, hfollow]
  | true =>
    have hleaf := hlast.leaf_eq_false hroot (vpn v 1) (by decide) hvalid
    have hfollow : paging.follow m root (addressing.upper v) =
        some (pageAddr (entry m root (vpn v 1))) := paging.follow_snoc hroot hvalid hleaf
    simp only [unmapPage, hv, walk, hvalid, Paging.unmapAt, hfollow]
    rfl

theorem translate_eq (hlast : paging.LeavesLast root m) :
    translate root m v = (paging.lookup m root (addressing.upper v ++ [addressing.last v])).map
      fun leaf => paging.child leaf.2 ||| (v &&& 0xFFF) := by
  have hroot : paging.follow m root [] = some root := rfl
  change translateFrom m v [1] root = Option.map _ (tables.lookup m root [vpn v 1, vpn v 0])
  rw [translateFrom, Tables.lookup]
  change _ = Option.map _ (if !isValid (entry m root (vpn v 1)) then none
    else if isLeaf (entry m root (vpn v 1)) || false then _ else _)
  cases hvalid : isValid (entry m root (vpn v 1)) with
  | false => simp
  | true =>
    have hleaf : isLeaf (entry m root (vpn v 1)) = false :=
      hlast.leaf_eq_false hroot (vpn v 1) (by decide) hvalid
    simp only [hleaf, Bool.not_true, Bool.or_false, Bool.false_eq_true, if_false]
    rw [translateFrom, Tables.lookup]
    change _ = Option.map _ (if !isValid (entry m (pageAddr (entry m root (vpn v 1))) (vpn v 0))
      then none else _)
    split
    · rfl
    · simp
      rfl

theorem implements (root : ℕ) : Paging.Implements addressing root (pageTable root) leafEntry where
  isTable := id
  fits := by
    intro page halign hlt
    exact ⟨halign, hlt⟩
  leaf := by
    intro perms page hperms
    exact ⟨(Sv39.isValid_flags _ _).trans (Sv39.isValid_permsToPteBits perms),
      (Sv39.isLeaf_flags _ _).trans (Sv39.isLeaf_permsToPteBits hperms)⟩
  child := by
    intro perms page halign hlt
    exact pageAddr_withPpn (Sv39.permsToPteBits_lt perms) hlt halign
  mapPage _ _ _ _ := rfl
  unmapPage := by
    intro m v hlast
    by_cases hv : v % pageSize = 0
    · simp only [hv, ne_eq, not_true_eq_false, if_false]
      exact unmapPage_eq hlast hv
    · rw [if_pos hv]
      exact if_pos hv
  later := by
    intro m v
    change Sv39.Later m (unmapPage root m v).2
    rw [unmapPage]
    split
    · exact .refl m
    · split
      · exact .refl m
      · dsimp only
        split
        · exact .refl m
        · exact paging.later_set ..
  translate := by
    intro m v hlast
    exact translate_eq hlast

end OpenIon.Arch.Riscv.Sv32
