import OpenIon.Process.Elf.Bounds
import Mathlib.Order.Bounds.Defs

/-! # The image of a well-formed ELF file

A well-formed file is loaded: each of its load segments has its file bytes and zeros behind them in
memory, and nothing else has changed. Its segments are apart from the file, so it is still the file
that the loop goes on reading, and its sums and bytes are in bounds.
-/
namespace OpenIon.Process.Elf

open Lib Lib.Fallible

variable {T : Target}

def Elf64Phdr.memory (p : Elf64Phdr) : Area := ⟨p.pPaddr, p.pMemsz⟩

/-- The load segments among the first `n` program headers of the file. -/
def loadsBelow (data : Slice T) (mem : ℕ → UInt8) (n : ℕ) : List Elf64Phdr :=
  ((List.range n).map fun i => phdrAt T mem (data.start + ((ehdrAt T mem data.start).ePhoff +
    i * (ehdrAt T mem data.start).ePhentsize))).filter fun p => p.pType = ptLoad

def loads (data : Slice T) (mem : ℕ → UInt8) : List Elf64Phdr :=
  loadsBelow data mem (ehdrAt T mem data.start).ePhnum

/-- A well-formed ELF64 executable for this target: in particular its addresses fit in `usize`,
which for the entry point is so wherever `usize` has 64 bits. -/
structure WellFormed (data : Slice T) (mem : ℕ → UInt8) : Prop where
  header : HasHeader data mem
  entry : (ehdrAt T mem data.start).eEntry < T.size
  headers : ∀ i < (ehdrAt T mem data.start).ePhnum, (ehdrAt T mem data.start).ePhoff +
    i * (ehdrAt T mem data.start).ePhentsize + phdrSize ≤ data.len
  loads_ne_nil : loads data mem ≠ []
  filesz_le : ∀ p ∈ loads data mem, p.pFilesz ≤ p.pMemsz
  memsz_pos : ∀ p ∈ loads data mem, 0 < p.pMemsz
  file : ∀ p ∈ loads data mem, p.pOffset + p.pFilesz ≤ data.len
  addr : ∀ p ∈ loads data mem, p.pPaddr + p.pMemsz < T.size
  apart : (loads data mem).Pairwise fun p q => p.memory.Apart q.memory
  apart_data : ∀ p ∈ loads data mem, p.memory.Apart data.toArea

/-- The memory `mem'` has these segments of the file, and else it is as before. -/
structure Loaded (data : Slice T) (mem : ℕ → UInt8) (segments : List Elf64Phdr) (mem' : ℕ → UInt8) :
    Prop where
  file : ∀ p ∈ segments, ∀ k < p.pFilesz, mem' (p.pPaddr + k) = mem (data.start + p.pOffset + k)
  zeros : ∀ p ∈ segments, ∀ k, p.pFilesz ≤ k → k < p.pMemsz → mem' (p.pPaddr + k) = 0
  others : ∀ k < T.size, (∀ p ∈ segments, ¬(p.pPaddr ≤ k ∧ k < p.pPaddr + p.pMemsz)) → mem' k = mem k

/-! ## Addresses that do not wrap -/

theorem store_eq (mem : ℕ → UInt8) {pos k : ℕ} {bytes : List UInt8}
    (h : pos + bytes.length ≤ T.size) (hk : k < T.size) :
    T.store mem pos bytes k = Memory.store mem pos bytes k := by
  have hpos := T.size_pos
  obtain rfl | hne := eq_or_ne bytes []
  · simp [Target.store, Memory.store]
  have hlen : 0 < bytes.length := List.length_pos_iff.mpr hne
  rw [Target.store, Memory.store, Nat.mod_eq_of_lt (show pos < T.size by omega)]
  split
  case isTrue hle =>
    have hindex : (k + T.size - pos) % T.size = k - pos := by
      rw [show k + T.size - pos = k - pos + T.size by omega, Nat.add_mod_right,
        Nat.mod_eq_of_lt (by omega)]
    rw [hindex]
  case isFalse hlt =>
    rw [Nat.mod_eq_of_lt (show k + T.size - pos < T.size by omega)]
    exact List.getD_eq_default _ _ (by omega)

theorem load_eq (mem : ℕ → UInt8) {pos n : ℕ} (h : pos + n ≤ T.size) :
    T.load mem pos n = Memory.load mem pos n := by
  refine Memory.load_congr fun i hi => ?_
  rw [Nat.mod_eq_of_lt (by omega)]

theorem fieldAt_congr {mem mem' : ℕ → UInt8} {pos : ℕ} {fields : List Shape}
    (hfields : ∀ f ∈ fields, 0 < f.align) (h : pos + (Shape.struct fields).size ≤ T.size)
    (hmem : ∀ k, pos ≤ k → k < pos + (Shape.struct fields).size → mem k = mem' k) (i : ℕ) :
    fieldAt T mem pos fields i = fieldAt T mem' pos fields i := by
  have hstop := Shape.field_stop_le fields hfields i
  rw [Area.stop] at hstop
  rw [fieldAt, fieldAt, load_eq mem (by omega), load_eq mem' (by omega)]
  exact congrArg Memory.leNat (Memory.load_congr fun k hk => hmem _ (by omega) (by omega))

theorem fieldAt_lt (mem : ℕ → UInt8) (pos : ℕ) (fields : List Shape) (i : ℕ) :
    fieldAt T mem pos fields i < 256 ^ (Shape.field fields i).len := by
  have h := Memory.leNat_lt
    (T.load mem (pos + (Shape.field fields i).start) (Shape.field fields i).len)
  rwa [Target.load, Memory.length_load] at h

theorem asUsize_of_lt_two_pow (n : ℕ) (h : n < 256 ^ 2) : T.asUsize n = n := by
  have hwide : 2 ^ 16 ≤ T.size := Nat.pow_le_pow_right (by decide) T.wide
  exact Nat.mod_eq_of_lt (Nat.lt_of_lt_of_le h hwide)

section

variable {data : Slice T} {mem mem' : ℕ → UInt8} {s : Loading} {i : ℕ} {p : Elf64Phdr}
  {segments : List Elf64Phdr}

theorem Slice.len_lt (data : Slice T) : data.len < T.size := by
  have hpos := data.pos
  have hfits := data.fits
  omega

theorem asUsize_of_lt {n : ℕ} (h : n < T.size) : T.asUsize n = n := Nat.mod_eq_of_lt h

theorem asUsize_ePhnum : T.asUsize (ehdrAt T mem data.start).ePhnum = (ehdrAt T mem data.start).ePhnum :=
  asUsize_of_lt_two_pow _ (fieldAt_lt mem data.start ehdrFields 10)

theorem WellFormed.headerStart_eq (h : WellFormed data mem)
    (hi : i < (ehdrAt T mem data.start).ePhnum) :
    headerStart T (ehdrAt T mem data.start) i =
      (ehdrAt T mem data.start).ePhoff + i * (ehdrAt T mem data.start).ePhentsize := by
  have hlen := data.len_lt
  have hstop := h.headers i hi
  have hsize : T.asUsize (ehdrAt T mem data.start).ePhentsize =
      (ehdrAt T mem data.start).ePhentsize :=
    asUsize_of_lt_two_pow _ (fieldAt_lt mem data.start ehdrFields 9)
  rw [headerStart, hsize, asUsize_of_lt (by omega)]

/-- The numbers of a load segment are not cut. -/
theorem WellFormed.segmentOf_eq (h : WellFormed data mem) (hp : p ∈ loads data mem) :
    segmentOf T p = ⟨p.pOffset, p.pPaddr, p.pFilesz, p.pMemsz⟩ := by
  have hlen := data.len_lt
  have hfile := h.file p hp
  have haddr := h.addr p hp
  rw [segmentOf, asUsize_of_lt (by omega), asUsize_of_lt (by omega), asUsize_of_lt (by omega),
    asUsize_of_lt (by omega)]

theorem Loaded.data_eq (h : Loaded data mem segments mem')
    (hapart : ∀ p ∈ segments, p.memory.Apart data.toArea) {k : ℕ} (hstart : data.start ≤ k)
    (hstop : k < data.start + data.len) : mem' k = mem k := by
  have hfits := data.fits
  refine h.others k (by omega) fun p hp hk => ?_
  have := hapart p hp
  simp only [Area.Apart, Area.stop, Elf64Phdr.memory] at this
  omega

structure Placeable (data : Slice T) (p : Elf64Phdr) : Prop where
  filesz_le : p.pFilesz ≤ p.pMemsz
  file : p.pOffset + p.pFilesz ≤ data.len
  addr : p.pPaddr + p.pMemsz < T.size
  apart_data : p.memory.Apart data.toArea

theorem WellFormed.placeable (h : WellFormed data mem) (hp : p ∈ loads data mem) :
    Placeable data p :=
  ⟨h.filesz_le p hp, h.file p hp, h.addr p hp, h.apart_data p hp⟩

theorem place_apply (mem : ℕ → UInt8) (hp : Placeable data p) {k : ℕ} (hk : k < T.size) :
    Segment.place data ⟨p.pOffset, p.pPaddr, p.pFilesz, p.pMemsz⟩ mem k =
      if k < p.pPaddr then mem k
      else if k < p.pPaddr + p.pFilesz then mem (data.start + p.pOffset + (k - p.pPaddr))
      else if k < p.pPaddr + p.pMemsz then 0
      else mem k := by
  have hfits := data.fits
  have hfile := hp.filesz_le
  have hdata := hp.file
  have haddr := hp.addr
  simp only [Segment.place]
  rw [store_eq _ (by rw [List.length_replicate]; omega) hk, load_eq _ (by omega)]
  split_ifs with hbelow hcopy hzero
  · rw [Memory.store_of_lt (by omega), store_eq _ (by rw [Memory.length_load]; omega) hk,
      Memory.store_of_lt hbelow]
  · obtain ⟨j, rfl⟩ := Nat.exists_eq_add_of_le (Nat.not_lt.mp hbelow)
    rw [Memory.store_of_lt hcopy, store_eq _ (by rw [Memory.length_load]; omega) hk,
      Memory.store_add (by rw [Memory.length_load]; omega)]
    simp [Memory.load]
  · obtain ⟨j, rfl⟩ := Nat.exists_eq_add_of_le (Nat.not_lt.mp hcopy)
    rw [Memory.store_add (by rw [List.length_replicate]; omega)]
    simp
  · rw [Memory.store_of_ge (by rw [List.length_replicate]; omega),
      store_eq _ (by rw [Memory.length_load]; omega) hk,
      Memory.store_of_ge (by rw [Memory.length_load]; omega)]

theorem place_apply_outside (mem : ℕ → UInt8) (hp : Placeable data p) {k : ℕ} (hk : k < T.size)
    (hout : ¬(p.pPaddr ≤ k ∧ k < p.pPaddr + p.pMemsz)) :
    Segment.place data ⟨p.pOffset, p.pPaddr, p.pFilesz, p.pMemsz⟩ mem k = mem k := by
  have hle := hp.filesz_le
  rw [place_apply mem hp hk]
  split_ifs with hbelow hcopy hzero
  · rfl
  · exact absurd ⟨Nat.not_lt.mp hbelow, by omega⟩ hout
  · exact absurd ⟨Nat.not_lt.mp hbelow, hzero⟩ hout
  · rfl

/-- One more segment is placed. -/
theorem Loaded.place (h : Loaded data mem segments mem')
    (hsegments : ∀ q ∈ segments, Placeable data q ∧ q.memory.Apart p.memory)
    (hp : Placeable data p) :
    Loaded data mem (segments ++ [p])
      (Segment.place data ⟨p.pOffset, p.pPaddr, p.pFilesz, p.pMemsz⟩ mem') := by
  have hle := hp.filesz_le
  have haddr := hp.addr
  have hfile := hp.file
  have hkeep : ∀ q ∈ segments, ∀ k < q.pMemsz,
      Segment.place data ⟨p.pOffset, p.pPaddr, p.pFilesz, p.pMemsz⟩ mem' (q.pPaddr + k) =
        mem' (q.pPaddr + k) := by
    intro q hq k hk
    obtain ⟨hplace, hapart⟩ := hsegments q hq
    have hqaddr := hplace.addr
    simp only [Area.Apart, Area.stop, Elf64Phdr.memory] at hapart
    exact place_apply_outside mem' hp (by omega) (by omega)
  refine ⟨fun q hq k hk => ?_, fun q hq k hfrom hk => ?_, fun k hk hout => ?_⟩
  · rcases List.mem_append.mp hq with hq | hq
    · rw [hkeep q hq k (Nat.lt_of_lt_of_le hk (hsegments q hq).1.filesz_le)]
      exact h.file q hq k hk
    · rw [List.mem_singleton.mp hq] at hk ⊢
      rw [place_apply mem' hp (by omega), if_neg (by omega), if_pos (by omega),
        Nat.add_sub_cancel_left]
      exact h.data_eq (fun q hq => (hsegments q hq).1.apart_data) (by omega) (by omega)
  · rcases List.mem_append.mp hq with hq | hq
    · rw [hkeep q hq k hk]
      exact h.zeros q hq k hfrom hk
    · rw [List.mem_singleton.mp hq] at hfrom hk ⊢
      rw [place_apply mem' hp (by omega), if_neg (by omega), if_neg (by omega), if_pos (by omega)]
  · rw [place_apply_outside mem' hp hk (hout p (List.mem_append_right _ List.mem_cons_self))]
    exact h.others k hk fun q hq => hout q (List.mem_append_left _ hq)

/-! ## The headers -/

theorem loadsBelow_succ (data : Slice T) (mem : ℕ → UInt8) (i : ℕ) :
    loadsBelow data mem (i + 1) = loadsBelow data mem i ++
      ([phdrAt T mem (data.start + ((ehdrAt T mem data.start).ePhoff +
        i * (ehdrAt T mem data.start).ePhentsize))].filter fun p => p.pType = ptLoad) := by
  rw [loadsBelow, List.range_succ, List.map_append, List.filter_append]
  rfl

theorem loadsBelow_sublist {n : ℕ} (h : i ≤ n) :
    (loadsBelow data mem i).Sublist (loadsBelow data mem n) :=
  ((List.range_sublist.mpr h).map _).filter _

theorem phdrAt_congr {pos : ℕ} (h : pos + phdrSize ≤ T.size)
    (hmem : ∀ k, pos ≤ k → k < pos + phdrSize → mem k = mem' k) :
    phdrAt T mem pos = phdrAt T mem' pos := by
  have hfield := fieldAt_congr (Shape.packed_align_pos _) h hmem
  simp only [phdrAt, phdrFields] at hfield ⊢
  simp only [hfield]

/-- The loop reads the headers of the file as it was. -/
theorem Loaded.fileHeader_eq (hl : Loaded data mem (loadsBelow data mem i) (memoryAt data mem i))
    (h : WellFormed data mem) (hi : i < (ehdrAt T mem data.start).ePhnum) :
    fileHeader data mem i = phdrAt T mem (data.start + ((ehdrAt T mem data.start).ePhoff +
      i * (ehdrAt T mem data.start).ePhentsize)) := by
  have hfits := data.fits
  have hlen := data.len_lt
  have hstop := h.headers i hi
  rw [fileHeader, headerAt, h.headerStart_eq hi, Nat.mod_eq_of_lt (by omega)]
  refine phdrAt_congr (by omega) fun k hk hk' => ?_
  refine hl.data_eq (fun p hp => ?_) (by omega) (by omega)
  exact h.apart_data p ((loadsBelow_sublist (Nat.le_of_lt hi)).subset hp)

/-- A load segment is the next one of the list, and is apart from those before it. -/
theorem WellFormed.next (h : WellFormed data mem) (hi : i < (ehdrAt T mem data.start).ePhnum)
    (hp : loadsBelow data mem (i + 1) = loadsBelow data mem i ++ [p]) :
    p ∈ loads data mem ∧ ∀ q ∈ loadsBelow data mem i,
      Placeable data q ∧ q.memory.Apart p.memory := by
  have hsub : (loadsBelow data mem (i + 1)).Sublist (loads data mem) := loadsBelow_sublist hi
  have hpairs := h.apart.sublist hsub
  rw [hp] at hsub hpairs
  refine ⟨hsub.subset (List.mem_append_right _ List.mem_cons_self), fun q hq => ⟨?_, ?_⟩⟩
  · exact h.placeable (hsub.subset (List.mem_append_left _ hq))
  · exact (List.pairwise_append.mp hpairs).2.2 q hq p List.mem_cons_self

/-- The memory after the first turns of the loop has the segments of their headers. -/
theorem WellFormed.loaded (h : WellFormed data mem) (hi : i ≤ (ehdrAt T mem data.start).ePhnum) :
    Loaded data mem (loadsBelow data mem i) (memoryAt data mem i) := by
  induction i with
  | zero =>
    refine ⟨?_, ?_, fun _ _ _ => rfl⟩
    · exact fun p hp => by cases hp
    · exact fun p hp => by cases hp
  | succ i ih =>
    have hl := ih (Nat.le_of_succ_le hi)
    have hsucc := loadsBelow_succ data mem i
    rw [← hl.fileHeader_eq h hi] at hsucc
    by_cases hload : (fileHeader data mem i).pType = ptLoad
    · rw [List.filter_cons_of_pos (by simpa using hload), List.filter_nil] at hsucc
      obtain ⟨hmem, hbefore⟩ := h.next hi hsucc
      rw [hsucc, memoryAt_succ_of_isLoad hload, segmentAt, h.segmentOf_eq hmem]
      exact hl.place hbefore (h.placeable hmem)
    · rw [List.filter_cons_of_neg (by simpa using hload), List.filter_nil, List.append_nil] at hsucc
      rw [hsucc, memoryAt_succ_of_not_isLoad hload]
      exact hl

/-- The load segments that the loop comes to are those of the file. -/
theorem WellFormed.mem_loads_iff (h : WellFormed data mem) :
    p ∈ loads data mem ↔ ∃ i < T.asUsize (ehdrAt T mem data.start).ePhnum,
      IsLoad data mem i ∧ fileHeader data mem i = p := by
  rw [loads, loadsBelow, List.mem_filter, List.mem_map, asUsize_ePhnum]
  constructor
  · rintro ⟨⟨i, hi, rfl⟩, htype⟩
    have hi := List.mem_range.mp hi
    have hheader := (h.loaded (Nat.le_of_lt hi)).fileHeader_eq h hi
    refine ⟨i, hi, ?_, hheader⟩
    rw [IsLoad, hheader]
    exact of_decide_eq_true htype
  · rintro ⟨i, hi, hload, rfl⟩
    have hheader := (h.loaded (Nat.le_of_lt hi)).fileHeader_eq h hi
    exact ⟨⟨i, List.mem_range.mpr hi, hheader.symm⟩, decide_eq_true hload⟩

theorem WellFormed.exists_isLoad_iff (h : WellFormed data mem) (P : Segment → Prop) :
    (∃ i < T.asUsize (ehdrAt T mem data.start).ePhnum, IsLoad data mem i ∧
      P (segmentAt data mem i)) ↔
      ∃ p ∈ loads data mem, P ⟨p.pOffset, p.pPaddr, p.pFilesz, p.pMemsz⟩ := by
  constructor
  · rintro ⟨i, hi, hload, hP⟩
    have hp := h.mem_loads_iff.mpr ⟨i, hi, hload, rfl⟩
    exact ⟨_, hp, h.segmentOf_eq hp ▸ hP⟩
  · rintro ⟨p, hp, hP⟩
    rw [← h.segmentOf_eq hp] at hP
    obtain ⟨i, hi, hload, rfl⟩ := h.mem_loads_iff.mp hp
    exact ⟨i, hi, hload, hP⟩

theorem WellFormed.inFile (h : WellFormed data mem)
    (hi : i < T.asUsize (ehdrAt T mem data.start).ePhnum) :
    InFile data mem i ∧ HeaderFits data mem i := by
  have hlen := data.len_lt
  have hstop : headerStop T (ehdrAt T mem data.start) i ≤ data.len := by
    rw [asUsize_ePhnum] at hi
    rw [headerStop, h.headerStart_eq hi]
    exact h.headers i hi
  have hsegment : IsLoad data mem i →
      (segmentAt data mem i).fileOffset + (segmentAt data mem i).fileSize ≤ data.len ∧
        (segmentAt data mem i).memAddr + (segmentAt data mem i).memSize < T.size := by
    intro hload
    have hp := h.mem_loads_iff.mpr ⟨i, hi, hload, rfl⟩
    rw [segmentAt, h.segmentOf_eq hp]
    exact ⟨h.file _ hp, h.addr _ hp⟩
  refine ⟨⟨hstop, fun hload => (hsegment hload).1⟩, Nat.lt_of_le_of_lt hstop hlen, ?_⟩
  exact fun _ hload => ⟨Nat.lt_of_le_of_lt (hsegment hload).1 hlen, fun _ => (hsegment hload).2⟩

theorem eEntry_lt (h : 64 ≤ T.bits) (mem : ℕ → UInt8) (pos : ℕ) : (ehdrAt T mem pos).eEntry < T.size := by
  have hsize : 2 ^ 64 ≤ T.size := Nat.pow_le_pow_right (by decide) h
  exact Nat.lt_of_lt_of_le (fieldAt_lt mem pos ehdrFields 4) hsize

/-- At the end the bounds are the least address and the greatest end of the segments. -/
theorem Tracked.bounds (hs : Tracked data mem (T.asUsize (ehdrAt T mem data.start).ePhnum) s)
    (h : WellFormed data mem) :
    s.loadBase < s.loadEnd ∧ IsLeast {a | ∃ p ∈ loads data mem, a = p.pPaddr} s.loadBase ∧
      IsGreatest {a | ∃ p ∈ loads data mem, a = p.pPaddr + p.pMemsz} s.loadEnd := by
  have hbase : ∀ k, s.loadBase < k ↔ T.size - 1 < k ∨ ∃ p ∈ loads data mem, p.pPaddr < k := fun k =>
    (hs.base k).trans (or_congr_right (h.exists_isLoad_iff fun seg => seg.memAddr < k))
  have hend : ∀ k, k < s.loadEnd ↔ ∃ p ∈ loads data mem, k < p.pPaddr + p.pMemsz := fun k =>
    (hs.stop k).trans (h.exists_isLoad_iff fun seg => k < seg.memAddr + seg.memSize)
  have hbase_le : ∀ p ∈ loads data mem, s.loadBase ≤ p.pPaddr := fun p hp =>
    Nat.lt_succ_iff.mp ((hbase _).mpr (.inr ⟨p, hp, Nat.lt_succ_self _⟩))
  have hle_end : ∀ p ∈ loads data mem, p.pPaddr + p.pMemsz ≤ s.loadEnd := fun p hp =>
    Nat.not_lt.mp fun hlt => Nat.lt_irrefl _ ((hend _).mpr ⟨p, hp, hlt⟩)
  obtain ⟨p, hp⟩ := List.exists_mem_of_ne_nil _ h.loads_ne_nil
  have hbelow := hbase_le p hp
  have habove := hle_end p hp
  have hsize := h.memsz_pos p hp
  have haddr := h.addr p hp
  refine ⟨by omega, ⟨?_, ?_⟩, ⟨?_, ?_⟩⟩
  · obtain ⟨q, hq, hlt⟩ := ((hbase _).mp (Nat.lt_succ_self _)).resolve_left (by omega)
    exact ⟨q, hq, Nat.le_antisymm (hbase_le q hq) (Nat.lt_succ_iff.mp hlt)⟩
  · rintro a ⟨q, hq, rfl⟩
    exact hbase_le q hq
  · obtain ⟨q, hq, hlt⟩ := (hend (s.loadEnd - 1)).mp (by omega)
    exact ⟨q, hq, Nat.le_antisymm (by omega) (hle_end q hq)⟩
  · rintro a ⟨q, hq, rfl⟩
    exact hle_end q hq

end

/-- A well-formed file is loaded: the entry point and the bounds of the image are returned, the
segments are in memory, and nothing else has changed. -/
theorem load_elf_faithful (data : Slice T) (mem : ℕ → UInt8) (h : WellFormed data mem) :
    ∃ r s, loadElf data (.start mem) = (.ok r, s) ∧
      r.entryPoint = (ehdrAt T mem data.start).eEntry ∧
      IsLeast {a | ∃ p ∈ loads data mem, a = p.pPaddr} r.loadBase ∧
      IsGreatest {a | ∃ p ∈ loads data mem, a = p.pPaddr + p.pMemsz} (r.loadBase + r.loadSize) ∧
      Loaded data mem (loads data mem) s.mem := by
  have hrun : Ensures (loadElf data) (.start mem) (fun r s =>
      r.entryPoint = (ehdrAt T mem data.start).eEntry ∧
      IsLeast {a | ∃ p ∈ loads data mem, a = p.pPaddr} r.loadBase ∧
      IsGreatest {a | ∃ p ∈ loads data mem, a = p.pPaddr + p.pMemsz} (r.loadBase + r.loadSize) ∧
      Loaded data mem (loads data mem) s.mem) fun _ _ => False := by
    refine ensures_loadElf (I := Tracked data mem) ?_ ?_ ?_ ?_ ?_
    · exact fun _ _ _ hno _ => hno h.header
    · exact fun _ s hs => hs.tracked
    · intro _ i hi s hs
      obtain ⟨hfile, hfits⟩ := h.inFile hi
      exact ⟨fun s' hturn => hs.turn hfits hturn,
        fun e s' hturn => hturn.not_inFile hs.mem_eq hfits hfile⟩
    · exact fun _ s hs hle => Nat.not_lt.mpr hle (hs.bounds h).1
    · intro _ s hs hlt
      obtain ⟨-, hbase, hend⟩ := hs.bounds h
      have hsum : s.loadBase + (s.loadEnd - s.loadBase) = s.loadEnd := by omega
      refine ⟨asUsize_of_lt h.entry, hbase, hsum.symm ▸ hend, ?_⟩
      rw [hs.mem_eq, asUsize_ePhnum]
      exact h.loaded (Nat.le_refl _)
  cases hload : loadElf data (.start mem) with
  | mk out s =>
    cases out with
    | ok r => exact ⟨r, s, rfl, hrun.returns r s hload⟩
    | error e => exact absurd (hrun.stops e s hload) id

/-- Two load segments and a header of another type between them. -/
def threeHeaders : ℕ → UInt8 := smallMemory (ehdrBytes 3 ++ phdrBytes 1 0 16 4 8 ++
  phdrBytes 4 0 0 0 0 ++ phdrBytes 1 4 32 2 2)

theorem loads_threeHeaders :
    loads (smallSlice 3) threeHeaders = [⟨1, 0, 16, 4, 8⟩, ⟨1, 4, 32, 2, 2⟩] := rfl

theorem wellFormed_threeHeaders : WellFormed (smallSlice 3) threeHeaders where
  header := ⟨by decide, by decide +kernel, by decide +kernel, by decide +kernel, by decide +kernel⟩
  entry := eEntry_lt (Nat.le_refl 64) _ _
  headers := by
    have hehdr : ehdrAt checked64 threeHeaders (smallSlice 3).start = ⟨2, 16, 64, 56, 3⟩ := rfl
    rw [hehdr]
    decide
  loads_ne_nil := by simp [loads_threeHeaders]
  filesz_le := by simp [loads_threeHeaders]
  memsz_pos := by simp [loads_threeHeaders]
  file := by
    rw [loads_threeHeaders]
    decide
  addr := by
    rw [loads_threeHeaders]
    decide
  apart := by
    rw [loads_threeHeaders]
    decide
  apart_data := by
    rw [loads_threeHeaders]
    decide

theorem load_elf_faithful_threeHeaders :
    WellFormed (smallSlice 3) threeHeaders ∧
      ∃ r s, loadElf (smallSlice 3) (.start threeHeaders) = (.ok r, s) ∧
        r.entryPoint = (ehdrAt checked64 threeHeaders (smallSlice 3).start).eEntry ∧
        IsLeast {a | ∃ p ∈ loads (smallSlice 3) threeHeaders, a = p.pPaddr} r.loadBase ∧
        IsGreatest {a | ∃ p ∈ loads (smallSlice 3) threeHeaders, a = p.pPaddr + p.pMemsz}
          (r.loadBase + r.loadSize) ∧
        Loaded (smallSlice 3) threeHeaders (loads (smallSlice 3) threeHeaders) s.mem :=
  ⟨wellFormed_threeHeaders, load_elf_faithful _ _ wellFormed_threeHeaders⟩

end OpenIon.Process.Elf
