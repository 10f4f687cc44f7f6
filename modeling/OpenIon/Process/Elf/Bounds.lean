import OpenIon.Process.Elf.Turn
import Mathlib.Order.MinMax

/-! # Overflows and bounds of the ELF loader

A run stays in bounds if no sum overflows, it reads in the file only and, where it succeeds, it
writes in the area it returns only. The loader's tests do not ensure that: a sum in a test can
overflow itself, and the area returned ends at the greatest `p_paddr + p_memsz`, while `p_filesz`
bytes are copied. Which files are loaded in bounds is said here of their headers.
-/
namespace OpenIon.Process.Elf

open Lib Lib.Fallible

variable {T : Target}

structure StaysInBounds (data : Slice T) (out : Except Stop ElfLoadResult) (s : Loading) :
    Prop where
  overflow : s.overflowed = false
  reads : ∀ a ∈ s.reads, a.Within data.toArea
  writes : ∀ r, out = .ok r → ∀ a ∈ s.writes, ∀ k, a.start ≤ k → k < a.stop →
    r.loadBase ≤ k ∧ k < r.loadBase + r.loadSize

/-! ## The headers of a file -/

section

variable (data : Slice T) (mem : ℕ → UInt8)

/-- The memory with the load segments of the first headers in place. They may lie over the file, and
then the headers that follow are the ones found there. -/
def memoryAt : ℕ → ℕ → UInt8
  | 0 => mem
  | i + 1 =>
    let phdr := headerAt data (ehdrAt T mem data.start) (memoryAt i) i
    if phdr.pType = ptLoad then (segmentOf T phdr).place data (memoryAt i) else memoryAt i

def fileHeader (i : ℕ) : Elf64Phdr :=
  headerAt data (ehdrAt T mem data.start) (memoryAt data mem i) i

def IsLoad (i : ℕ) : Prop := (fileHeader data mem i).pType = ptLoad

def segmentAt (i : ℕ) : Segment := segmentOf T (fileHeader data mem i)

/-- The header is in the file, and so are the bytes of its segment. -/
structure InFile (i : ℕ) : Prop where
  header : headerStop T (ehdrAt T mem data.start) i ≤ data.len
  segment : IsLoad data mem i →
    (segmentAt data mem i).fileOffset + (segmentAt data mem i).fileSize ≤ data.len

/-- The sums made for a segment fit in `usize`; the second one is made if the first test is
passed. -/
def Segment.Fits (seg : Segment) : Prop :=
  seg.fileOffset + seg.fileSize < T.size ∧
    (seg.fileOffset + seg.fileSize ≤ data.len → seg.memAddr + seg.memSize < T.size)

@[mk_iff]
structure HeaderFits (i : ℕ) : Prop where
  header : headerStop T (ehdrAt T mem data.start) i < T.size
  segment : headerStop T (ehdrAt T mem data.start) i ≤ data.len → IsLoad data mem i →
    (segmentAt data mem i).Fits data

/-- The sums made for each header fit in `usize`, up to the first one that is not in the file. -/
def Fits : Prop :=
  HasHeader data mem → ∀ i < T.asUsize (ehdrAt T mem data.start).ePhnum,
    (∀ j < i, InFile data mem j) → HeaderFits data mem i

/-- All headers are in the file, and there is memory between the least address of a segment and the
greatest end of one. -/
structure Accepted : Prop where
  header : HasHeader data mem
  inFile : ∀ i < T.asUsize (ehdrAt T mem data.start).ePhnum, InFile data mem i
  area : ∃ i < T.asUsize (ehdrAt T mem data.start).ePhnum, IsLoad data mem i ∧
    ∃ j < T.asUsize (ehdrAt T mem data.start).ePhnum, IsLoad data mem j ∧
      (segmentAt data mem j).memAddr <
        (segmentAt data mem i).memAddr + (segmentAt data mem i).memSize

/-- Where a segment has file bytes, the memory of some segment reaches to their end. -/
def FileBytesCovered : Prop :=
  ∀ i < T.asUsize (ehdrAt T mem data.start).ePhnum, IsLoad data mem i →
    0 < (segmentAt data mem i).fileSize →
    ∃ j < T.asUsize (ehdrAt T mem data.start).ePhnum, IsLoad data mem j ∧
      (segmentAt data mem i).memAddr + (segmentAt data mem i).fileSize ≤
        (segmentAt data mem j).memAddr + (segmentAt data mem j).memSize

end

/-! ## A turn -/

/-- After the turns of the headers below `i`, none of which made a sum overflow. The bounds found so
far are given by what is above the one and below the other. -/
structure Tracked (data : Slice T) (mem : ℕ → UInt8) (i : ℕ) (s : Loading) : Prop where
  mem_eq : s.mem = memoryAt data mem i
  passed : ∀ j < i, InFile data mem j ∧ HeaderFits data mem j
  overflow : s.overflowed = false
  reads : ∀ a ∈ s.reads, a.Within data.toArea
  writes : ∀ a, a ∈ s.writes ↔ ∃ j < i, IsLoad data mem j ∧ a ∈ (segmentAt data mem j).areas
  base : ∀ k, s.loadBase < k ↔
    T.size - 1 < k ∨ ∃ j < i, IsLoad data mem j ∧ (segmentAt data mem j).memAddr < k
  stop : ∀ k, k < s.loadEnd ↔ ∃ j < i, IsLoad data mem j ∧
    k < (segmentAt data mem j).memAddr + (segmentAt data mem j).memSize

variable {data : Slice T} {mem : ℕ → UInt8} {i : ℕ} {s s' : Loading}

theorem note_overflowed_eq_false (n : ℕ) :
    (s.note T n).overflowed = false ↔ s.overflowed = false ∧ n < T.size := by
  simp [Loading.note]

theorem note_iff_of_stopped {n : ℕ} {P : Prop} (h : T.size ≤ n ∨ data.len < n % T.size) :
    (s.note T n).overflowed = false ↔
      s.overflowed = false ∧ n < T.size ∧ (n ≤ data.len → P) := by
  rw [note_overflowed_eq_false]
  refine and_congr_right fun _ => ⟨fun hlt => ⟨hlt, fun hle => ?_⟩, And.left⟩
  rw [Nat.mod_eq_of_lt hlt] at h
  omega

theorem memoryAt_succ_of_isLoad (h : IsLoad data mem i) :
    memoryAt data mem (i + 1) = (segmentAt data mem i).place data (memoryAt data mem i) :=
  if_pos h

theorem memoryAt_succ_of_not_isLoad (h : ¬IsLoad data mem i) :
    memoryAt data mem (i + 1) = memoryAt data mem i :=
  if_neg h

theorem exists_lt_succ_of_isLoad (hload : IsLoad data mem i) (P : ℕ → Prop) :
    (∃ j < i + 1, IsLoad data mem j ∧ P j) ↔ (∃ j < i, IsLoad data mem j ∧ P j) ∨ P i := by
  simp only [Nat.exists_lt_succ_right, hload, true_and]

theorem exists_lt_succ_of_not_isLoad (hload : ¬IsLoad data mem i) (P : ℕ → Prop) :
    (∃ j < i + 1, IsLoad data mem j ∧ P j) ↔ ∃ j < i, IsLoad data mem j ∧ P j := by
  simp only [Nat.exists_lt_succ_right, hload, false_and, or_false]

theorem Scanning.tracked (h : Scanning data mem s) :
    Tracked data mem 0 { s with loadBase := T.size - 1, loadEnd := 0 } := by
  refine ⟨h.mem_eq, fun j hj => absurd hj (Nat.not_lt_zero j), ?_, h.reads, ?_, ?_, ?_⟩
  · rw [h.eq]
    rfl
  · rw [h.eq]
    simp [Loading.start]
  · simp
  · simp

theorem SegmentTurn.overflowed_eq_false {seg : Segment} {out : Except Stop Unit}
    (h : SegmentTurn data seg s out s') :
    s'.overflowed = false ↔ s.overflowed = false ∧ seg.Fits data := by
  -- A segment is placed where the first sum passes the test, and then both sums are made.
  have hplaced : (seg.fileOffset + seg.fileSize) % T.size ≤ data.len →
      (((s.note T (seg.fileOffset + seg.fileSize)).placed data seg).overflowed = false ↔
        s.overflowed = false ∧ seg.Fits data) := by
    intro hin
    have hsums : seg.Fits data ↔
        seg.fileOffset + seg.fileSize < T.size ∧ seg.memAddr + seg.memSize < T.size := by
      refine and_congr_right fun hlt => ?_
      rw [Nat.mod_eq_of_lt hlt] at hin
      exact ⟨fun h => h hin, fun h _ => h⟩
    rw [hsums]
    simp [Loading.placed, Loading.note, and_assoc]
  cases h with
  | overflow hover => exact note_iff_of_stopped (.inl hover)
  | outside hout => exact note_iff_of_stopped (.inr hout)
  | memOverflow hin _ => exact hplaced hin
  | done hin => exact hplaced hin

theorem SegmentTurn.reads_within {seg : Segment} {out : Except Stop Unit}
    (h : SegmentTurn data seg s out s') (hfits : seg.Fits data)
    (hreads : ∀ a ∈ s.reads, a.Within data.toArea) : ∀ a ∈ s'.reads, a.Within data.toArea := by
  have hplaced : (seg.fileOffset + seg.fileSize) % T.size ≤ data.len →
      ∀ a ∈ s.reads ++ [⟨data.start + seg.fileOffset, seg.fileSize⟩], a.Within data.toArea := by
    intro hin
    rw [Nat.mod_eq_of_lt hfits.1] at hin
    refine List.forall_mem_append.mpr ⟨hreads, List.forall_mem_singleton.mpr ?_⟩
    change (data.toArea.part ⟨seg.fileOffset, seg.fileSize⟩).Within data.toArea
    exact Area.part_within hin
  cases h with
  | overflow _ => exact hreads
  | outside _ => exact hreads
  | memOverflow hin _ => exact hplaced hin
  | done hin => exact hplaced hin

theorem SegmentTurn.of_ok {seg : Segment} (h : SegmentTurn data seg s (.ok ()) s')
    (hfits : seg.Fits data) :
    seg.fileOffset + seg.fileSize ≤ data.len ∧ s'.mem = seg.place data s.mem ∧
      s'.writes = s.writes ++ seg.areas ∧ s'.loadBase = min seg.memAddr s.loadBase ∧
      s'.loadEnd = max s.loadEnd (seg.memAddr + seg.memSize) := by
  cases h with
  | done hin =>
    rw [Nat.mod_eq_of_lt hfits.1] at hin
    refine ⟨hin, rfl, rfl, rfl, ?_⟩
    change max s.loadEnd ((seg.memAddr + seg.memSize) % T.size) = _
    rw [Nat.mod_eq_of_lt (hfits.2 hin)]

theorem header_within (h : headerStop T (ehdrAt T mem data.start) i % T.size ≤ data.len)
    (hlt : headerStop T (ehdrAt T mem data.start) i < T.size) :
    Area.Within ⟨data.start + headerStart T (ehdrAt T mem data.start) i % T.size, phdrSize⟩
      data.toArea := by
  have hstart : headerStart T (ehdrAt T mem data.start) i < T.size :=
    Nat.lt_of_le_of_lt (Nat.le_add_right _ _) hlt
  rw [Nat.mod_eq_of_lt hlt] at h
  rw [Nat.mod_eq_of_lt hstart]
  change (data.toArea.part ⟨headerStart T (ehdrAt T mem data.start) i, phdrSize⟩).Within data.toArea
  exact Area.part_within h

theorem Turn.overflowed_eq_false {out : Except Stop Unit}
    (h : Turn data (ehdrAt T mem data.start) i s out s') (hmem : s.mem = memoryAt data mem i) :
    s'.overflowed = false ↔ s.overflowed = false ∧ HeaderFits data mem i := by
  rw [headerFits_iff]
  cases h with
  | overflow hover => exact note_iff_of_stopped (.inl hover)
  | outside hout => exact note_iff_of_stopped (.inr hout)
  | other _ htype =>
    rw [hmem] at htype
    refine (note_overflowed_eq_false _).trans (and_congr_right fun _ => ?_)
    exact ⟨fun hlt => ⟨hlt, fun _ hload => absurd hload htype⟩, And.left⟩
  | segment hin htype hseg =>
    rw [hmem] at htype hseg
    refine hseg.overflowed_eq_false.trans ?_
    refine (and_congr_left' (note_overflowed_eq_false _)).trans ?_
    rw [and_assoc]
    refine and_congr_right fun _ => ⟨fun h => ⟨h.1, fun _ _ => h.2⟩, fun ⟨hlt, hfits⟩ => ?_⟩
    rw [Nat.mod_eq_of_lt hlt] at hin
    exact ⟨hlt, hfits hin htype⟩

theorem Turn.reads_within {out : Except Stop Unit}
    (h : Turn data (ehdrAt T mem data.start) i s out s') (hmem : s.mem = memoryAt data mem i)
    (hfits : HeaderFits data mem i) (hreads : ∀ a ∈ s.reads, a.Within data.toArea) :
    ∀ a ∈ s'.reads, a.Within data.toArea := by
  have hsaw : headerStop T (ehdrAt T mem data.start) i % T.size ≤ data.len →
      ∀ a ∈ s.reads ++ [⟨data.start + headerStart T (ehdrAt T mem data.start) i % T.size,
        phdrSize⟩], a.Within data.toArea := fun hin =>
    List.forall_mem_append.mpr
      ⟨hreads, List.forall_mem_singleton.mpr (header_within hin hfits.header)⟩
  cases h with
  | overflow _ => exact hreads
  | outside _ => exact hreads
  | other hin _ => exact hsaw hin
  | segment hin htype hseg =>
    rw [hmem] at htype hseg
    have hstop := Nat.mod_eq_of_lt hfits.header ▸ hin
    exact hseg.reads_within (hfits.segment hstop htype) (hsaw hin)

/-- Where no sum overflows, the loop stops at a header or a segment that is not in the file. -/
theorem Turn.not_inFile {e : Stop} (h : Turn data (ehdrAt T mem data.start) i s (.error e) s')
    (hmem : s.mem = memoryAt data mem i) (hfits : HeaderFits data mem i) :
    ¬InFile data mem i := by
  intro hfile
  cases h with
  | overflow hover => exact Nat.not_lt.mpr hover hfits.header
  | outside hout =>
    rw [Nat.mod_eq_of_lt hfits.header] at hout
    exact Nat.not_lt.mpr hfile.header hout
  | segment _ htype hseg =>
    rw [hmem] at htype hseg
    change SegmentTurn data (segmentAt data mem i) _ _ _ at hseg
    obtain ⟨hlt, haddr⟩ := hfits.segment hfile.header htype
    cases hseg with
    | overflow hover => exact Nat.not_lt.mpr hover hlt
    | outside hout =>
      rw [Nat.mod_eq_of_lt hlt] at hout
      exact Nat.not_lt.mpr (hfile.segment htype) hout
    | memOverflow _ hover => exact Nat.not_lt.mpr hover (haddr (hfile.segment htype))

theorem Tracked.turn (h : Tracked data mem i s) (hfits : HeaderFits data mem i)
    (hturn : Turn data (ehdrAt T mem data.start) i s (.ok ()) s') :
    Tracked data mem (i + 1) s' := by
  have hover := (hturn.overflowed_eq_false h.mem_eq).mpr ⟨h.overflow, hfits⟩
  have hreads := hturn.reads_within h.mem_eq hfits h.reads
  have hext : InFile data mem i → ∀ j < i + 1, InFile data mem j ∧ HeaderFits data mem j := by
    intro hin j hj
    obtain hlt | rfl := Nat.lt_succ_iff_lt_or_eq.mp hj
    · exact h.passed j hlt
    · exact ⟨hin, hfits⟩
  have hmod := Nat.mod_eq_of_lt hfits.header
  cases hturn with
  | other hin htype =>
    rw [h.mem_eq] at htype
    have hnot : ¬IsLoad data mem i := htype
    refine ⟨?_, hext ⟨hmod ▸ hin, fun hload => absurd hload hnot⟩, hover, hreads, ?_, ?_, ?_⟩
    · rw [memoryAt_succ_of_not_isLoad hnot]
      exact h.mem_eq
    · exact fun a => (h.writes a).trans (exists_lt_succ_of_not_isLoad hnot _).symm
    · exact fun k => (h.base k).trans (or_congr_right (exists_lt_succ_of_not_isLoad hnot _).symm)
    · exact fun k => (h.stop k).trans (exists_lt_succ_of_not_isLoad hnot _).symm
  | segment hin htype hseg =>
    rw [h.mem_eq] at htype hseg
    change SegmentTurn data (segmentAt data mem i) _ _ _ at hseg
    have hload : IsLoad data mem i := htype
    obtain ⟨hfile, hplace, hareas, hbase, hend⟩ :=
      hseg.of_ok (hfits.segment (hmod ▸ hin) hload)
    refine ⟨?_, hext ⟨hmod ▸ hin, fun _ => hfile⟩, hover, hreads, fun a => ?_, fun k => ?_,
      fun k => ?_⟩
    · rw [hplace, memoryAt_succ_of_isLoad hload]
      exact congrArg (Segment.place data (segmentAt data mem i)) h.mem_eq
    · rw [hareas, exists_lt_succ_of_isLoad hload, List.mem_append]
      exact or_congr_left (h.writes a)
    · rw [hbase, exists_lt_succ_of_isLoad hload, ← or_assoc, min_lt_iff, or_comm]
      exact or_congr_left (h.base k)
    · rw [hend, exists_lt_succ_of_isLoad hload, lt_max_iff]
      exact or_congr_left (h.stop k)

/-! ## Whole runs -/

theorem Tracked.not_fits (h : Tracked data mem i s) (hheader : HasHeader data mem)
    (hi : i < T.asUsize (ehdrAt T mem data.start).ePhnum) (hfits : ¬HeaderFits data mem i) :
    ¬Fits data mem :=
  fun hall => hfits (hall hheader i hi fun j hj => (h.passed j hj).1)

/-- The loop stops at a header, and no sum has overflowed: the file has got no further. -/
theorem Tracked.stops (h : Tracked data mem i s) (hfits : HeaderFits data mem i)
    (hi : i < T.asUsize (ehdrAt T mem data.start).ePhnum) (hout : ¬InFile data mem i) :
    Fits data mem ∧ ¬Accepted data mem := by
  refine ⟨fun _ j _ hj => ?_, fun hacc => hout (hacc.inFile i hi)⟩
  obtain hlt | rfl | hgt := Nat.lt_trichotomy j i
  · exact (h.passed j hlt).2
  · exact hfits
  · exact absurd (hj i hgt) hout

theorem Tracked.accepted_iff (h : Tracked data mem (T.asUsize (ehdrAt T mem data.start).ePhnum) s)
    (hheader : HasHeader data mem) : Accepted data mem ↔ s.loadBase < s.loadEnd := by
  have harea : s.loadBase < s.loadEnd ↔
      ∃ i < T.asUsize (ehdrAt T mem data.start).ePhnum, IsLoad data mem i ∧
        s.loadBase < (segmentAt data mem i).memAddr + (segmentAt data mem i).memSize := h.stop _
  rw [harea]
  constructor
  · rintro ⟨-, -, i, hi, hload, hbelow⟩
    exact ⟨i, hi, hload, (h.base _).mpr (.inr hbelow)⟩
  · rintro ⟨i, hi, hload, hlt⟩
    obtain ⟨hin, hfits⟩ := h.passed i hi
    have haddr := (hfits.segment hin.header hload).2 (hin.segment hload)
    obtain hsize | hbelow := (h.base _).mp hlt
    · omega
    · exact ⟨hheader, fun j hj => (h.passed j hj).1, i, hi, hload, hbelow⟩

/-- A byte that is written is in the area returned unless it is a file byte behind all ends. -/
theorem Tracked.writes_in_iff
    (h : Tracked data mem (T.asUsize (ehdrAt T mem data.start).ePhnum) s) :
    (∀ a ∈ s.writes, ∀ k, a.start ≤ k → k < a.stop → s.loadBase ≤ k ∧ k < s.loadEnd) ↔
      FileBytesCovered data mem := by
  constructor
  · intro hwrites i hi hload hpos
    have hcopy : (⟨(segmentAt data mem i).memAddr, (segmentAt data mem i).fileSize⟩ : Area) ∈
        s.writes := (h.writes _).mpr ⟨i, hi, hload, List.mem_cons_self⟩
    have hlast := hwrites _ hcopy
      ((segmentAt data mem i).memAddr + (segmentAt data mem i).fileSize - 1) (by simp only; omega)
      (by simp only [Area.stop]; omega)
    obtain ⟨j, hj, hload', hlt⟩ := (h.stop _).mp hlast.2
    exact ⟨j, hj, hload', by omega⟩
  · intro hcovered a ha k hk hstop
    obtain ⟨i, hi, hload, ha⟩ := (h.writes a).mp ha
    have hbase := (h.base ((segmentAt data mem i).memAddr + 1)).mpr
      (.inr ⟨i, hi, hload, Nat.lt_succ_self _⟩)
    rcases List.mem_cons.mp ha with rfl | ha
    · simp only [Area.stop] at hk hstop
      obtain ⟨j, hj, hload', hle⟩ := hcovered i hi hload (by omega)
      exact ⟨by omega, (h.stop k).mpr ⟨j, hj, hload', by omega⟩⟩
    · split at ha
      · rw [List.mem_singleton.mp ha] at hk hstop
        simp only [Area.stop] at hk hstop
        exact ⟨by omega, (h.stop k).mpr ⟨i, hi, hload, by omega⟩⟩
      · cases ha

/-- The headers say that the loader stays in bounds. -/
structure LoadsInBounds (data : Slice T) (mem : ℕ → UInt8) : Prop where
  fits : Fits data mem
  covered : Accepted data mem → FileBytesCovered data mem

/-- No sum has overflowed in the turns below `i`, or one has and the headers say so. -/
def InStep (data : Slice T) (mem : ℕ → UInt8) (i : ℕ) (s : Loading) : Prop :=
  Tracked data mem i s ∨ s.overflowed = true ∧ ¬Fits data mem

theorem staysInBounds_iff_of_overflowed {out : Except Stop ElfLoadResult}
    (hover : s.overflowed = true) (hfits : ¬Fits data mem) :
    StaysInBounds data out s ↔ LoadsInBounds data mem := by
  refine iff_of_false (fun h => ?_) fun h => hfits h.fits
  exact Bool.false_ne_true (h.overflow.symm.trans hover)

theorem staysInBounds_iff_of_stopped {e : Stop} (hover : s.overflowed = false)
    (hreads : ∀ a ∈ s.reads, a.Within data.toArea) (hfits : Fits data mem)
    (hacc : ¬Accepted data mem) : StaysInBounds data (.error e) s ↔ LoadsInBounds data mem :=
  iff_of_true ⟨hover, hreads, fun r hr => by cases hr⟩ ⟨hfits, fun h => absurd h hacc⟩

theorem Turn.overflowed_eq_true {ehdr : Elf64Ehdr} {out : Except Stop Unit}
    (h : Turn data ehdr i s out s') (hover : s.overflowed = true) : s'.overflowed = true := by
  cases h with
  | overflow _ => simp [Loading.note, hover]
  | outside _ => simp [Loading.note, hover]
  | other _ _ => simp [Loading.saw, Loading.note, hover]
  | segment _ _ hseg =>
    refine Bool.eq_true_of_not_eq_false fun heq => ?_
    have hbefore := (hseg.overflowed_eq_false.mp heq).1
    simp [Loading.saw, Loading.note, hover] at hbefore

theorem InStep.turn (h : InStep data mem i s) (hheader : HasHeader data mem)
    (hi : i < T.asUsize (ehdrAt T mem data.start).ePhnum)
    (hturn : Turn data (ehdrAt T mem data.start) i s (.ok ()) s') : InStep data mem (i + 1) s' := by
  rcases h with h | ⟨hover, hfits⟩
  · by_cases hfits : HeaderFits data mem i
    · exact .inl (h.turn hfits hturn)
    · refine .inr ⟨Bool.eq_true_of_not_eq_false fun hover => hfits ?_, h.not_fits hheader hi hfits⟩
      exact ((hturn.overflowed_eq_false h.mem_eq).mp hover).2
  · exact .inr ⟨hturn.overflowed_eq_true hover, hfits⟩

theorem InStep.stop (h : InStep data mem i s) (hheader : HasHeader data mem)
    (hi : i < T.asUsize (ehdrAt T mem data.start).ePhnum) {e : Stop}
    (hturn : Turn data (ehdrAt T mem data.start) i s (.error e) s') :
    StaysInBounds data (.error e) s' ↔ LoadsInBounds data mem := by
  rcases h with h | ⟨hover, hfits⟩
  · have hover := hturn.overflowed_eq_false h.mem_eq
    by_cases hfits : HeaderFits data mem i
    · obtain ⟨hall, hacc⟩ := h.stops hfits hi (hturn.not_inFile h.mem_eq hfits)
      exact staysInBounds_iff_of_stopped (hover.mpr ⟨h.overflow, hfits⟩)
        (hturn.reads_within h.mem_eq hfits h.reads) hall hacc
    · refine staysInBounds_iff_of_overflowed ?_ (h.not_fits hheader hi hfits)
      exact Bool.eq_true_of_not_eq_false fun heq => hfits (hover.mp heq).2
  · exact staysInBounds_iff_of_overflowed (hturn.overflowed_eq_true hover) hfits

/-- The loader stays in bounds exactly if the sums made for the headers fit and, in a file that it
accepts, the memory of the segments covers their file bytes. -/
theorem load_elf_in_bounds_iff (data : Slice T) (mem : ℕ → UInt8) :
    StaysInBounds data (loadElf data (.start mem)).1 (loadElf data (.start mem)).2 ↔
      LoadsInBounds data mem := by
  have hrun : Ensures (loadElf data) (.start mem)
      (fun r s => StaysInBounds data (.ok r) s ↔ LoadsInBounds data mem)
      (fun e s => StaysInBounds data (.error e) s ↔ LoadsInBounds data mem) := by
    refine ensures_loadElf (I := InStep data mem) ?_ ?_ ?_ ?_ ?_
    · intro e s hs hno _
      exact staysInBounds_iff_of_stopped (by rw [hs.eq]; rfl) hs.reads
        (fun hheader => absurd hheader hno) fun hacc => hno hacc.header
    · exact fun _ s hs => .inl hs.tracked
    · exact fun hheader i hi s hs =>
        ⟨fun s' hturn => hs.turn hheader hi hturn, fun e s' hturn => hs.stop hheader hi hturn⟩
    · rintro hheader s (hs | ⟨hover, hfits⟩) hle
      · refine staysInBounds_iff_of_stopped hs.overflow hs.reads
          (fun _ j hj _ => (hs.passed j hj).2) fun hacc => ?_
        exact Nat.not_lt.mpr hle ((hs.accepted_iff hheader).mp hacc)
      · exact staysInBounds_iff_of_overflowed hover hfits
    · rintro hheader s (hs | ⟨hover, hfits⟩) hlt
      · have hacc := (hs.accepted_iff hheader).mpr hlt
        have hsum : s.loadBase + (s.loadEnd - s.loadBase) = s.loadEnd := by omega
        constructor
        · intro h
          have hwrites := h.writes _ rfl
          simp only [hsum] at hwrites
          exact ⟨fun _ j hj _ => (hs.passed j hj).2, fun _ => hs.writes_in_iff.mp hwrites⟩
        · intro h
          refine ⟨hs.overflow, hs.reads, fun r hr => ?_⟩
          cases hr
          simp only [hsum]
          exact hs.writes_in_iff.mpr (h.covered hacc)
      · exact staysInBounds_iff_of_overflowed hover hfits
  cases hload : loadElf data (.start mem) with
  | mk out s =>
    cases out with
    | error e => exact hrun.stops e s hload
    | ok r => exact hrun.returns r s hload

/-- A segment with two bytes in the file and one in memory: the second byte is written behind the
area returned. -/
theorem copies_behind_end :
    ¬StaysInBounds (smallSlice 1)
      (loadElf (smallSlice 1) (.start (smallMemory (ehdrBytes 1 ++ phdrBytes 1 0 16 2 1)))).1
      (loadElf (smallSlice 1) (.start (smallMemory (ehdrBytes 1 ++ phdrBytes 1 0 16 2 1)))).2 := by
  intro h
  have hcopy : (⟨16, 2⟩ : Area) ∈ (loadElf (smallSlice 1)
      (.start (smallMemory (ehdrBytes 1 ++ phdrBytes 1 0 16 2 1)))).2.writes := List.mem_cons_self
  have hbyte := h.writes ⟨16, 16, 1⟩ rfl _ hcopy 17 (by decide) (by decide)
  exact absurd hbyte.2 (by decide)

end OpenIon.Process.Elf
