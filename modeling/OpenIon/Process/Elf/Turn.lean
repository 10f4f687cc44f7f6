import OpenIon.Process.Elf.Loader

/-! # What a turn of the loader's loop does

`Turn` lists the ways in which a turn of the loop over the program headers can end, each with the
state after it. What holds of every run is derived from this list and the rule for loops.
-/
namespace OpenIon.Process.Elf

open Lib Lib.Fallible

variable {T : Target}

def Segment.areas (seg : Segment) : List Area :=
  ⟨seg.memAddr, seg.fileSize⟩ ::
    if seg.fileSize < seg.memSize then
      [⟨seg.memAddr + seg.fileSize, seg.memSize - seg.fileSize⟩] else []

/-- The file bytes of the segment and the zeros behind them are written. -/
def Segment.place (data : Slice T) (seg : Segment) (mem : ℕ → UInt8) : ℕ → UInt8 :=
  T.store (T.store mem seg.memAddr (T.load mem (data.start + seg.fileOffset) seg.fileSize))
    (seg.memAddr + seg.fileSize) (List.replicate (seg.memSize - seg.fileSize) 0)

namespace Loading

variable (s : Loading)

def note (T : Target) (n : ℕ) : Loading :=
  { s with overflowed := s.overflowed || decide (T.size ≤ n) }

def saw (a : Area) : Loading := { s with reads := s.reads ++ [a] }

def placed (data : Slice T) (seg : Segment) : Loading :=
  { s with
    mem := seg.place data s.mem
    loadBase := min seg.memAddr s.loadBase
    overflowed := s.overflowed || decide (T.size ≤ seg.memAddr + seg.memSize)
    reads := s.reads ++ [⟨data.start + seg.fileOffset, seg.fileSize⟩]
    writes := s.writes ++ seg.areas }

def ended (T : Target) (seg : Segment) : Loading :=
  { s with loadEnd := max s.loadEnd ((seg.memAddr + seg.memSize) % T.size) }

end Loading

inductive SegmentTurn (data : Slice T) (seg : Segment) (s : Loading) :
    Except Stop Unit → Loading → Prop where
  | overflow (h : T.size ≤ seg.fileOffset + seg.fileSize) :
    SegmentTurn data seg s (.error .panic) (s.note T (seg.fileOffset + seg.fileSize))
  | outside (h : data.len < (seg.fileOffset + seg.fileSize) % T.size) :
    SegmentTurn data seg s (.error (.error "Segment data out of bounds"))
      (s.note T (seg.fileOffset + seg.fileSize))
  | memOverflow (h : (seg.fileOffset + seg.fileSize) % T.size ≤ data.len)
    (hmem : T.size ≤ seg.memAddr + seg.memSize) :
    SegmentTurn data seg s (.error .panic)
      ((s.note T (seg.fileOffset + seg.fileSize)).placed data seg)
  | done (h : (seg.fileOffset + seg.fileSize) % T.size ≤ data.len) :
    SegmentTurn data seg s (.ok ())
      (((s.note T (seg.fileOffset + seg.fileSize)).placed data seg).ended T seg)

/-- Where the program header with this index is in the file, and where it ends. -/
def headerStart (T : Target) (ehdr : Elf64Ehdr) (i : ℕ) : ℕ :=
  T.asUsize ehdr.ePhoff + i * T.asUsize ehdr.ePhentsize

def headerStop (T : Target) (ehdr : Elf64Ehdr) (i : ℕ) : ℕ := headerStart T ehdr i + phdrSize

def headerAt (data : Slice T) (ehdr : Elf64Ehdr) (mem : ℕ → UInt8) (i : ℕ) : Elf64Phdr :=
  phdrAt T mem (data.start + headerStart T ehdr i % T.size)

inductive Turn (data : Slice T) (ehdr : Elf64Ehdr) (i : ℕ) (s : Loading) :
    Except Stop Unit → Loading → Prop where
  | overflow (h : T.size ≤ headerStop T ehdr i) :
    Turn data ehdr i s (.error .panic) (s.note T (headerStop T ehdr i))
  | outside (h : data.len < headerStop T ehdr i % T.size) :
    Turn data ehdr i s (.error (.error "Program header out of bounds"))
      (s.note T (headerStop T ehdr i))
  | other (h : headerStop T ehdr i % T.size ≤ data.len)
    (htype : (headerAt data ehdr s.mem i).pType ≠ ptLoad) :
    Turn data ehdr i s (.ok ()) ((s.note T (headerStop T ehdr i)).saw
      ⟨data.start + headerStart T ehdr i % T.size, phdrSize⟩)
  | segment {out : Except Stop Unit} {s' : Loading} (h : headerStop T ehdr i % T.size ≤ data.len)
    (htype : (headerAt data ehdr s.mem i).pType = ptLoad)
    (hseg : SegmentTurn data (segmentOf T (headerAt data ehdr s.mem i))
      ((s.note T (headerStop T ehdr i)).saw
        ⟨data.start + headerStart T ehdr i % T.size, phdrSize⟩) out s') :
    Turn data ehdr i s out s'

theorem Target.size_pos (T : Target) : 0 < T.size := Nat.two_pow_pos T.bits

theorem store_nil (mem : ℕ → UInt8) (pos : ℕ) : T.store mem pos [] = mem := rfl

theorem lower_loadBase (s : Loading) (a : ℕ) :
    (if a < s.loadBase then { s with loadBase := a } else s) =
      { s with loadBase := min a s.loadBase } := by
  split
  case isTrue h => rw [Nat.min_eq_left (Nat.le_of_lt h)]
  case isFalse h => rw [Nat.min_eq_right (Nat.not_lt.mp h)]

theorem raise_loadEnd (s : Loading) (a : ℕ) :
    (if s.loadEnd < a then { s with loadEnd := a } else s) =
      { s with loadEnd := max s.loadEnd a } := by
  split
  case isTrue h => rw [Nat.max_eq_right (Nat.le_of_lt h)]
  case isFalse h => rw [Nat.max_eq_left (Nat.not_lt.mp h)]

/-! Rules for the single steps. -/

variable {R : Stop → Loading → Prop}

theorem ensures_checked (n : ℕ) (s : Loading) :
    Ensures (T.checked n) s (fun v s' => v = n % T.size ∧ s' = s.note T n)
      (fun e s' => e = .panic ∧ T.size ≤ n ∧ s' = s.note T n) := by
  unfold Target.checked
  split
  case isTrue h =>
    apply ensures_pure
    refine ⟨(Nat.mod_eq_of_lt h).symm, ?_⟩
    simp [Loading.note, Nat.not_le.mpr h]
  case isFalse h =>
    have hnote : ({ s with overflowed := true } : Loading) = s.note T n := by
      simp [Loading.note, Nat.not_lt.mp h]
    apply Ensures.bind
    apply ensures_update
    rw [hnote]
    split
    · exact ensures_stop ⟨rfl, Nat.not_lt.mp h, rfl⟩
    · exact ensures_pure ⟨rfl, rfl⟩

theorem ensures_readBytes {s : Loading} {pos n : ℕ} {Q : List UInt8 → Loading → Prop}
    (h : Q (T.load s.mem pos n) (s.saw ⟨pos, n⟩)) : Ensures (readBytes T pos n) s Q R :=
  ensures_of_ok rfl h

theorem ensures_readEhdr {s : Loading} {pos : ℕ} {Q : Elf64Ehdr → Loading → Prop}
    (h : Q (ehdrAt T s.mem pos) (s.saw ⟨pos, ehdrSize⟩)) : Ensures (readEhdr T pos) s Q R :=
  ensures_of_ok rfl h

theorem ensures_readPhdr {s : Loading} {pos : ℕ} {Q : Elf64Phdr → Loading → Prop}
    (h : Q (phdrAt T s.mem pos) (s.saw ⟨pos, phdrSize⟩)) : Ensures (readPhdr T pos) s Q R :=
  ensures_of_ok rfl h

theorem ensures_zeroBss (seg : Segment) (s : Loading) :
    Ensures (zeroBss T seg) s
      (fun _ s' => s' = { s with
        mem := T.store s.mem (seg.memAddr + seg.fileSize)
          (List.replicate (seg.memSize - seg.fileSize) 0)
        writes := s.writes ++ seg.areas.tail }) R := by
  unfold zeroBss
  split
  case isTrue h =>
    apply ensures_update
    simp [Segment.areas, h]
  case isFalse h =>
    apply ensures_pure
    have hnone : seg.memSize - seg.fileSize = 0 := Nat.sub_eq_zero_of_le (Nat.not_lt.mp h)
    simp [Segment.areas, h, hnone, store_nil]

theorem ensures_loadSegment (data : Slice T) (seg : Segment) (s : Loading) :
    Ensures (loadSegment data seg) s (fun _ => SegmentTurn data seg s (.ok ()))
      (fun e => SegmentTurn data seg s (.error e)) := by
  unfold loadSegment
  apply Ensures.bind
  refine (ensures_checked _ _).mono ?_ ?_
  case refine_2 =>
    rintro e s' ⟨rfl, h, rfl⟩
    exact .overflow h
  rintro fileEnd s' ⟨rfl, rfl⟩
  split
  case isTrue h => exact ensures_stop (.outside h)
  case isFalse h =>
    apply Ensures.bind
    apply ensures_update
    apply Ensures.bind
    refine (ensures_zeroBss seg _).mono ?_ fun e s' h => h
    rintro - s' rfl
    apply Ensures.bind
    apply ensures_update
    rw [lower_loadBase]
    apply Ensures.bind
    refine (ensures_checked _ _).mono ?_ ?_
    · rintro memEnd s' ⟨rfl, rfl⟩
      apply ensures_update
      rw [raise_loadEnd]
      have hdone := SegmentTurn.done (s := s) (Nat.not_lt.mp h)
      simpa [Loading.ended, Loading.placed, Loading.note, Segment.place, Segment.areas] using hdone
    · rintro e s' ⟨rfl, hmem, rfl⟩
      have hpanic := SegmentTurn.memOverflow (s := s) (Nat.not_lt.mp h) hmem
      simpa [Loading.placed, Loading.note, Segment.place, Segment.areas] using hpanic

theorem note_of_le (s : Loading) {n : ℕ} (h : T.size ≤ n) :
    s.note T n = { s with overflowed := true } := by
  simp [Loading.note, h]

/-- A wrapped sum is noted, and then a sum with it: together they are as a sum that does not wrap. -/
theorem note_note_mod (s : Loading) (n c : ℕ) :
    (s.note T n).note T (n % T.size + c) = s.note T (n + c) := by
  have hmod := Nat.mod_le n T.size
  obtain hlt | hge := Nat.lt_or_ge n T.size
  · rw [Nat.mod_eq_of_lt hlt]
    simp [Loading.note, Nat.not_le.mpr hlt]
  · rw [note_of_le s hge, note_of_le s (Nat.le_add_right_of_le hge)]
    simp [Loading.note]

theorem ensures_loadHeader (data : Slice T) (ehdr : Elf64Ehdr) (i : ℕ) (s : Loading) :
    Ensures (loadHeader data (T.asUsize ehdr.ePhoff) (T.asUsize ehdr.ePhentsize) i) s
      (fun _ => Turn data ehdr i s (.ok ())) (fun e => Turn data ehdr i s (.error e)) := by
  have hpanic : ∀ n, T.size ≤ n → n ≤ headerStop T ehdr i →
      Turn data ehdr i s (.error .panic) (s.note T n) := by
    intro n hn hle
    rw [note_of_le _ hn, ← note_of_le _ (Nat.le_trans hn hle)]
    exact .overflow (Nat.le_trans hn hle)
  have hstop : headerStop T ehdr i =
      i * T.asUsize ehdr.ePhentsize + T.asUsize ehdr.ePhoff + phdrSize := by
    rw [headerStop, headerStart, Nat.add_comm (T.asUsize _)]
  unfold loadHeader
  apply Ensures.bind
  refine (ensures_checked _ _).mono ?_ ?_
  case refine_2 =>
    rintro e s' ⟨rfl, h, rfl⟩
    exact hpanic _ h (by omega)
  rintro skipped s' ⟨rfl, rfl⟩
  apply Ensures.bind
  refine (ensures_checked _ _).mono ?_ ?_
  case refine_2 =>
    rintro e s' ⟨rfl, h, rfl⟩
    have hmod := Nat.mod_le (i * T.asUsize ehdr.ePhentsize) T.size
    rw [Nat.add_comm, note_note_mod]
    exact hpanic _ (by omega) (by omega)
  rintro offset s' ⟨rfl, rfl⟩
  rw [Nat.add_comm (T.asUsize ehdr.ePhoff), note_note_mod, Nat.mod_add_mod]
  apply Ensures.bind
  refine (ensures_checked _ _).mono ?_ ?_
  case refine_2 =>
    rintro e s' ⟨rfl, h, rfl⟩
    have hmod := Nat.mod_le (i * T.asUsize ehdr.ePhentsize + T.asUsize ehdr.ePhoff) T.size
    rw [note_note_mod]
    exact hpanic _ (by omega) (by omega)
  rintro stop s' ⟨rfl, rfl⟩
  rw [note_note_mod, Nat.mod_add_mod, ← hstop, Nat.add_comm _ (T.asUsize ehdr.ePhoff)]
  split
  case isTrue h => exact ensures_stop (.outside h)
  case isFalse h =>
    have hin := Nat.not_lt.mp h
    apply Ensures.bind
    apply ensures_readPhdr
    split
    case isTrue htype => exact ensures_pure (.other hin htype)
    case isFalse htype =>
      have htype := Decidable.not_not.mp htype
      exact (ensures_loadSegment data _ _).mono (fun _ _ hseg => .segment hin htype hseg)
        fun _ _ hseg => .segment hin htype hseg

/-! ## Whole runs -/

/-- The checks of the file's header: `validateElf` and the test for `ET_EXEC`. -/
structure HasHeader (data : Slice T) (mem : ℕ → UInt8) : Prop where
  len : ehdrSize ≤ data.len
  magic : T.load mem data.start 4 = elfMagic
  cls : T.load mem (data.start + 4) 1 = [2]
  encoding : T.load mem (data.start + 5) 1 = [1]
  executable : (ehdrAt T mem data.start).eType = etExec

/-- So far the run has only read, and only in the file. -/
structure Scanning (data : Slice T) (mem : ℕ → UInt8) (s : Loading) : Prop where
  eq : s = { Loading.start mem with reads := s.reads }
  reads : ∀ a ∈ s.reads, a.Within data.toArea

section

variable {data : Slice T} {mem : ℕ → UInt8} {s : Loading}

theorem scanning_start : Scanning data mem (.start mem) :=
  ⟨rfl, fun a ha => by cases ha⟩

theorem Scanning.mem_eq (h : Scanning data mem s) : s.mem = mem := by rw [h.eq]; rfl

theorem Scanning.saw (h : Scanning data mem s) (pos : ℕ) {n : ℕ} (hlen : pos + n ≤ data.len) :
    Scanning data mem (s.saw ⟨data.start + pos, n⟩) where
  eq := by
    rw [h.eq]
    rfl
  reads := by
    refine List.forall_mem_append.mpr ⟨h.reads, List.forall_mem_singleton.mpr ?_⟩
    change (data.toArea.part ⟨pos, n⟩).Within data.toArea
    exact Area.part_within hlen

theorem ensures_expect (pos : ℕ) {n : ℕ} {want : List UInt8} {msg : String} {rest : Loader Unit}
    {Q : Unit → Loading → Prop} (hs : Scanning data mem s) (hlen : pos + n ≤ data.len)
    (hbad : ∀ s', Scanning data mem s' → T.load mem (data.start + pos) n ≠ want →
      R (.error msg) s')
    (hgood : ∀ s', Scanning data mem s' → T.load mem (data.start + pos) n = want →
      Ensures rest s' Q R) :
    Ensures (do
      let bytes ← readBytes T (data.start + pos) n
      if bytes ≠ want then stop (.error msg) else rest) s Q R := by
  apply Ensures.bind
  apply ensures_readBytes
  rw [hs.mem_eq]
  split
  case isTrue h => exact ensures_stop (hbad _ (hs.saw pos hlen) h)
  case isFalse h => exact hgood _ (hs.saw pos hlen) (Decidable.not_not.mp h)

theorem ensures_validateElf (hs : Scanning data mem s) :
    Ensures (validateElf data) s
      (fun _ s' => Scanning data mem s' ∧ ehdrSize ≤ data.len ∧
        ((ehdrAt T mem data.start).eType = etExec → HasHeader data mem))
      (fun e s' => Scanning data mem s' ∧ ¬HasHeader data mem ∧ e ≠ .panic) := by
  have herror : ∀ msg, Stop.error msg ≠ .panic := fun msg h => by cases h
  unfold validateElf
  split
  case isTrue h => exact ensures_stop ⟨hs, fun hh => Nat.not_lt.mpr hh.len h, herror _⟩
  case isFalse h =>
    have hlen : ehdrSize ≤ data.len := Nat.not_lt.mp h
    have h64 : 64 ≤ data.len := hlen
    refine ensures_expect 0 hs (by omega) ?_ fun s' hs hmagic => ?_
    · exact fun s' hs' h => ⟨hs', fun hh => h hh.magic, herror _⟩
    refine ensures_expect 4 hs (by omega) ?_ fun s' hs hcls => ?_
    · exact fun s' hs' h => ⟨hs', fun hh => h hh.cls, herror _⟩
    refine ensures_expect 5 hs (by omega) ?_ fun s' hs hencoding => ?_
    · exact fun s' hs' h => ⟨hs', fun hh => h hh.encoding, herror _⟩
    exact ensures_pure ⟨hs, hlen, fun htype => ⟨hlen, hmagic, hcls, hencoding, htype⟩⟩

/-- The rule for `loadElf`: an invariant of the turns, and what it gives at each of the ends. -/
theorem ensures_loadElf {I : ℕ → Loading → Prop} {Q : ElfLoadResult → Loading → Prop}
    (hhead : ∀ e s, Scanning data mem s → ¬HasHeader data mem → e ≠ .panic → R e s)
    (hstart : HasHeader data mem → ∀ s, Scanning data mem s →
      I 0 { s with loadBase := T.size - 1, loadEnd := 0 })
    (hturn : HasHeader data mem → ∀ i < T.asUsize (ehdrAt T mem data.start).ePhnum, ∀ s, I i s →
      (∀ s', Turn data (ehdrAt T mem data.start) i s (.ok ()) s' → I (i + 1) s') ∧
      ∀ e s', Turn data (ehdrAt T mem data.start) i s (.error e) s' → R e s')
    (hnone : HasHeader data mem → ∀ s, I (T.asUsize (ehdrAt T mem data.start).ePhnum) s →
      s.loadEnd ≤ s.loadBase → R (.error "No LOAD segments found") s)
    (hok : HasHeader data mem → ∀ s, I (T.asUsize (ehdrAt T mem data.start).ePhnum) s →
      s.loadBase < s.loadEnd → Q ⟨T.asUsize (ehdrAt T mem data.start).eEntry, s.loadBase,
        s.loadEnd - s.loadBase⟩ s) :
    Ensures (loadElf data) (.start mem) Q R := by
  unfold loadElf
  apply Ensures.bind
  refine (ensures_validateElf scanning_start).mono ?_ fun e s h => hhead e s h.1 h.2.1 h.2.2
  rintro - s ⟨hs, hlen, hheader⟩
  apply Ensures.bind
  apply ensures_readEhdr
  have hs' : Scanning data mem (s.saw ⟨data.start, ehdrSize⟩) := hs.saw 0 (by omega)
  rw [hs.mem_eq]
  split
  case isTrue h => exact ensures_stop (hhead _ _ hs' (fun hh => h hh.executable) (by simp))
  case isFalse h =>
    have hheader := hheader (Decidable.not_not.mp h)
    apply Ensures.bind
    apply ensures_update
    apply Ensures.bind
    refine (ensures_forRange (fun i hi s hI => ?_) (hstart hheader _ hs')).mono ?_ fun e s h => h
    · obtain ⟨hnext, herror⟩ := hturn hheader i hi s hI
      exact (ensures_loadHeader data _ i s).mono (fun _ s' h => hnext s' h) herror
    rintro - s' hI
    apply Ensures.bind
    apply ensures_get
    split
    case isTrue hle => exact ensures_stop (hnone hheader s' hI hle)
    case isFalse hlt => exact ensures_pure (hok hheader s' hI (Nat.not_le.mp hlt))

end

end OpenIon.Process.Elf
