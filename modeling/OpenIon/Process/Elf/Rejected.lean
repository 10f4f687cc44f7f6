import OpenIon.Process.Elf.Turn

/-! # Memory after a rejected file

Each segment is written before the next header is looked at. So a file that is rejected has left
memory alone exactly if no segment before the first bad header has any bytes.
-/
namespace OpenIon.Process.Elf

open Lib Lib.Fallible

variable {T : Target}

/-- The loop stops with an error at this header of the file. -/
def Rejects (data : Slice T) (mem : ℕ → UInt8) (i : ℕ) : Prop :=
  data.len < headerStop T (ehdrAt T mem data.start) i % T.size ∨
    (headerAt data (ehdrAt T mem data.start) mem i).pType = ptLoad ∧
      data.len < ((segmentOf T (headerAt data (ehdrAt T mem data.start) mem i)).fileOffset +
        (segmentOf T (headerAt data (ehdrAt T mem data.start) mem i)).fileSize) % T.size

def Blank (data : Slice T) (mem : ℕ → UInt8) (i : ℕ) : Prop :=
  (headerAt data (ehdrAt T mem data.start) mem i).pType = ptLoad →
    (segmentOf T (headerAt data (ehdrAt T mem data.start) mem i)).fileSize = 0 ∧
      (segmentOf T (headerAt data (ehdrAt T mem data.start) mem i)).memSize = 0

/-- Every header up to which none is rejected has nothing to write. -/
def BlankBeforeRejected (data : Slice T) (mem : ℕ → UInt8) : Prop :=
  HasHeader data mem → ∀ i < T.asUsize (ehdrAt T mem data.start).ePhnum,
    (∀ j ≤ i, ¬Rejects data mem j) → Blank data mem i

def Loading.WroteNothing (s : Loading) : Prop := ∀ a ∈ s.writes, a.len = 0

/-- After `i` turns: nothing has been written, or a header before had something to write. -/
inductive Progress (data : Slice T) (mem : ℕ → UInt8) (i : ℕ) (s : Loading) : Prop where
  | untouched (hmem : s.mem = mem) (hwrites : s.WroteNothing)
    (hpassed : ∀ j < i, ¬Rejects data mem j ∧ Blank data mem j)
  | written (hwrites : ¬s.WroteNothing) (j : ℕ) (hj : j < i) (hpassed : ∀ k ≤ j, ¬Rejects data mem k)
    (hblank : ¬Blank data mem j)

variable {data : Slice T} {mem : ℕ → UInt8} {s : Loading} {i : ℕ}

theorem wroteNothing_done (s : Loading) (seg : Segment) :
    (((s.note T (seg.fileOffset + seg.fileSize)).placed data seg).ended T seg).WroteNothing ↔
      s.WroteNothing ∧ seg.fileSize = 0 ∧ seg.memSize = 0 := by
  have hwrites : (((s.note T (seg.fileOffset + seg.fileSize)).placed data seg).ended T seg).writes =
      s.writes ++ seg.areas := rfl
  unfold Loading.WroteNothing
  rw [hwrites]
  simp only [List.mem_append, or_imp, forall_and]
  refine and_congr_right fun _ => ?_
  unfold Segment.areas
  by_cases h : seg.fileSize < seg.memSize
  · simp [h]
    omega
  · simp [h]
    omega

theorem done_mem_eq (s : Loading) {seg : Segment} (hfile : seg.fileSize = 0)
    (hmem : seg.memSize = 0) :
    (((s.note T (seg.fileOffset + seg.fileSize)).placed data seg).ended T seg).mem = s.mem := by
  simp only [Loading.ended, Loading.placed, Segment.place, hfile, hmem]
  rfl

theorem SegmentTurn.writes_subset {seg : Segment} {out : Except Stop Unit} {s' : Loading}
    (h : SegmentTurn data seg s out s') : s.writes ⊆ s'.writes := by
  cases h with
  | overflow _ => exact List.Subset.refl _
  | outside _ => exact List.Subset.refl _
  | memOverflow _ _ => exact List.subset_append_left _ _
  | done _ => exact List.subset_append_left _ _

theorem Turn.writes_subset {ehdr : Elf64Ehdr} {out : Except Stop Unit} {s' : Loading}
    (h : Turn data ehdr i s out s') : s.writes ⊆ s'.writes := by
  cases h with
  | overflow _ => exact List.Subset.refl _
  | outside _ => exact List.Subset.refl _
  | other _ _ => exact List.Subset.refl _
  | segment _ _ hseg => exact hseg.writes_subset

/-- A turn that goes on. -/
theorem Progress.turn (hp : Progress data mem i s) {s' : Loading}
    (hturn : Turn data (ehdrAt T mem data.start) i s (.ok ()) s') :
    Progress data mem (i + 1) s' := by
  cases hp with
  | written hwrites j hj hpassed hblank =>
    refine .written (fun hnone => hwrites fun a ha => ?_) j (by omega) hpassed hblank
    exact hnone a (hturn.writes_subset ha)
  | untouched hmem hwrites hpassed =>
    subst hmem
    have hext : ¬Rejects data s.mem i ∧ Blank data s.mem i →
        ∀ j < i + 1, ¬Rejects data s.mem j ∧ Blank data s.mem j := by
      intro hi j hj
      obtain hlt | rfl := Nat.lt_succ_iff_lt_or_eq.mp hj
      · exact hpassed j hlt
      · exact hi
    cases hturn with
    | other hin htype =>
      refine .untouched rfl hwrites (hext ⟨?_, fun h => absurd h htype⟩)
      exact fun h => h.elim (fun h => Nat.not_lt.mpr hin h) fun h => htype h.1
    | segment hin htype hseg =>
      cases hseg with
      | done hfile =>
        have hpass : ¬Rejects data s.mem i := fun h =>
          h.elim (fun h => Nat.not_lt.mpr hin h) fun h => Nat.not_lt.mpr hfile h.2
        by_cases hblank : Blank data s.mem i
        · refine .untouched ?_ ?_ (hext ⟨hpass, hblank⟩)
          · exact done_mem_eq _ (hblank htype).1 (hblank htype).2
          · exact (wroteNothing_done _ _).mpr ⟨hwrites, hblank htype⟩
        · refine .written (fun hnone => hblank fun _ => ?_) i (Nat.lt_succ_self i) ?_ hblank
          · exact ((wroteNothing_done _ _).mp hnone).2
          · intro k hk
            obtain hlt | rfl := Nat.lt_or_eq_of_le hk
            · exact (hpassed k hlt).1
            · exact hpass

/-- A header that had something to write is not behind a rejected one. -/
theorem not_blankBeforeRejected (hheader : HasHeader data mem) {j : ℕ}
    (hj : j < T.asUsize (ehdrAt T mem data.start).ePhnum) (hpassed : ∀ k ≤ j, ¬Rejects data mem k)
    (hblank : ¬Blank data mem j) : ¬BlankBeforeRejected data mem :=
  fun h => hblank (h hheader j hj hpassed)

theorem Progress.stop (hp : Progress data mem i s) (hheader : HasHeader data mem)
    (hi : i < T.asUsize (ehdrAt T mem data.start).ePhnum) {msg : String} {s' : Loading}
    (hturn : Turn data (ehdrAt T mem data.start) i s (.error (.error msg)) s') :
    s'.WroteNothing ↔ BlankBeforeRejected data mem := by
  cases hp with
  | written hwrites j hj hpassed hblank =>
    have hno := not_blankBeforeRejected hheader (Nat.lt_trans hj hi) hpassed hblank
    refine iff_of_false (fun hnone => hwrites fun a ha => ?_) hno
    exact hnone a (hturn.writes_subset ha)
  | untouched hmem hwrites hpassed =>
    subst hmem
    have hstop : Rejects data s.mem i ∧ s'.writes = s.writes := by
      cases hturn with
      | outside hout => exact ⟨.inl hout, rfl⟩
      | segment hin htype hseg =>
        cases hseg with
        | outside hout => exact ⟨.inr ⟨htype, hout⟩, rfl⟩
    refine iff_of_true (fun a ha => hwrites a (hstop.2 ▸ ha)) fun _ j _ hj => ?_
    obtain hlt | hge := Nat.lt_or_ge j i
    · exact (hpassed j hlt).2
    · exact absurd hstop.1 (hj i hge)

theorem Progress.none (hheader : HasHeader data mem)
    (hp : Progress data mem (T.asUsize (ehdrAt T mem data.start).ePhnum) s) :
    s.WroteNothing ↔ BlankBeforeRejected data mem := by
  cases hp with
  | written hwrites j hj hpassed hblank =>
    exact iff_of_false hwrites (not_blankBeforeRejected hheader hj hpassed hblank)
  | untouched _ hwrites hpassed => exact iff_of_true hwrites fun _ j hj _ => (hpassed j hj).2

/-- A rejected file has left memory alone exactly if the segments before the first bad header are
empty. -/
theorem rejected_writes_nothing_iff (data : Slice T) (mem : ℕ → UInt8) {msg : String} {s : Loading}
    (h : loadElf data (.start mem) = (.error (.error msg), s)) :
    s.WroteNothing ↔ BlankBeforeRejected data mem := by
  have hrun : Ensures (loadElf data) (.start mem) (fun _ _ => True) fun e s =>
      ∀ msg, e = .error msg → (s.WroteNothing ↔ BlankBeforeRejected data mem) := by
    refine ensures_loadElf (I := Progress data mem) ?_ ?_ ?_ ?_ fun _ _ _ _ => trivial
    · intro e s hs hno _ _ _
      refine iff_of_true (fun a ha => ?_) fun hheader => absurd hheader hno
      rw [hs.eq] at ha
      cases ha
    · intro _ s hs
      refine .untouched hs.mem_eq (fun a ha => ?_) fun j hj => absurd hj (Nat.not_lt_zero j)
      rw [hs.eq] at ha
      cases ha
    · intro hheader i hi s hp
      refine ⟨fun s' hturn => hp.turn hturn, ?_⟩
      rintro e s' hturn msg rfl
      exact hp.stop hheader hi hturn
    · exact fun hheader s hp _ msg _ => hp.none hheader
  exact hrun.stops _ s h msg rfl

theorem rejected_first_header :
    loadElf (smallSlice 1) (.start (smallMemory (ehdrBytes 1 ++ phdrBytes 1 255 16 255 255))) =
        (.error (.error "Segment data out of bounds"),
          (loadElf (smallSlice 1)
            (.start (smallMemory (ehdrBytes 1 ++ phdrBytes 1 255 16 255 255)))).2) ∧
      ((loadElf (smallSlice 1)
          (.start (smallMemory (ehdrBytes 1 ++ phdrBytes 1 255 16 255 255)))).2.WroteNothing ↔
        BlankBeforeRejected (smallSlice 1)
          (smallMemory (ehdrBytes 1 ++ phdrBytes 1 255 16 255 255))) :=
  ⟨rfl, rejected_writes_nothing_iff _ _ rfl⟩

/-- A good segment before a bad one: it has been written when the file is rejected. -/
theorem rejected_after_copy :
    (loadElf (smallSlice 2) (.start (smallMemory
        (ehdrBytes 2 ++ phdrBytes 1 0 16 4 4 ++ phdrBytes 1 255 32 255 255)))).1 =
        .error (.error "Segment data out of bounds") ∧
      ¬(loadElf (smallSlice 2) (.start (smallMemory
        (ehdrBytes 2 ++ phdrBytes 1 0 16 4 4 ++ phdrBytes 1 255 32 255 255)))).2.WroteNothing := by
  refine ⟨rfl, fun h => ?_⟩
  have hlen := h ⟨16, 4⟩ List.mem_cons_self
  cases hlen

end OpenIon.Process.Elf
