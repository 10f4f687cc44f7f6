import OpenIon.Drivers.VirtioBlk.Machine

/-! # Stale sectors

A call that times out leaves its request with the device. If the device has read the
header of that request but not yet written its status, the status answers the next
call, with the data of the old sector. Without such a request in flight, whatever the
device writes after the new header was stored is the new sector.
-/
namespace OpenIon.Drivers.VirtioBlk
open Lib

variable {disk : ℕ → ℕ → UInt8} {pollLimit s : ℕ} {w w' : World}

/-- A call that returned `true` filled the buffer with the sector it was asked for. -/
def NotStale (disk : ℕ → ℕ → UInt8) (w : World) : Prop :=
  ∀ s, w.driver = .returned s true → ∀ i < sectorSize, w.buf i = disk s i

/-- The driver stores a sector number while the device serves a request it has read. -/
def overtakes (w : World) : Act → Bool
  | .drive =>
    match w.driver, w.device with
    | .writeSector _, .serving _ _ => true
    | _, _ => false
  | _ => false

def Holds (disk : ℕ → ℕ → UInt8) (w : World) (s : ℕ) : Prop :=
  ∀ i < sectorSize, w.reqData i = disk s i

/-- Only sector `s` is requested and served. -/
structure Serves (disk : ℕ → ℕ → UInt8) (w : World) (s : ℕ) : Prop where
  sector : w.reqSector = s
  served : ∀ s' pos, w.device = .serving s' pos → s' = s ∧ ∀ i < pos, w.reqData i = disk s i

/-- What holds at each position of the driver. -/
def Inv (disk : ℕ → ℕ → UInt8) (w : World) : Prop :=
  match w.driver with
  | .idle | .writeSector _ => True
  | .writeStatus s => Serves disk w s
  | .publish s | .poll s _ | .check s => Serves disk w s ∧ (w.reqStatus = 0 → Holds disk w s)
  | .copy s pos => Serves disk w s ∧ Holds disk w s ∧ ∀ i < pos, w.buf i = disk s i
  | .returned s ok => ok = true → ∀ i < sectorSize, w.buf i = disk s i

theorem Inv.notStale (h : Inv disk w) : NotStale disk w := by
  intro s hs
  rw [Inv, hs] at h
  exact h rfl

theorem serve_cases {act : DeviceAct} (h : serve disk w act = some w') :
    w' = { w with lastAvailIdx := w.lastAvailIdx + 1, device := .serving w.reqSector 0 } ∨
    (∃ s pos, w.device = .serving s pos ∧ w' = { w with
      reqData := Function.update w.reqData pos (disk s pos), device := .serving s (pos + 1) }) ∨
    (∃ s, w.device = .serving s sectorSize ∧
      w' = { w with reqStatus := 0, device := .completing }) ∨
    w' = { w with reqStatus := 1, device := .completing } ∨
    w' = { w with usedIdx := w.usedIdx + 1, device := .idle } := by
  cases act with
  | fetch =>
    simp only [serve] at h
    split_ifs at h
    exact .inl (Option.some.inj h).symm
  | writeByte =>
    simp only [serve] at h
    split at h
    case _ s pos hdev =>
      split_ifs at h
      exact .inr (.inl ⟨s, pos, hdev, (Option.some.inj h).symm⟩)
    case _ => cases h
  | writeStatus =>
    simp only [serve] at h
    split at h
    case _ s pos hdev =>
      split_ifs at h with hpos
      exact .inr (.inr (.inl ⟨s, hpos ▸ hdev, (Option.some.inj h).symm⟩))
    case _ => cases h
  | fail =>
    simp only [serve] at h
    split at h
    case _ => exact .inr (.inr (.inr (.inl (Option.some.inj h).symm)))
    case _ => cases h
  | complete =>
    simp only [serve] at h
    split at h
    case _ => exact .inr (.inr (.inr (.inr (Option.some.inj h).symm)))
    case _ => cases h

/-- While the device serves sector `s` only, a stored sector `s` stays stored and a zero
status means that it is stored. -/
theorem Serves.serve (h : Serves disk w s) {act : DeviceAct} (hstep : serve disk w act = some w') :
    Serves disk w' s ∧ (Holds disk w s → Holds disk w' s) ∧
      ((w.reqStatus = 0 → Holds disk w s) → w'.reqStatus = 0 → Holds disk w' s) := by
  rcases serve_cases hstep with rfl | ⟨s', pos, hdev, rfl⟩ | ⟨s', hdev, rfl⟩ | rfl | rfl
  · refine ⟨⟨h.sector, ?_⟩, id, id⟩
    rintro s' pos ⟨⟩
    exact ⟨h.sector, by simp⟩
  · rcases h.served s' pos hdev with ⟨rfl, hdone⟩
    have hkeep : ∀ i, w.reqData i = disk s' i →
        Function.update w.reqData pos (disk s' pos) i = disk s' i := by
      intro i hi
      by_cases hpos : i = pos
      · simp [hpos]
      · rwa [Function.update_of_ne hpos]
    refine ⟨⟨h.sector, ?_⟩, fun hall i hi => hkeep i (hall i hi),
      fun hall hzero i hi => hkeep i (hall hzero i hi)⟩
    rintro s'' pos' ⟨⟩
    refine ⟨rfl, fun i hi => ?_⟩
    rcases Nat.lt_succ_iff_lt_or_eq.mp hi with hi | rfl
    · exact hkeep i (hdone i hi)
    · exact Function.update_self ..
  · rcases h.served s' _ hdev with ⟨rfl, hdone⟩
    refine ⟨⟨h.sector, ?_⟩, id, fun _ _ => hdone⟩
    rintro s'' pos' ⟨⟩
  · refine ⟨⟨h.sector, ?_⟩, id, fun _ hzero => absurd hzero (show (1 : UInt8) ≠ 0 by decide)⟩
    rintro s' pos ⟨⟩
  · refine ⟨⟨h.sector, ?_⟩, id, id⟩
    rintro s' pos ⟨⟩

theorem serve_frame {act : DeviceAct} (hstep : serve disk w act = some w') :
    w'.driver = w.driver ∧ w'.buf = w.buf := by
  rcases serve_cases hstep with rfl | ⟨s', pos, -, rfl⟩ | ⟨s', -, rfl⟩ | rfl | rfl <;>
    exact ⟨rfl, rfl⟩

theorem Inv.serve (h : Inv disk w) {act : DeviceAct} (hstep : serve disk w act = some w') :
    Inv disk w' := by
  rcases serve_frame hstep with ⟨hdriver, hbuf⟩
  rw [Inv] at h ⊢
  rw [hdriver, hbuf]
  split at h
  · trivial
  · trivial
  · exact (h.serve hstep).1
  · exact ⟨(h.1.serve hstep).1, (h.1.serve hstep).2.2 h.2⟩
  · exact ⟨(h.1.serve hstep).1, (h.1.serve hstep).2.2 h.2⟩
  · exact ⟨(h.1.serve hstep).1, (h.1.serve hstep).2.2 h.2⟩
  · exact ⟨(h.1.serve hstep).1, (h.1.serve hstep).2.1 h.2.1, h.2.2⟩
  · exact h

theorem Inv.drive (h : Inv disk w) (hok : overtakes w .drive = false)
    (hstep : drive pollLimit w = some w') : Inv disk w' := by
  rw [VirtioBlk.drive] at hstep
  rw [Inv] at h
  split at hstep
  case _ => cases hstep
  case _ s hpc =>
    cases hstep
    refine ⟨rfl, ?_⟩
    intro s' pos hdev
    change w.device = _ at hdev
    simp [overtakes, hpc, hdev] at hok
  case _ s hpc =>
    cases hstep
    rw [hpc] at h
    exact ⟨⟨h.sector, h.served⟩, fun hzero => absurd hzero (show (0xFF : UInt8) ≠ 0 by decide)⟩
  case _ s hpc =>
    cases hstep
    rw [hpc] at h
    exact ⟨⟨h.1.sector, h.1.served⟩, h.2⟩
  case _ s spins hpc =>
    rw [hpc] at h
    split_ifs at hstep
    · cases hstep
      exact ⟨⟨h.1.sector, h.1.served⟩, h.2⟩
    · cases hstep
      exact ⟨⟨h.1.sector, h.1.served⟩, h.2⟩
    · cases hstep
      intro hfalse
      cases hfalse
  case _ s hpc =>
    rw [hpc] at h
    split_ifs at hstep with hzero
    · cases hstep
      exact ⟨⟨h.1.sector, h.1.served⟩, h.2 hzero, by simp⟩
    · cases hstep
      intro hfalse
      cases hfalse
  case _ s pos hpc =>
    rw [hpc] at h
    rcases h with ⟨hserves, hholds, hbuf⟩
    split_ifs at hstep with hpos
    · cases hstep
      refine ⟨⟨hserves.sector, hserves.served⟩, hholds, ?_⟩
      intro i hi
      by_cases hipos : i = pos
      · subst hipos
        exact (Function.update_self ..).trans (hholds i hpos)
      · exact (Function.update_of_ne hipos ..).trans (hbuf i (by omega))
    · cases hstep
      exact fun _ i hi => hbuf i (by omega)
  case _ s ok hpc =>
    cases hstep
    trivial

theorem Inv.step (h : Inv disk w) {a : Act} (hok : overtakes w a = false)
    (hstep : step pollLimit disk w a = some w') : Inv disk w' := by
  cases a with
  | call s =>
    cases hstep
    split_ifs
    · trivial
    · exact h
  | drive => exact h.drive hok hstep
  | device act => exact h.serve hstep

/-- No call returns a stale sector as long as no sector number is stored while the device
serves a request it has read. -/
theorem reads_not_stale (pollLimit : ℕ) (disk : ℕ → ℕ → UInt8) (acts : List Act)
    (halong : Along (step pollLimit disk) (fun w a => overtakes w a = false) World.new acts) :
    Always (step pollLimit disk) (NotStale disk) World.new acts := by
  have hinit : Inv disk World.new := trivial
  have hinv := halong.always (P := Inv disk) (fun w a w' h hok hstep => h.step hok hstep) hinit
  exact hinv.imp fun w h => h.notStale

/-- `OPENION_VIRTIO_BLK_POLL_LIMIT` in the generated configuration. -/
def defaultPollLimit : ℕ := 2000000

def numbered (sector _pos : ℕ) : UInt8 := UInt8.ofNat sector

def request (sector : ℕ) : List Act := [.call sector, .drive, .drive, .drive]

def answer : List Act :=
  List.replicate sectorSize (.device .writeByte) ++ [.device .writeStatus, .device .complete]

def collect : List Act := [.drive, .drive] ++ List.replicate sectorSize .drive ++ [.drive]

theorem answered_read_not_stale :
    let acts := request 1 ++ [.device .fetch] ++ answer ++ collect
    Always (step defaultPollLimit numbered) (NotStale numbered) World.new acts ∧
      (run (step defaultPollLimit numbered) World.new acts).map World.driver =
        some (.returned 1 true) := by
  intro acts
  exact ⟨reads_not_stale defaultPollLimit numbered acts (by decide +kernel), by decide +kernel⟩

theorem run_polls (n spins : ℕ) (hpc : w.driver = .poll s spins)
    (hused : w.usedIdx = w.lastUsedIdx) (hlimit : spins + n ≤ pollLimit) :
    run (step pollLimit disk) w (List.replicate n .drive) =
      some { w with driver := .poll s (spins + n) } := by
  induction n generalizing w spins with
  | zero => simp [← hpc]
  | succ n ih =>
    have hstep : step pollLimit disk w .drive = some { w with driver := .poll s (spins + 1) } := by
      simp [step, drive, hpc, hused, show spins < pollLimit by omega]
    rw [List.replicate_succ, run_cons, hstep, Option.bind_some,
      ih (w := { w with driver := .poll s (spins + 1) }) (spins + 1) rfl hused (by omega)]
    simp [Nat.add_right_comm, Nat.add_assoc]

/-- The read of sector 0 times out while the device serves it; the read of sector 1 then
returns sector 0. -/
def staleTrace : List Act :=
  request 0 ++ [.device .fetch] ++ List.replicate defaultPollLimit .drive ++
    ([.drive, .drive] ++ request 1 ++ answer ++ collect)

theorem read_after_timeout_is_stale :
    ∃ w, run (step defaultPollLimit numbered) World.new staleTrace = some w ∧
      ¬ NotStale numbered w := by
  let pending (spins : ℕ) : World := { World.new with
    reqStatus := 0xFF
    availIdx := 1
    lastAvailIdx := 1
    driver := .poll 0 spins
    device := .serving 0 0 }
  have hfirst : run (step defaultPollLimit numbered) World.new (request 0 ++ [.device .fetch]) =
      some (pending 0) := rfl
  have hpolls : run (step defaultPollLimit numbered) (pending 0)
      (List.replicate defaultPollLimit .drive) = some (pending defaultPollLimit) := by
    rw [run_polls defaultPollLimit 0 rfl rfl (Nat.le_of_eq (Nat.zero_add _)), Nat.zero_add]
  have hrest : (run (step defaultPollLimit numbered) (pending defaultPollLimit)
      ([.drive, .drive] ++ request 1 ++ answer ++ collect)).map (fun w => (w.driver, w.buf 0)) =
      some (.returned 1 true, 0) := by
    decide +kernel
  rcases Option.map_eq_some_iff.mp hrest with ⟨w, hw, hresult⟩
  refine ⟨w, ?_, ?_⟩
  · rw [staleTrace, run_append, run_append, hfirst, Option.bind_some, hpolls, Option.bind_some, hw]
  · intro hstale
    rw [Prod.mk.injEq] at hresult
    have hbuf := hstale 1 hresult.1 0 (by decide)
    rw [hresult.2] at hbuf
    exact absurd hbuf (by decide)

end OpenIon.Drivers.VirtioBlk
