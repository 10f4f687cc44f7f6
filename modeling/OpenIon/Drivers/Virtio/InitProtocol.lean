import OpenIon.Drivers.Virtio.Init

/-! # The initialisation protocol

A monitor of the register accesses records what the protocol of VirtIO asks for: the status writes,
whether the queue is set up and notified too early, and what the device answered about the length of
its queue. The device gives arbitrary answers, but it reads back the status written to it, from
which it may only take away `FEATURES_OK`.
-/
namespace OpenIon.Drivers.Virtio
open Lib
open Driver (DriverErr)

structure Log where
  /-- The values written to the status register. -/
  writes : List UInt32
  /-- The device has read back `FEATURES_OK`. -/
  negotiated : Bool
  /-- A queue register was written before that. -/
  earlyQueue : Bool
  /-- The queue was notified while the status was without `DRIVER_OK`. -/
  earlyNotify : Bool
  /-- The answers about the length of the queue. -/
  queueMax : List UInt32
  deriving DecidableEq

def Log.new : Log := ⟨[], false, false, false, []⟩

def Log.driverOk (s : Log) : Bool := s.writes.getLast?.any (· &&& Status.driverOk ≠ 0)

def Reg.ofQueue : Reg → Bool
  | queueSel | queueNum | queueReady => true
  | queueDescLow | queueDescHigh | queueDriverLow | queueDriverHigh => true
  | queueDeviceLow | queueDeviceHigh => true
  | _ => false

def Log.observe (s : Log) : Access → UInt32 → Log
  | .read .status, v => { s with negotiated := s.negotiated || v &&& Status.featuresOk ≠ 0 }
  | .read .queueNumMax, v => { s with queueMax := s.queueMax ++ [v] }
  | .write .status val, _ => { s with writes := s.writes ++ [val] }
  | .write .queueNotify _, _ => { s with earlyNotify := s.earlyNotify || !s.driverOk }
  | .write reg _, _ =>
    if reg.ofQueue then { s with earlyQueue := s.earlyQueue || !s.negotiated } else s
  | _, _ => s

/-- The status is read back as it was written, or without `FEATURES_OK`. -/
def Log.Honest (s : Log) (op : Access) (v : UInt32) : Prop :=
  op = .read .status → ∀ w ∈ s.writes.getLast?, v = w ∨ v = w &&& ~~~Status.featuresOk

def monitor : Monitor Access UInt32 Log := ⟨Log.observe, Log.Honest⟩

/-- The protocol, for the accesses of a call of `init_hw` and its result. -/
structure Protocol (s : Log) (r : Except DriverErr Unit) : Prop where
  /-- After the reset come `ACKNOWLEDGE` and then `DRIVER`. -/
  order : s.writes = [] ∨
    [0, Status.acknowledge, Status.acknowledge ||| Status.driver] <+: s.writes
  queue : s.earlyQueue = false
  notify : s.earlyNotify = false
  /-- An error after the reset leaves `FAILED` set and `DRIVER_OK` clear. -/
  failure : ∀ e, r = .error e → s.writes ≠ [] → ∃ w, s.writes.getLast? = some w ∧
    w &&& Status.failed ≠ 0 ∧ w &&& Status.driverOk = 0

/-- The block and RNG drivers keep to the protocol when the queue of the device is long enough, the
GPU driver when it is not. -/
def VirtioDriver.QueueAnswer (answers : List UInt32) : VirtioDriver → Prop
  | blk => ∀ max ∈ answers, 16 ≤ max.toNat
  | gpu => ∀ max ∈ answers, max.toNat < 8
  | rng => ∀ max ∈ answers, 8 ≤ max.toNat

/-! ## The transport -/

variable {s : Log}

theorem ensures_read32 {reg : Reg} {Q : UInt32 → Log → Prop}
    (h : ∀ v, s.Honest (.read reg) v → Q v (s.observe (.read reg) v)) :
    monitor.Ensures (read32 reg) s Q :=
  Monitor.ensures_call fun v hv => Monitor.ensures_ret (h v hv)

theorem ensures_write32 {reg : Reg} {val : UInt32} {Q : Unit → Log → Prop}
    (h : ∀ v, Q () (s.observe (.write reg val) v)) :
    monitor.Ensures (write32 reg val) s Q :=
  Monitor.ensures_call fun v _ => Monitor.ensures_ret (h v)

theorem ensures_validateDevice (deviceId : UInt32) (allowLegacy : Bool)
    {Q : Except VirtioError UInt32 → Log → Prop} (h : ∀ r, Q r s) :
    monitor.Ensures (validateDevice deviceId allowLegacy) s Q := by
  refine Monitor.Ensures.bind (ensures_read32 fun magic _ => ?_)
  split
  · exact Monitor.ensures_ret (h _)
  refine Monitor.Ensures.bind (ensures_read32 fun version _ => ?_)
  split
  · exact Monitor.ensures_ret (h _)
  split
  · exact Monitor.ensures_ret (h _)
  refine Monitor.Ensures.bind (ensures_read32 fun id _ => ?_)
  split
  · exact Monitor.ensures_ret (h _)
  · exact Monitor.ensures_ret (h _)

theorem ensures_setStatusBits {bits w : UInt32} (hw : s.writes.getLast? = some w)
    {Q : Unit → Log → Prop}
    (h : ∀ v, v = w ∨ v = w &&& ~~~Status.featuresOk →
      Q () { s with writes := s.writes ++ [v ||| bits],
                    negotiated := s.negotiated || v &&& Status.featuresOk ≠ 0 }) :
    monitor.Ensures (setStatusBits bits) s Q := by
  refine Monitor.Ensures.bind (ensures_read32 fun v hv => ?_)
  exact ensures_write32 fun _ => h v (hv rfl w hw)

/-! The logs of the beginning of `init_hw`. -/

def Log.started : Log := ⟨[0, 1, 3], false, false, false, []⟩

def Log.refused : Log := ⟨[0, 1, 3, 11], false, false, false, []⟩

def Log.ready : Log := ⟨[0, 1, 3, 11], true, false, false, []⟩

def Log.withQueue (max : UInt32) : Log := { Log.ready with queueMax := [max] }

theorem ensures_acceptFeatures (selected : FeatureSet)
    {Q : Except VirtioError FeatureSet → Log → Prop} (hrefused : ∀ e, Q (.error e) .refused)
    (hready : ∀ f, Q (.ok f) .ready) :
    monitor.Ensures (acceptFeatures selected) .started Q := by
  have hwrite : monitor.Ensures (writeDriverFeatures selected) .started
      fun _ s => s = .started := by
    refine Monitor.Ensures.bind (ensures_write32 fun _ => ?_)
    refine Monitor.Ensures.bind (ensures_write32 fun _ => ?_)
    refine Monitor.Ensures.bind (ensures_write32 fun _ => ?_)
    exact ensures_write32 fun _ => rfl
  refine Monitor.Ensures.bind (hwrite.mono ?_)
  rintro _ s rfl
  refine Monitor.Ensures.bind (ensures_setStatusBits rfl fun v hv => ?_)
  obtain rfl : v = 3 := by
    rcases hv with rfl | rfl
    · rfl
    · decide
  refine Monitor.Ensures.bind (ensures_read32 fun v hv => ?_)
  rcases hv rfl 11 rfl with rfl | rfl
  · exact Monitor.ensures_ret (hready _)
  · exact Monitor.ensures_ret (hrefused _)

theorem ensures_negotiateFeatures (version : UInt32) (requested : FeatureSet)
    {Q : Except VirtioError FeatureSet → Log → Prop} (hstarted : ∀ e, Q (.error e) .started)
    (hrefused : ∀ e, Q (.error e) .refused) (hready : ∀ f, Q (.ok f) .ready) :
    monitor.Ensures (negotiateFeatures version requested) .started Q := by
  have hdevice : monitor.Ensures deviceFeatures .started fun _ s => s = .started := by
    refine Monitor.Ensures.bind (ensures_write32 fun _ => ?_)
    refine Monitor.Ensures.bind (ensures_read32 fun _ _ => ?_)
    refine Monitor.Ensures.bind (ensures_write32 fun _ => ?_)
    refine Monitor.Ensures.bind (ensures_read32 fun _ _ => ?_)
    exact Monitor.ensures_ret rfl
  refine Monitor.Ensures.bind (hdevice.mono ?_)
  rintro device s rfl
  dsimp only
  split
  · split
    · exact Monitor.ensures_ret (hstarted _)
    · exact ensures_acceptFeatures _ hrefused hready
  · exact ensures_acceptFeatures _ hrefused hready

/-- `fail` before `DRIVER_OK` is set ends the initialisation as it should. -/
theorem ensures_fail {w : UInt32} (hlast : s.writes.getLast? = some w) (hw : w = 3 ∨ w = 11)
    (horder : [0, 1, 3] <+: s.writes) (hqueue : s.earlyQueue = false)
    (hnotify : s.earlyNotify = false) {Q : Unit → Log → Prop}
    (h : ∀ s', s'.queueMax = s.queueMax → (∀ e, Protocol s' (.error e)) → Q () s') :
    monitor.Ensures fail s Q := by
  refine ensures_setStatusBits hlast fun v hv => ?_
  have hv' : v = 3 ∨ v = 11 := by
    rcases hw with rfl | rfl <;> rcases hv with rfl | rfl <;> decide
  refine h _ rfl fun e => ⟨.inr (horder.trans (List.prefix_append _ _)), hqueue, hnotify, ?_⟩
  intro _ _ _
  refine ⟨v ||| Status.failed, by simp, ?_⟩
  rcases hv' with rfl | rfl <;> decide

/-- The beginning of `init_hw` ends before the reset, with `fail`, or with accepted features. -/
theorem ensures_withFeatures (deviceId : UInt32) (allowLegacy : Bool)
    {rest : Io (Except DriverErr Unit)} {Q : Except DriverErr Unit → Log → Prop}
    (hnew : ∀ e, Q (.error e) .new)
    (hfailed : ∀ e s, s.queueMax = [] → Protocol s (.error e) → Q (.error e) s)
    (hrest : monitor.Ensures rest .ready Q) :
    monitor.Ensures (withFeatures deviceId allowLegacy rest) .new Q := by
  refine Monitor.Ensures.bind (ensures_validateDevice _ _ fun r => ?_)
  cases r with
  | error e => exact Monitor.ensures_ret (hnew _)
  | ok ver =>
    refine Monitor.Ensures.bind (ensures_write32 fun _ => ?_)
    refine Monitor.Ensures.bind (ensures_setStatusBits rfl fun v hv => ?_)
    obtain rfl : v = 0 := by
      rcases hv with rfl | rfl
      · rfl
      · decide
    refine Monitor.Ensures.bind (ensures_setStatusBits rfl fun v hv => ?_)
    obtain rfl : v = 1 := by
      rcases hv with rfl | rfl
      · rfl
      · decide
    have hend : ∀ s : Log, ∀ w, s.writes.getLast? = some w → (w = 3 ∨ w = 11) →
        [0, 1, 3] <+: s.writes → s.earlyQueue = false → s.earlyNotify = false → s.queueMax = [] →
        monitor.Ensures (do fail; return .error .invalidConfig) s Q := by
      intro s w hlast hw horder hqueue hnotify hmax
      refine Monitor.Ensures.bind (ensures_fail hlast hw horder hqueue hnotify fun s' hs' hp => ?_)
      exact Monitor.ensures_ret (hfailed _ s' (hs'.trans hmax) (hp _))
    refine Monitor.Ensures.bind (ensures_negotiateFeatures ver .empty ?_ ?_ ?_)
    · exact fun _ => hend .started 3 rfl (.inl rfl) (by decide) rfl rfl rfl
    · exact fun _ => hend .refused 11 rfl (.inr rfl) (by decide) rfl rfl rfl
    · exact fun _ => hrest

theorem ensures_setup {n : ℕ} (hn : 0 < n) (q : Queue n) {Q : Bool → Log → Prop}
    (h : ∀ max : UInt32, Q (decide (n ≤ max.toNat)) (.withQueue max)) :
    monitor.Ensures q.setup .ready Q := by
  refine Monitor.Ensures.bind (Monitor.Ensures.bind (ensures_write32 fun _ => ?_))
  refine Monitor.Ensures.bind (ensures_read32 fun max _ => ?_)
  have hmax := h max
  split
  next hshort =>
    have hlt : ¬n ≤ max.toNat := by
      rcases hshort with rfl | hshort
      · exact Nat.not_le.mpr hn
      · exact Nat.not_le.mpr hshort
    rw [decide_eq_false hlt] at hmax
    exact Monitor.ensures_ret (Monitor.ensures_ret hmax)
  next hlong =>
    have hle : n ≤ max.toNat := Nat.not_lt.mp fun hlt => hlong (.inr hlt)
    rw [decide_eq_true hle] at hmax
    refine Monitor.Ensures.bind (ensures_write32 fun _ => ?_)
    refine Monitor.Ensures.bind (Monitor.Ensures.bind (ensures_write32 fun _ => ?_))
    refine ensures_write32 fun _ => ?_
    refine Monitor.Ensures.bind (Monitor.Ensures.bind (ensures_write32 fun _ => ?_))
    refine ensures_write32 fun _ => ?_
    refine Monitor.Ensures.bind (Monitor.Ensures.bind (ensures_write32 fun _ => ?_))
    refine ensures_write32 fun _ => ?_
    refine Monitor.Ensures.bind (ensures_write32 fun _ => ?_)
    exact Monitor.ensures_ret (Monitor.ensures_ret hmax)

/-! ## The drivers -/

theorem ensures_driverOk (max : UInt32) {Q : Unit → Log → Prop}
    (h : ∀ s', s'.queueMax = [max] → Protocol s' (.ok ()) → Q () s') :
    monitor.Ensures (setStatusBits Status.driverOk) (.withQueue max) Q := by
  refine ensures_setStatusBits rfl fun v _ => h _ rfl ⟨.inr ?_, rfl, rfl, fun e he => (by cases he)⟩
  exact List.prefix_append [0, 1, 3] _

theorem ensures_readConfig64 (offset : ℕ) {Q : UInt64 → Log → Prop} (h : ∀ v, Q v s) :
    monitor.Ensures (readConfig64 offset) s Q := by
  refine Monitor.Ensures.bind (ensures_read32 fun _ _ => ?_)
  refine Monitor.Ensures.bind (ensures_read32 fun _ _ => ?_)
  exact Monitor.ensures_ret (h _)

theorem protocol_new (e : DriverErr) : Protocol .new (.error e) :=
  ⟨.inl rfl, rfl, rfl, fun _ _ hne => absurd rfl hne⟩

/-- Without `fail` an error after the reset does not keep to the protocol. -/
theorem not_protocol_withQueue (max : UInt32) (e : DriverErr) :
    ¬Protocol (.withQueue max) (.error e) := by
  intro h
  obtain ⟨w, hlast, hfailed, -⟩ := h.failure e rfl (List.cons_ne_nil _ _)
  cases hlast
  exact hfailed (by decide)

/-- What the block and RNG drivers do after the negotiation. -/
theorem ensures_rest {n : ℕ} (hn : 0 < n) (q : Queue n) {last : Io (Except DriverErr Unit)}
    (hlast : ∀ s, monitor.Ensures last s fun r s' => r = .ok () ∧ s' = s) :
    monitor.Ensures
      (do if ¬(← q.setup) then return .error .initFailed
          setStatusBits Status.driverOk
          last) .ready
      fun r s => Protocol s r ↔ ∀ max ∈ s.queueMax, n ≤ max.toNat := by
  refine Monitor.Ensures.bind (ensures_setup hn q fun max => ?_)
  by_cases hmax : n ≤ max.toNat
  · rw [if_neg (by simpa using hmax)]
    refine Monitor.Ensures.bind (ensures_driverOk max fun s' hs' hp => (hlast s').mono ?_)
    rintro r s ⟨rfl, rfl⟩
    rw [hs', List.forall_mem_singleton]
    exact iff_of_true hp hmax
  · rw [if_pos (by simpa using hmax)]
    refine Monitor.ensures_ret (iff_of_false (not_protocol_withQueue max _) ?_)
    exact fun hall => hmax (hall max List.mem_cons_self)

theorem Log.observe_keeps {max : UInt32} (s : Log) (op : Access) (v : UInt32)
    (h : s.earlyNotify = true ∧ max ∈ s.queueMax) :
    (s.observe op v).earlyNotify = true ∧ max ∈ (s.observe op v).queueMax := by
  unfold Log.observe
  split
  · exact h
  · exact ⟨h.1, List.mem_append_left _ h.2⟩
  · exact h
  · exact ⟨by rw [h.1, Bool.true_or], h.2⟩
  · split
    · exact h
    · exact h
  · exact h

/-- A GPU driver that sends its first command does so before `DRIVER_OK` is set. -/
theorem Gpu.ensures_readDisplayInfo (pollLimit : ℕ) (max : UInt32)
    {f : Except DriverErr (ℕ × UInt32 × UInt32) × UInt16 → Io (Except DriverErr Unit)} :
    monitor.Ensures (readDisplayInfo pollLimit 0 >>= f) (.withQueue max) fun _ s =>
      s.earlyNotify = true ∧ max ∈ s.queueMax := by
  have hkeep : ∀ {α : Type} (p : Io α) (s : Log), s.earlyNotify = true ∧ max ∈ s.queueMax →
      monitor.Ensures p s fun _ s' => s'.earlyNotify = true ∧ max ∈ s'.queueMax :=
    fun p _ h => Monitor.ensures_invariant (I := fun s : Log => s.earlyNotify = true ∧ max ∈ s.queueMax)
      Log.observe_keeps h p
  have hsend : monitor.Ensures (sendRequest pollLimit .getDisplayInfo 0) (.withQueue max)
      fun _ s => s.earlyNotify = true ∧ max ∈ s.queueMax := by
    rw [sendRequest, if_neg (by decide)]
    refine Monitor.Ensures.bind (ensures_write32 fun _ => hkeep _ _ ?_)
    exact ⟨rfl, List.mem_cons_self⟩
  refine Monitor.Ensures.bind (Monitor.Ensures.bind (hsend.mono fun _ s hs => ?_))
  exact (hkeep _ s hs).mono fun _ s' hs' => hkeep _ s' hs'

theorem Blk.ensures_initHw (allowLegacy : Bool) (aligned : ℕ) :
    monitor.Ensures (Blk.initHw allowLegacy aligned) .new fun r s =>
      Protocol s r ↔ ∀ max ∈ s.queueMax, 16 ≤ max.toNat := by
  refine ensures_withFeatures _ _ (fun e => ?_) (fun e s hs hp => ?_) (ensures_rest ?_ _ ?_)
  · exact iff_of_true (protocol_new e) (List.forall_mem_nil _)
  · exact iff_of_true hp (hs ▸ List.forall_mem_nil _)
  · decide
  · exact fun s => Monitor.Ensures.bind
      (ensures_readConfig64 0 fun _ => Monitor.ensures_ret ⟨rfl, rfl⟩)

theorem Rng.ensures_initHw (allowLegacy : Bool) (aligned : ℕ) :
    monitor.Ensures (Rng.initHw allowLegacy aligned) .new fun r s =>
      Protocol s r ↔ ∀ max ∈ s.queueMax, 8 ≤ max.toNat := by
  refine ensures_withFeatures _ _ (fun e => ?_) (fun e s hs hp => ?_) (ensures_rest ?_ _ ?_)
  · exact iff_of_true (protocol_new e) (List.forall_mem_nil _)
  · exact iff_of_true hp (hs ▸ List.forall_mem_nil _)
  · decide
  · exact fun s => Monitor.ensures_ret ⟨rfl, rfl⟩

theorem Gpu.ensures_initHw (allowLegacy : Bool) (pollLimit aligned : ℕ) :
    monitor.Ensures (Gpu.initHw allowLegacy pollLimit aligned) .new fun r s =>
      Protocol s r ↔ ∀ max ∈ s.queueMax, max.toNat < 8 := by
  refine ensures_withFeatures _ _ (fun e => ?_) (fun e s hs hp => ?_) ?_
  · exact iff_of_true (protocol_new e) (List.forall_mem_nil _)
  · exact iff_of_true hp (hs ▸ List.forall_mem_nil _)
  refine Monitor.Ensures.bind (ensures_setup (by decide) _ fun max => ?_)
  by_cases hmax : controlQueueSize ≤ max.toNat
  · rw [if_neg (by simpa using hmax)]
    refine (Gpu.ensures_readDisplayInfo pollLimit max).mono fun r s hs => ?_
    refine iff_of_false (fun hp => ?_) fun hall => Nat.not_lt.mpr hmax (hall max hs.2)
    exact Bool.false_ne_true (hp.notify.symm.trans hs.1)
  · rw [if_pos (by simpa using hmax)]
    refine Monitor.Ensures.bind
      (ensures_fail (w := 11) rfl (.inr rfl) (List.prefix_append [0, 1, 3] _) rfl rfl
        fun s' hs' hp => Monitor.ensures_ret (iff_of_true (hp _) ?_))
    rw [hs']
    exact List.forall_mem_singleton.mpr (Nat.not_le.mp hmax)

/-- In every run of `init_hw` with a device that reads back the status, the driver keeps to the
protocol if and only if the device answered as `QueueAnswer` says. -/
theorem init_protocol_iff (d : VirtioDriver) (build : Build) {t : List (Access × UInt32)}
    {r : Except DriverErr Unit} (hrun : (d.initHw build).Runs t r)
    (hhonest : monitor.Allows .new t) :
    Protocol (monitor.after .new t) r ↔ d.QueueAnswer (monitor.after .new t).queueMax := by
  cases d with
  | blk => exact Blk.ensures_initHw _ _ t r hrun hhonest
  | gpu => exact Gpu.ensures_initHw _ _ _ t r hrun hhonest
  | rng => exact Rng.ensures_initHw _ _ t r hrun hhonest

/-! ## Devices -/

theorem honest_iff (s : Log) (op : Access) (v : UInt32) :
    (op = .read .status → (s.writes.getLast?.all fun w =>
      v == w || v == w &&& ~~~Status.featuresOk) = true) ↔ monitor.allows s op v := by
  change _ ↔ s.Honest op v
  cases hlast : s.writes.getLast? with
  | none => simp [Log.Honest, hlast]
  | some w => simp [Log.Honest, hlast]

instance decidableHonest (s : Log) (op : Access) (v : UInt32) : Decidable (monitor.allows s op v) :=
  decidable_of_iff _ (honest_iff s op v)

def modernBuild : Build := ⟨false, 1, 0x80000000⟩

/-- The answers of a modern device up to the question about its queue; a write is answered with 0. -/
def modernAnswers (deviceId : UInt32) : List UInt32 :=
  [mmioMagicValue, 2, deviceId, 0, 0, 0, 1, 0, 0, 0, 0, 1, 0, 0, 0, 0, 3, 0, 11, 0]

/-- A run of the RNG driver with a queue that is long enough. -/
theorem rng_keeps_protocol : ∃ t, (VirtioDriver.rng.initHw modernBuild).Runs t (.ok ()) ∧
    Protocol (monitor.after .new t) (.ok ()) := by
  obtain ⟨t, hplay, hhonest, hmax⟩ : ∃ t, (VirtioDriver.rng.initHw modernBuild).play
      (modernAnswers 4 ++ [64, 0, 0, 0, 0, 0, 0, 0, 0, 11, 0]) = some (t, .ok ()) ∧
      monitor.Allows .new t ∧ (monitor.after .new t).queueMax = [64] := ⟨_, rfl, by decide, rfl⟩
  have hrun := Dialogue.runs_of_play hplay
  refine ⟨t, hrun, (init_protocol_iff .rng modernBuild hrun hhonest).mpr ?_⟩
  rw [hmax]
  exact List.forall_mem_singleton.mpr (by decide)

/-- The block driver leaves the device without `FAILED` when the queue is too short, and the GPU
driver notifies its queue before `DRIVER_OK`. -/
theorem init_breaks_protocol :
    (∃ t, (VirtioDriver.blk.initHw modernBuild).Runs t (.error .initFailed) ∧
      monitor.Allows .new t ∧ ¬Protocol (monitor.after .new t) (.error .initFailed)) ∧
    ∃ t, (VirtioDriver.gpu.initHw modernBuild).Runs t (.error .timeout) ∧
      monitor.Allows .new t ∧ ¬Protocol (monitor.after .new t) (.error .timeout) := by
  constructor
  · obtain ⟨t, hplay, hhonest, hafter⟩ : ∃ t, (VirtioDriver.blk.initHw modernBuild).play
        (modernAnswers 2 ++ [8]) = some (t, .error .initFailed) ∧ monitor.Allows .new t ∧
        monitor.after .new t = .withQueue 8 := ⟨_, rfl, by decide, rfl⟩
    refine ⟨t, Dialogue.runs_of_play hplay, hhonest, ?_⟩
    rw [hafter]
    exact not_protocol_withQueue 8 _
  · obtain ⟨t, hplay, hhonest, hearly⟩ : ∃ t, (VirtioDriver.gpu.initHw modernBuild).play
        (modernAnswers 16 ++ [64, 0, 0, 0, 0, 0, 0, 0, 0, 0, 0]) = some (t, .error .timeout) ∧
        monitor.Allows .new t ∧ (monitor.after .new t).earlyNotify = true :=
      ⟨_, rfl, by decide, rfl⟩
    refine ⟨t, Dialogue.runs_of_play hplay, hhonest, fun hp => ?_⟩
    exact Bool.false_ne_true (hp.notify.symm.trans hearly)

end OpenIon.Drivers.Virtio
