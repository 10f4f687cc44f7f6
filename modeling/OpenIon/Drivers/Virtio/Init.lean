import OpenIon.Driver.Manager
import OpenIon.Drivers.Virtio.QueueMemory
import OpenIon.Drivers.Virtio.Transport

/-! # Initialisation of the VirtIO drivers

`init_hw` of the block, GPU and RNG drivers. All three validate the device, reset it and negotiate
its features in the same way. `init_hw` has the driver for itself, so `send_command` never finds
it busy.
-/
namespace OpenIon.Drivers.Virtio
open Lib Lib.Shape
open Driver (DriverErr)

def mapErr : VirtioError → DriverErr
  | .legacyDisabled | .missingModernFeature | .featuresRejected => .invalidConfig
  | _ => .initFailed

/-- The beginning of `init_hw`, up to the negotiation of the features. -/
def withFeatures (deviceId : UInt32) (allowLegacy : Bool) (rest : Io (Except DriverErr Unit)) :
    Io (Except DriverErr Unit) := do
  match ← validateDevice deviceId allowLegacy with
  | .error e => return .error (mapErr e)
  | .ok ver =>
    reset
    setStatusBits Status.acknowledge
    setStatusBits Status.driver
    match ← negotiateFeatures ver .empty with
    | .error _ =>
      fail
      return .error .invalidConfig
    | .ok _ => rest

/-- `setup_queue` of a driver after it has placed the queue in memory. -/
def Queue.setup {n : ℕ} (q : Queue n) : Io Bool := do
  match ← setupQueue 0 n (.ofNat q.desc) (.ofNat q.avail) (.ofNat q.used) with
  | .error _ => return false
  | .ok () => return true

def Blk.initHw (allowLegacy : Bool) (aligned : ℕ) : Io (Except DriverErr Unit) :=
  withFeatures 2 allowLegacy do
    if ¬(← (Blk.setupQueue aligned).setup) then
      return .error .initFailed
    setStatusBits Status.driverOk
    let _capacity ← readConfig64 0
    return .ok ()

def Rng.initHw (allowLegacy : Bool) (aligned : ℕ) : Io (Except DriverErr Unit) :=
  withFeatures 4 allowLegacy do
    if ¬(← (Rng.setupQueue aligned).setup) then
      return .error .initFailed
    setStatusBits Status.driverOk
    return .ok ()

namespace Gpu

structure GpuRect where
  x : ℕ
  y : ℕ
  width : ℕ
  height : ℕ

/-- The commands, with those of their fields that the host uses later. -/
inductive Command where
  | getDisplayInfo
  | resourceCreate2d
  | resourceAttachBacking
  | setScanout
  | transferToHost2d (r : GpuRect) (offset : ℕ)
  | resourceFlush (r : GpuRect)

/-- The arguments of `send_command`: the length of a command, the type that the response should
have, and the length of that. -/
structure Request where
  len : ℕ
  expectedType : UInt32
  responseLen : ℕ

def respOkNodata : UInt32 := 0x1100

def respOkDisplayInfo : UInt32 := 0x1101

def Request.nodata (fields : List Shape) : Request :=
  ⟨(struct (struct gpuCtrlHdr :: fields)).size, respOkNodata, (struct gpuCtrlHdr).size⟩

def memEntry : List Shape := [u64, u32, u32]

def Command.request : Command → Request
  | getDisplayInfo => ⟨(struct gpuCtrlHdr).size, respOkDisplayInfo, respSize⟩
  | resourceCreate2d => .nodata [u32, u32, u32, u32]
  | resourceAttachBacking => .nodata [u32, u32, struct memEntry]
  | setScanout => .nodata [struct gpuRect, u32, u32]
  | transferToHost2d _ _ => .nodata [struct gpuRect, u64, u32, u32]
  | resourceFlush _ => .nodata [struct gpuRect, u32, u32]

section Sending

variable {m : Type → Type} [Monad m] {σ : Type}
  (send : Command → σ → m (Except DriverErr Unit × σ))

/-- Commands one after the other, up to the first that fails. -/
def sendAll : List Command → σ → m (Except DriverErr Unit × σ)
  | [], s => return (.ok (), s)
  | cmd :: cmds, s => do
    match ← send cmd s with
    | (.error e, s) => return (.error e, s)
    | (.ok (), s) => sendAll cmds s

/-- `flush_rect`, for any meaning of a command that is sent. -/
def flushRect (rect : GpuRect) : σ → m (Except DriverErr Unit × σ) :=
  sendAll send [.transferToHost2d rect 0, .resourceFlush rect]

end Sending

/-- Reads the index of the used ring until it changes, `spins` times at most. -/
def pollUsed (last : UInt16) : ℕ → Io (Option UInt16)
  | 0 => return none
  | spins + 1 => do
    let usedIdx ← readUsedIdx
    if usedIdx ≠ last then return some usedIdx else pollUsed last spins

/-- The result and the new `last_used_idx`. -/
def sendRequest (pollLimit : ℕ) (cmd : Command) (last : UInt16) :
    Io (Except DriverErr Unit × UInt16) := do
  let request := cmd.request
  if request.len > 256 ∨ request.responseLen > respSize then
    return (.error .invalidConfig, last)
  notifyQueue 0
  match ← pollUsed last pollLimit with
  | none => return (.error .timeout, last)
  | some usedIdx =>
    let _ ← ackInterrupts
    if (← readResponse 0) = request.expectedType then
      return (.ok (), usedIdx)
    return (.error .hardwareFault, usedIdx)

/-- A word of mode `i` in the response: a word of its rectangle, or `enabled`. -/
def modeWord (i : ℕ) (inner : Area) : ℕ :=
  (field gpuDisplayInfo 1).start + (elem (struct gpuDisplayOne) i).start + inner.start

def findMode : List ℕ → Io (ℕ × UInt32 × UInt32)
  | [] => return (0, 1024, 768)
  | i :: modes => do
    if (← readResponse (modeWord i (field gpuDisplayOne 1))) = 0 then findMode modes
    else
      let width ← readResponse (modeWord i (field gpuRect 2))
      if width = 0 then findMode modes
      else
        let height ← readResponse (modeWord i (field gpuRect 3))
        if height = 0 then findMode modes else return (i, width, height)

def readDisplayInfo (pollLimit : ℕ) (last : UInt16) :
    Io (Except DriverErr (ℕ × UInt32 × UInt32) × UInt16) := do
  match ← sendRequest pollLimit .getDisplayInfo last with
  | (.error e, last) => return (.error e, last)
  | (.ok (), last) => return (.ok (← findMode (List.range 16)), last)

def createFramebufferResource (pollLimit : ℕ) (rect : GpuRect) (last : UInt16) :
    Io (Except DriverErr Unit × UInt16) := do
  match ← sendAll (sendRequest pollLimit) [.resourceCreate2d, .resourceAttachBacking, .setScanout]
    last with
  | (.error e, last) => return (.error e, last)
  | (.ok (), last) => flushRect (sendRequest pollLimit) rect last

def initHw (allowLegacy : Bool) (pollLimit aligned : ℕ) : Io (Except DriverErr Unit) :=
  withFeatures 16 allowLegacy do
    if ¬(← (Gpu.setupQueue aligned).setup) then
      fail
      return .error .initFailed
    match ← readDisplayInfo pollLimit 0 with
    | (.error e, _) => return .error e
    | (.ok (_, width, height), last) =>
      if min width 1024 = 0 ∨ min height 768 = 0 then
        fail
        return .error .invalidConfig
      let rect : GpuRect := ⟨0, 0, (min width 1024).toNat, (min height 768).toNat⟩
      match ← createFramebufferResource pollLimit rect last with
      | (.error e, _) => return .error e
      | (.ok (), last) =>
        setStatusBits Status.driverOk
        -- `clear` fills the framebuffer and flushes it
        match ← flushRect (sendRequest pollLimit) rect last with
        | (.error e, _) => return .error e
        | (.ok (), _) => return .ok ()

end Gpu

structure Build where
  allowLegacy : Bool
  pollLimit : ℕ
  aligned : ℕ

def VirtioDriver.initHw (build : Build) : VirtioDriver → Io (Except DriverErr Unit)
  | blk => Blk.initHw build.allowLegacy build.aligned
  | gpu => Gpu.initHw build.allowLegacy build.pollLimit build.aligned
  | rng => Rng.initHw build.allowLegacy build.aligned

end OpenIon.Drivers.Virtio
