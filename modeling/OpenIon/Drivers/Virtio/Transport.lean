import OpenIon.Lib.Dialogue

/-! # The VirtIO transport over memory-mapped registers

The functions of `virtio_common` as programs that read and write registers of the device. What the
drivers read from the memory that the device writes, the index of the used ring and the words of a
response, are answers of the device too.
-/
namespace OpenIon.Drivers.Virtio
open Lib

inductive Reg where
  | magic
  | version
  | deviceId
  | deviceFeatures
  | deviceFeaturesSel
  | driverFeatures
  | driverFeaturesSel
  | queueSel
  | queueNumMax
  | queueNum
  | queueReady
  | queueNotify
  | interruptStatus
  | interruptAck
  | status
  | queueDescLow
  | queueDescHigh
  | queueDriverLow
  | queueDriverHigh
  | queueDeviceLow
  | queueDeviceHigh
  | config (offset : ℕ)
  deriving DecidableEq

inductive Access where
  | read (reg : Reg)
  | write (reg : Reg) (val : UInt32)
  | readUsedIdx
  /-- The word at an offset of the response buffer. -/
  | readResponse (offset : ℕ)
  deriving DecidableEq

abbrev Io := Dialogue Access UInt32

inductive VirtioError where
  | badMagic
  | unsupportedVersion
  | wrongDevice
  | legacyDisabled
  | missingModernFeature
  | featuresRejected
  | queueUnavailable
  deriving DecidableEq

namespace Status

def acknowledge : UInt32 := 1
def driver : UInt32 := 2
def driverOk : UInt32 := 4
def featuresOk : UInt32 := 8
def failed : UInt32 := 128

end Status

def mmioMagicValue : UInt32 := 0x74726976
def mmioVersionLegacy : UInt32 := 1
def mmioVersionModern : UInt32 := 2

structure FeatureSet where
  lo : UInt32
  hi : UInt32

def FeatureSet.empty : FeatureSet := ⟨0, 0⟩

def FeatureSet.withModern : FeatureSet := ⟨0, (1 : UInt32) <<< (32 - 32)⟩

def read32 (reg : Reg) : Io UInt32 := .call (.read reg) .ret

def write32 (reg : Reg) (val : UInt32) : Io Unit := .call (.write reg val) fun _ => .ret ()

def readUsedIdx : Io UInt16 := .call .readUsedIdx fun v => .ret v.toUInt16

def readResponse (offset : ℕ) : Io UInt32 := .call (.readResponse offset) .ret

def write64Pair (low high : Reg) (value : UInt64) : Io Unit := do
  write32 low value.toUInt32
  write32 high (value >>> 32).toUInt32

def readConfig64 (offset : ℕ) : Io UInt64 := do
  let lo ← read32 (.config offset)
  let hi ← read32 (.config (offset + 4))
  return (hi.toUInt64 <<< 32) ||| lo.toUInt64

def validateDevice (expectedDeviceId : UInt32) (allowLegacy : Bool) :
    Io (Except VirtioError UInt32) := do
  if (← read32 .magic) ≠ mmioMagicValue then
    return .error .badMagic
  let version ← read32 .version
  if version ≠ mmioVersionLegacy ∧ version ≠ mmioVersionModern then
    return .error .unsupportedVersion
  if version = mmioVersionLegacy ∧ ¬allowLegacy then
    return .error .legacyDisabled
  if (← read32 .deviceId) ≠ expectedDeviceId then
    return .error .wrongDevice
  return .ok version

def reset : Io Unit := write32 .status 0

def setStatusBits (bits : UInt32) : Io Unit := do
  let status ← read32 .status
  write32 .status (status ||| bits)

def fail : Io Unit := setStatusBits Status.failed

def deviceFeatures : Io FeatureSet := do
  write32 .deviceFeaturesSel 0
  let lo ← read32 .deviceFeatures
  write32 .deviceFeaturesSel 1
  let hi ← read32 .deviceFeatures
  return ⟨lo, hi⟩

def writeDriverFeatures (features : FeatureSet) : Io Unit := do
  write32 .driverFeaturesSel 0
  write32 .driverFeatures features.lo
  write32 .driverFeaturesSel 1
  write32 .driverFeatures features.hi

/-- The end of `negotiate_features`, once the features are selected. -/
def acceptFeatures (selected : FeatureSet) : Io (Except VirtioError FeatureSet) := do
  writeDriverFeatures selected
  setStatusBits Status.featuresOk
  if (← read32 .status) &&& Status.featuresOk = 0 then
    return .error .featuresRejected
  return .ok selected

def negotiateFeatures (version : UInt32) (requested : FeatureSet) :
    Io (Except VirtioError FeatureSet) := do
  let device ← deviceFeatures
  let selected : FeatureSet := ⟨device.lo &&& requested.lo, device.hi &&& requested.hi⟩
  if version = mmioVersionModern then
    let modern := FeatureSet.withModern.hi
    if device.hi &&& modern = 0 then
      return .error .missingModernFeature
    acceptFeatures { selected with hi := selected.hi ||| modern }
  else
    acceptFeatures selected

def setupQueue (queue : UInt32) (queueSize : ℕ) (descAddr availAddr usedAddr : UInt64) :
    Io (Except VirtioError Unit) := do
  write32 .queueSel queue
  let max ← read32 .queueNumMax
  if max = 0 ∨ max.toNat < queueSize then
    return .error .queueUnavailable
  write32 .queueNum (.ofNat queueSize)
  write64Pair .queueDescLow .queueDescHigh descAddr
  write64Pair .queueDriverLow .queueDriverHigh availAddr
  write64Pair .queueDeviceLow .queueDeviceHigh usedAddr
  write32 .queueReady 1
  return .ok ()

def notifyQueue (queue : UInt32) : Io Unit := write32 .queueNotify queue

def ackInterrupts : Io UInt32 := do
  let status ← read32 .interruptStatus
  if status ≠ 0 then
    write32 .interruptAck status
  return status

end OpenIon.Drivers.Virtio
