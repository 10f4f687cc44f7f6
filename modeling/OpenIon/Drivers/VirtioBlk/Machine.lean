import OpenIon.Lib.Run
import Mathlib.Logic.Function.Basic

/-! # The VirtIO block driver and its device

`read_sector` and a device that share one request buffer. Both sides move in steps of
one access to the shared memory, in any order. The three descriptors never change and
every slot of the available ring holds descriptor 0, so the rings are their indices;
the `type_` and `reserved` words of the request keep their zeros.
-/
namespace OpenIon.Drivers.VirtioBlk
open Lib

def sectorSize : ℕ := 512

inductive DriverPc where
  | idle
  | writeSector (sector : ℕ)
  | writeStatus (sector : ℕ)
  | publish (sector : ℕ)
  | poll (sector spins : ℕ)
  | check (sector : ℕ)
  | copy (sector pos : ℕ)
  | returned (sector : ℕ) (ok : Bool)
  deriving DecidableEq

inductive DevicePc where
  | idle
  /-- It has read a header and written the first `pos` bytes of the sector. -/
  | serving (sector pos : ℕ)
  | completing
  deriving DecidableEq

structure World where
  reqSector : ℕ
  reqData : ℕ → UInt8
  reqStatus : UInt8
  availIdx : UInt16
  usedIdx : UInt16
  lastUsedIdx : UInt16
  driver : DriverPc
  buf : ℕ → UInt8
  /-- How far the device is in the available ring. -/
  lastAvailIdx : UInt16
  device : DevicePc

def World.new : World := ⟨0, fun _ => 0, 0, 0, 0, 0, .idle, fun _ => 0, 0, .idle⟩

/-- The next step of the call of `read_sector` that has the driver. -/
def drive (pollLimit : ℕ) (w : World) : Option World :=
  match w.driver with
  | .idle => none
  | .writeSector s => some { w with reqSector := s, driver := .writeStatus s }
  | .writeStatus s => some { w with reqStatus := 0xFF, driver := .publish s }
  | .publish s => some { w with availIdx := w.availIdx + 1, driver := .poll s 0 }
  | .poll s spins =>
    if spins < pollLimit then
      if w.usedIdx ≠ w.lastUsedIdx then
        some { w with lastUsedIdx := w.usedIdx, driver := .check s }
      else some { w with driver := .poll s (spins + 1) }
    else some { w with driver := .returned s false }
  | .check s =>
    if w.reqStatus = 0 then some { w with driver := .copy s 0 }
    else some { w with driver := .returned s false }
  | .copy s pos =>
    if pos < sectorSize then
      some { w with buf := Function.update w.buf pos (w.reqData pos), driver := .copy s (pos + 1) }
    else some { w with driver := .returned s true }
  | .returned _ _ => some { w with driver := .idle }

inductive DeviceAct where
  | fetch
  | writeByte
  | writeStatus
  | fail
  | complete

/-- The device serves the requests one at a time from the sectors of `disk`. It may report an
error instead of the data. -/
def serve (disk : ℕ → ℕ → UInt8) (w : World) : DeviceAct → Option World
  | .fetch =>
    if w.device = .idle ∧ w.lastAvailIdx ≠ w.availIdx then
      some { w with lastAvailIdx := w.lastAvailIdx + 1, device := .serving w.reqSector 0 }
    else none
  | .writeByte =>
    match w.device with
    | .serving s pos =>
      if pos < sectorSize then
        some { w with
          reqData := Function.update w.reqData pos (disk s pos)
          device := .serving s (pos + 1) }
      else none
    | _ => none
  | .writeStatus =>
    match w.device with
    | .serving _ pos =>
      if pos = sectorSize then some { w with reqStatus := 0, device := .completing } else none
    | _ => none
  | .fail =>
    match w.device with
    | .serving _ _ => some { w with reqStatus := 1, device := .completing }
    | _ => none
  | .complete =>
    match w.device with
    | .completing => some { w with usedIdx := w.usedIdx + 1, device := .idle }
    | _ => none

inductive Act where
  | call (sector : ℕ)
  | drive
  | device (act : DeviceAct)

def step (pollLimit : ℕ) (disk : ℕ → ℕ → UInt8) (w : World) : Act → Option World
  -- a second caller finds `io_busy` set and returns `false`
  | .call s => some (if w.driver = .idle then { w with driver := .writeSector s } else w)
  | .drive => drive pollLimit w
  | .device act => serve disk w act

end OpenIon.Drivers.VirtioBlk
