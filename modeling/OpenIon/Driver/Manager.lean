import OpenIon.Lib.Slots
import Mathlib.Data.Finset.Basic

/-! # The driver registry

The registration part of `driver/manager.rs`: the table of all drivers, a bucket for
each device class, the table of drivers by interrupt number, and the counters. Text
is the list of its bytes.
-/
namespace OpenIon.Driver
open Lib

inductive DriverErr where
  | initFailed
  | timeout
  | invalidConfig
  | hardwareFault
  | busy
  | notSupported
  | registryFull
  | notFound
  | custom
deriving DecidableEq

inductive DeviceClass where
  | block
  | char
  | terminal
  | gpio
  | framebuffer
  | net
  | rng
deriving DecidableEq

structure DeviceResource where
  baseAddr : ℕ
  irq : ℕ
deriving DecidableEq

structure DriverIdentity where
  cls : List UInt8
  baseAddr : ℕ
  irq : ℕ
deriving DecidableEq

def DriverIdentity.new (cls : List UInt8) (resource : DeviceResource) : DriverIdentity :=
  ⟨cls, resource.baseAddr, resource.irq⟩

/-- What a `&'static dyn AnyDriver` tells the manager. -/
structure AnyDriver where
  addr : ℕ
  name : List UInt8
  resource : DeviceResource
  identity : DriverIdentity := .new name resource
  deviceClass : Finset DeviceClass
deriving DecidableEq

def maxDrivers : ℕ := 32

def addrEq (a b : AnyDriver) : Bool := a.addr = b.addr

/-- The statics of the manager, for an interrupt table of any size. -/
structure Registry where
  drivers : List (Option AnyDriver) := List.replicate maxDrivers none
  buckets : DeviceClass → List (Option AnyDriver) := fun _ => List.replicate maxDrivers none
  irqDrivers : ℕ → Option AnyDriver := fun _ => none
  registeredDrivers : UInt32 := 0
  registeredOf : DeviceClass → UInt32 := fun _ => 0
  irqFastConflicts : UInt32 := 0

def isValidDriverName (name : List UInt8) : Bool :=
  if name.isEmpty then false
  else name.all fun b => (0x61 ≤ b ∧ b ≤ 0x7a) ∨ (0x30 ≤ b ∧ b ≤ 0x39) ∨ b = 0x5f

def bucketHasSpace (bucket : List (Option AnyDriver)) : Bool := bucket.any Option.isNone

/-- The loop of `register_driver` over `DRIVERS`: slot `i` is next. -/
def scanDrivers (identity : DriverIdentity) :
    List (Option AnyDriver) → ℕ → Option ℕ → Except DriverErr (Option ℕ)
  | [], _, firstEmpty => .ok firstEmpty
  | some existing :: slots, i, firstEmpty =>
    if existing.identity = identity then .error .invalidConfig
    else scanDrivers identity slots (i + 1) firstEmpty
  | none :: slots, i, firstEmpty =>
    scanDrivers identity slots (i + 1) (if firstEmpty.isNone then some i else firstEmpty)

namespace Registry

def registerIrqFastPath (maxIrqs : ℕ) (driver : AnyDriver) (r : Registry) : Registry :=
  let irq := driver.resource.irq
  if irq = 0 ∨ maxIrqs ≤ irq then r
  else
    match r.irqDrivers irq with
    | none => { r with irqDrivers := Function.update r.irqDrivers irq (some driver) }
    | some existing =>
      if addrEq existing driver then r
      else { r with irqFastConflicts := r.irqFastConflicts + 1 }

def unregisterIrqFastPath (maxIrqs : ℕ) (driver : AnyDriver) (r : Registry) : Registry :=
  let irq := driver.resource.irq
  if irq = 0 ∨ maxIrqs ≤ irq then r
  else
    match r.irqDrivers irq with
    | none => r
    | some existing =>
      if addrEq existing driver then
        { r with irqDrivers := Function.update r.irqDrivers irq none }
      else r

/-- The writes of `register_driver` once slot `idx` is known to be free. -/
def store (driver : AnyDriver) (idx : ℕ) (r : Registry) : Registry :=
  { r with
    drivers := r.drivers.set idx (some driver)
    buckets := fun c =>
      if c ∈ driver.deviceClass then pushSlot driver (r.buckets c) else r.buckets c
    registeredDrivers := r.registeredDrivers + 1
    registeredOf := fun c =>
      if c ∈ driver.deviceClass then r.registeredOf c + 1 else r.registeredOf c }

def registerDriver (maxIrqs : ℕ) (driver : AnyDriver) (r : Registry) :
    Except DriverErr Unit × Registry :=
  if !isValidDriverName driver.name then (.error .invalidConfig, r)
  else
    match scanDrivers driver.identity r.drivers 0 none with
    | .error e => (.error e, r)
    | .ok none => (.error .registryFull, r)
    | .ok (some idx) =>
      if ∃ c ∈ driver.deviceClass, bucketHasSpace (r.buckets c) = false then
        (.error .registryFull, r)
      else (.ok (), (r.store driver idx).registerIrqFastPath maxIrqs driver)

/-- The tail of both `unregister` functions: the slot of `driver` is empty. -/
def forget (driver : AnyDriver) (r : Registry) : Registry :=
  { r with
    buckets := fun c => removeSlot (addrEq · driver) (r.buckets c)
    registeredDrivers := r.registeredDrivers - 1
    registeredOf := fun c =>
      if c ∈ driver.deviceClass then r.registeredOf c - 1 else r.registeredOf c }

def unregisterWhere (maxIrqs : ℕ) (p : AnyDriver → Bool) (r : Registry) :
    Except DriverErr Unit × Registry :=
  match findSlot p r.drivers with
  | none => (.error .notFound, r)
  | some driver =>
    let r := { r with drivers := removeSlot p r.drivers }
    (.ok (), (r.unregisterIrqFastPath maxIrqs driver).forget driver)

def unregisterDriver (maxIrqs : ℕ) (name : List UInt8) : Registry → Except DriverErr Unit × Registry :=
  unregisterWhere maxIrqs (·.name = name)

def unregisterDriverByIdentity (maxIrqs : ℕ) (identity : DriverIdentity) :
    Registry → Except DriverErr Unit × Registry :=
  unregisterWhere maxIrqs (·.identity = identity)

def registered (r : Registry) : List AnyDriver := r.drivers.reduceOption

def bucket (r : Registry) (c : DeviceClass) : List AnyDriver := (r.buckets c).reduceOption

end Registry

inductive RegistryOp where
  | register (driver : AnyDriver)
  | unregister (name : List UInt8)
  | unregisterByIdentity (identity : DriverIdentity)

def Registry.exec (maxIrqs : ℕ) (r : Registry) : RegistryOp → Except DriverErr Unit × Registry
  | .register driver => r.registerDriver maxIrqs driver
  | .unregister name => r.unregisterDriver maxIrqs name
  | .unregisterByIdentity identity => r.unregisterDriverByIdentity maxIrqs identity

def Registry.after (maxIrqs : ℕ) (ops : List RegistryOp) : Registry :=
  ops.foldl (fun r op => (r.exec maxIrqs op).2) {}

end OpenIon.Driver
