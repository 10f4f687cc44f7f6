import OpenIon.Driver.Registry
import OpenIon.Fdt.Walk
import OpenIon.Lib.Run

/-! # Probing the device tree for drivers

`auto_probe_fdt` of `driver/manager.rs` tries every factory on every node of the device
tree. A probe takes a slot of the static pool of its factory, the driver is registered
and then initialised, and no failure on the way takes back what was done before.
-/
namespace OpenIon.Driver
open Lib Fdt

structure ProbeResource extends DeviceResource where
  size : ℕ

/-- A `DriverFactory` that places its drivers in a `StaticDriverPool`. Some factories check the id of
the device before they take a slot, and some set up the device before they return the driver. -/
structure Factory where
  compatible : List (List UInt8)
  pool : ℕ
  capacity : ℕ
  checksId : Bool
  initsHw : Bool
  driver : ℕ → ProbeResource → FdtNode → AnyDriver

/-- What the device and the driver answer in one attempt. -/
structure Outcome where
  idMatches : Bool
  initHw : Bool
  autoInit : Bool

/-- The registry, `next` of each pool, the counters of the probe, and how many attempts there have
been. -/
structure Probing where
  registry : Registry := {}
  next : ℕ → ℕ := fun _ => 0
  probeMatches : UInt32 := 0
  probeSuccesses : UInt32 := 0
  probeFailures : UInt32 := 0
  attempts : ℕ := 0

namespace Probing

/-- `StaticDriverPool::alloc`, which counts every request. -/
def alloc (w : Probing) (f : Factory) : Option ℕ × Probing :=
  let idx := w.next f.pool
  (if f.capacity ≤ idx then none else some idx,
    { w with next := Function.update w.next f.pool (idx + 1) })

def probe (w : Probing) (f : Factory) (resource : ProbeResource) (node : FdtNode) (o : Outcome) :
    Option AnyDriver × Probing :=
  if f.checksId && !o.idMatches then (none, w)
  else
    match w.alloc f with
    | (none, w) => (none, w)
    | (some idx, w) =>
      if f.initsHw && !o.initHw then (none, w) else (some (f.driver idx resource node), w)

variable (maxIrqs : ℕ) (env : ℕ → Outcome) (resource : ProbeResource) (node : FdtNode)

/-- A factory is tried on a matching node. The result is the driver whose `auto_init` succeeded. -/
def attempt (f : Factory) (w : Probing) : Option AnyDriver × Probing :=
  let o := env w.attempts
  let w := { w with attempts := w.attempts + 1, probeMatches := w.probeMatches + 1 }
  match w.probe f resource node o with
  | (none, w) => (none, { w with probeFailures := w.probeFailures + 1 })
  | (some driver, w) =>
    match w.registry.registerDriver maxIrqs driver with
    | (.error _, r) => (none, { w with registry := r, probeFailures := w.probeFailures + 1 })
    | (.ok _, r) =>
      if o.autoInit then
        (some driver, { w with registry := r, probeSuccesses := w.probeSuccesses + 1 })
      else (none, { w with registry := r, probeFailures := w.probeFailures + 1 })

/-- A loop goes on unless a driver was brought up. -/
def orNext : Option AnyDriver × Probing → (Probing → Option AnyDriver × Probing) →
    Option AnyDriver × Probing
  | (some driver, w), _ => (some driver, w)
  | (none, w), next => next w

/-- The loop over the texts of a factory. -/
def tryCompatible (f : Factory) : List (List UInt8) → Probing → Option AnyDriver × Probing
  | [], w => (none, w)
  | c :: cs, w =>
    if node.compatibleMatches c then
      orNext (attempt maxIrqs env resource node f w) (tryCompatible f cs)
    else tryCompatible f cs w

/-- The loop over the snapshot of the factories. -/
def tryFactories : List (Option Factory) → Probing → Option AnyDriver × Probing
  | [], w => (none, w)
  | none :: fs, w => tryFactories fs w
  | some f :: fs, w =>
    orNext (tryCompatible maxIrqs env resource node f f.compatible w) (tryFactories fs)

variable (factories : List (Option Factory))

/-- What is done for one node of the walk. -/
def probeNode (node : FdtNode) (w : Probing) : Option AnyDriver × Probing :=
  if !node.isAvailable then (none, w)
  else
    match node.firstReg with
    | none => (none, w)
    | some reg => tryFactories maxIrqs env ⟨⟨reg.base, node.interruptOrZero⟩, reg.size⟩ node factories w

def probeNodes : List FdtNode → Probing → List AnyDriver × Probing
  | [], w => ([], w)
  | node :: nodes, w =>
    let (driver, w) := probeNode maxIrqs env factories node w
    let (drivers, w) := probeNodes nodes w
    (driver.toList ++ drivers, w)

end Probing

/-- The nodes that `walk_nodes` visits; there are none without a device tree. -/
def dtbNodes : Option (List UInt8) → List FdtNode
  | none => []
  | some mem => (walkNodes mem).log

/-- The count that `auto_probe_fdt` returns goes up for each driver that was brought up. -/
def autoProbeFdt (maxIrqs : ℕ) (env : ℕ → Outcome) (factories : List (Option Factory))
    (dtb : Option (List UInt8)) (w : Probing) : ℕ × Probing :=
  let (drivers, w) := w.probeNodes maxIrqs env factories (dtbNodes dtb)
  (drivers.length, w)

end OpenIon.Driver
