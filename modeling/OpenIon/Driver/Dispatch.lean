import OpenIon.Driver.Registry

/-! # Dispatching an interrupt

`dispatch_irq` of `driver/manager.rs` asks the driver that the fast path has for the interrupt, and
then all registered drivers, until one of them accepts. The fast path only ever holds registered
drivers, so it finds no other answer than the drivers themselves give. A driver answers by the
number of the interrupt.
-/
namespace OpenIon.Driver
open Lib

structure IrqStats where
  dispatches : UInt32 := 0
  fastHits : UInt32 := 0
  fastFallbacks : UInt32 := 0
  driverHits : UInt32 := 0
  driverMisses : UInt32 := 0

/-- The answer of `dispatch_irq`, the drivers that it called, and the counters after it. -/
structure Dispatch where
  handled : Bool
  called : List AnyDriver
  stats : IrqStats

/-- Calls the drivers in the order of their slots until one of them accepts. -/
def askAll (accepts : AnyDriver → Bool) : List (Option AnyDriver) → Bool × List AnyDriver
  | [] => (false, [])
  | none :: slots => askAll accepts slots
  | some driver :: slots =>
    if accepts driver then (true, [driver])
    else ((askAll accepts slots).1, driver :: (askAll accepts slots).2)

namespace Registry

def irqFastDriver (maxIrqs : ℕ) (r : Registry) (irq : ℕ) : Option AnyDriver :=
  if maxIrqs ≤ irq then none else r.irqDrivers irq

/-- The loop over the snapshot of all drivers, after the drivers `called`. -/
def dispatchSlow (handleIrq : AnyDriver → ℕ → Bool) (r : Registry) (stats : IrqStats)
    (called : List AnyDriver) (irq : ℕ) : Dispatch :=
  let (handled, asked) := askAll (handleIrq · irq) r.drivers
  { handled := handled
    called := called ++ asked
    stats := if handled then { stats with driverHits := stats.driverHits + 1 }
      else { stats with driverMisses := stats.driverMisses + 1 } }

def dispatchIrq (maxIrqs : ℕ) (handleIrq : AnyDriver → ℕ → Bool) (r : Registry)
    (stats : IrqStats) (irq : ℕ) : Dispatch :=
  let stats := { stats with dispatches := stats.dispatches + 1 }
  match r.irqFastDriver maxIrqs irq with
  | none => r.dispatchSlow handleIrq stats [] irq
  | some driver =>
    if handleIrq driver irq then
      { handled := true
        called := [driver]
        stats := { stats with
          fastHits := stats.fastHits + 1
          driverHits := stats.driverHits + 1 } }
    else
      r.dispatchSlow handleIrq { stats with fastFallbacks := stats.fastFallbacks + 1 } [driver] irq

end Registry

variable {r : Registry} {maxIrqs irq : ℕ} {driver : AnyDriver} {accepts : AnyDriver → Bool}
  {slots : List (Option AnyDriver)}

/-! ## The fast path after registrations -/

theorem Registry.FastPathSound.exec (h : r.FastPathSound maxIrqs) (op : RegistryOp) :
    (r.exec maxIrqs op).2.FastPathSound maxIrqs := by
  cases op with
  | register driver => exact h.register driver
  | unregister name => exact h.unregisterWhere _
  | unregisterByIdentity identity => exact h.unregisterWhere _

theorem after_fastPathSound (maxIrqs : ℕ) (ops : List RegistryOp) :
    (Registry.after maxIrqs ops).FastPathSound maxIrqs := by
  have hrun : ∀ r : Registry, r.FastPathSound maxIrqs →
      (ops.foldl (fun r op => (r.exec maxIrqs op).2) r).FastPathSound maxIrqs := by
    induction ops with
    | nil => exact fun r h => h
    | cons op ops ih => exact fun r h => ih _ (h.exec op)
  apply hrun
  intro irq driver hdriver
  cases hdriver

/-! ## The answer -/

theorem askAll_handled (accepts : AnyDriver → Bool) (slots : List (Option AnyDriver)) :
    (askAll accepts slots).1 = slots.reduceOption.any accepts := by
  fun_induction askAll accepts slots with
  | case1 => rfl
  | case2 slots ih => simpa using ih
  | case3 driver slots haccepts => simp [haccepts]
  | case4 driver slots haccepts ih => simp [haccepts, ih]

theorem askAll_called {d : AnyDriver} (hd : d ∈ (askAll accepts slots).2) :
    d ∈ slots.reduceOption := by
  fun_induction askAll accepts slots with
  | case1 => simp at hd
  | case2 slots ih => simpa using ih hd
  | case3 driver slots haccepts =>
    rw [List.reduceOption_cons_of_some, List.mem_singleton.mp hd]
    exact List.mem_cons_self
  | case4 driver slots haccepts ih =>
    rw [List.reduceOption_cons_of_some]
    rcases List.mem_cons.mp hd with rfl | hd
    · exact List.mem_cons_self
    · exact List.mem_cons_of_mem driver (ih hd)

theorem Registry.FastPathSound.irqFastDriver (h : r.FastPathSound maxIrqs)
    (hfast : r.irqFastDriver maxIrqs irq = some driver) : driver ∈ r.registered := by
  unfold Registry.irqFastDriver at hfast
  split_ifs at hfast
  exact (h irq driver hfast).1

/-- The fast path changes neither the answer nor who may be called. -/
theorem Registry.FastPathSound.dispatchIrq (h : r.FastPathSound maxIrqs)
    (handleIrq : AnyDriver → ℕ → Bool) (stats : IrqStats) (irq : ℕ) :
    (r.dispatchIrq maxIrqs handleIrq stats irq).handled = r.registered.any (handleIrq · irq) ∧
      ∀ d ∈ (r.dispatchIrq maxIrqs handleIrq stats irq).called, d ∈ r.registered := by
  unfold Registry.dispatchIrq
  split
  next =>
    exact ⟨askAll_handled _ _, fun d hd => askAll_called hd⟩
  next driver hfast =>
    have hdriver := h.irqFastDriver hfast
    split
    next haccepts =>
      refine ⟨(List.any_eq_true.mpr ⟨driver, hdriver, haccepts⟩).symm, fun d hd => ?_⟩
      rwa [List.mem_singleton.mp hd]
    next =>
      refine ⟨askAll_handled _ _, fun d hd => ?_⟩
      rcases List.mem_append.mp hd with hd | hd
      · rwa [List.mem_singleton.mp hd]
      · exact askAll_called hd

/-- After any registrations, an interrupt is handled exactly if a registered driver accepts it, as
it would be without the fast path, and only registered drivers are called. -/
theorem dispatch_irq_complete (maxIrqs : ℕ) (ops : List RegistryOp)
    (handleIrq : AnyDriver → ℕ → Bool) (stats : IrqStats) (irq : ℕ) :
    let r := Registry.after maxIrqs ops
    let d := r.dispatchIrq maxIrqs handleIrq stats irq
    (d.handled = true ↔ ∃ driver ∈ r.registered, handleIrq driver irq = true) ∧
      (∀ driver ∈ d.called, driver ∈ r.registered) ∧
      d.handled = (askAll (handleIrq · irq) r.drivers).1 := by
  intro r d
  obtain ⟨hhandled, hcalled⟩ :=
    (after_fastPathSound maxIrqs ops).dispatchIrq handleIrq stats irq
  refine ⟨?_, hcalled, hhandled.trans (askAll_handled _ _).symm⟩
  rw [hhandled, List.any_eq_true]

/-- Every dispatch is counted once as a hit or as a miss. -/
theorem dispatchIrq_counted (handleIrq : AnyDriver → ℕ → Bool) (stats : IrqStats)
    (h : stats.dispatches = stats.driverHits + stats.driverMisses) :
    (r.dispatchIrq maxIrqs handleIrq stats irq).stats.dispatches =
      (r.dispatchIrq maxIrqs handleIrq stats irq).stats.driverHits +
        (r.dispatchIrq maxIrqs handleIrq stats irq).stats.driverMisses := by
  have hhit : stats.dispatches + 1 = stats.driverHits + 1 + stats.driverMisses := by
    rw [h, UInt32.add_assoc, UInt32.add_assoc, UInt32.add_comm stats.driverMisses]
  have hmiss : stats.dispatches + 1 = stats.driverHits + (stats.driverMisses + 1) := by
    rw [h, UInt32.add_assoc]
  unfold Registry.dispatchIrq Registry.dispatchSlow
  dsimp only
  split
  · split_ifs
    · exact hhit
    · exact hmiss
  · split_ifs
    · exact hhit
    · exact hhit
    · exact hmiss

/-- A driver at slot 0 shares the interrupt with the one that the fast path holds. -/
example :
    let ops : List RegistryOp := [.register (uartAt 1 0x1000), .register (uartAt 2 0x2000),
      .unregister [0x75, 0x61, 0x72, 0x74], .register (uartAt 3 0x3000)]
    let d := (Registry.after 64 ops).dispatchIrq 64 (fun driver irq => driver.addr == 2 && irq == 10)
      {} 10
    d.handled = true ∧ d.called.map AnyDriver.addr = [3, 3, 2] := by
  decide +kernel

end OpenIon.Driver
