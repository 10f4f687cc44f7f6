import Mathlib.Data.List.Basic

/-! # The table of interrupt handlers

`irq/mod.rs`: handlers by number, the lookup of a claimed interrupt, and the counters. An interrupt
without a handler of its own is offered to the drivers. The size of the table is a constant of the
configuration, and the number of interrupts that are in use is at most that.
-/
namespace OpenIon.Irq

structure IrqState (H : Type*) (maxExternalIrqs : ℕ) where
  count : ℕ
  table : List (Option H)
  count_le : count ≤ maxExternalIrqs
  length_table : table.length = maxExternalIrqs

structure Irqs (H : Type*) (maxExternalIrqs : ℕ) where
  state : IrqState H maxExternalIrqs
  handled : UInt32
  unhandled : UInt32
  outOfRange : UInt32
  lastIrq : UInt32
  lastUnhandledIrq : UInt32

inductive Target (H : Type*) where
  | outOfRange
  | handler (h : H)
  | drivers
  deriving DecidableEq

variable {H : Type*} {maxExternalIrqs : ℕ}

def IrqState.set (s : IrqState H maxExternalIrqs) (irqn : ℕ) (h : Option H) :
    IrqState H maxExternalIrqs :=
  { s with
    table := s.table.set irqn h
    length_table := List.length_set.trans s.length_table }

namespace Irqs

def init (maxExternalIrqs count : ℕ) : Irqs H maxExternalIrqs where
  state :=
    { count := min count maxExternalIrqs
      table := List.replicate maxExternalIrqs none
      count_le := Nat.min_le_right _ _
      length_table := List.length_replicate }
  handled := 0
  unhandled := 0
  outOfRange := 0
  lastIrq := 0xFFFFFFFF
  lastUnhandledIrq := 0xFFFFFFFF

def addIrqHandler (k : Irqs H maxExternalIrqs) (irqn : ℕ) (h : H) :
    Bool × Irqs H maxExternalIrqs :=
  if irqn < k.state.count then (true, { k with state := k.state.set irqn (some h) }) else (false, k)

def removeIrqHandler (k : Irqs H maxExternalIrqs) (irqn : ℕ) : Bool × Irqs H maxExternalIrqs :=
  if irqn < k.state.count then (true, { k with state := k.state.set irqn none }) else (false, k)

/-- The lookup of `handle_irq`. Numbers below the count are in the table. -/
def target (k : Irqs H maxExternalIrqs) (irqn : ℕ) : Target H :=
  if irqn < k.state.count then (k.state.table.getD irqn none).elim .drivers .handler
  else .outOfRange

/-- `handle_irq` before the interrupt is handled. -/
def enter (k : Irqs H maxExternalIrqs) (irqn : ℕ) : Irqs H maxExternalIrqs :=
  { k with lastIrq := UInt32.ofNat irqn }

/-- `handle_irq` after that. -/
def leave (k : Irqs H maxExternalIrqs) (irqn : ℕ) (t : Target H) (handled : Bool) :
    Irqs H maxExternalIrqs :=
  match t with
  | .outOfRange =>
    { k with outOfRange := k.outOfRange + 1, lastUnhandledIrq := UInt32.ofNat irqn }
  | _ =>
    if handled then { k with handled := k.handled + 1 }
    else { k with unhandled := k.unhandled + 1, lastUnhandledIrq := UInt32.ofNat irqn }

/-- How many interrupts the counters have, of each kind once. -/
def counted (k : Irqs H maxExternalIrqs) : UInt32 := k.handled + k.unhandled + k.outOfRange

variable {k : Irqs H maxExternalIrqs} {irqn : ℕ}

theorem counted_leave (t : Target H) (handled : Bool) :
    (k.leave irqn t handled).counted = k.counted + 1 := by
  unfold leave counted
  cases t <;> cases handled <;> simp <;> ac_rfl

theorem unhandled_leave_drivers (handled : Bool) :
    (k.leave irqn .drivers handled).unhandled =
      if handled then k.unhandled else k.unhandled + 1 := by
  cases handled <;> rfl

theorem state_leave (t : Target H) (handled : Bool) : (k.leave irqn t handled).state = k.state := by
  unfold leave
  cases t <;> cases handled <;> rfl

theorem addIrqHandler_keeps (h : H) :
    (k.addIrqHandler irqn h).2.state.count = k.state.count ∧
      (k.addIrqHandler irqn h).2.counted = k.counted ∧
      (k.addIrqHandler irqn h).2.unhandled = k.unhandled := by
  unfold addIrqHandler
  split <;> exact ⟨rfl, rfl, rfl⟩

theorem removeIrqHandler_keeps :
    (k.removeIrqHandler irqn).2.state.count = k.state.count ∧
      (k.removeIrqHandler irqn).2.counted = k.counted ∧
      (k.removeIrqHandler irqn).2.unhandled = k.unhandled := by
  unfold removeIrqHandler
  split <;> exact ⟨rfl, rfl, rfl⟩

theorem target_eq_outOfRange : k.target irqn = .outOfRange ↔ k.state.count ≤ irqn := by
  unfold target
  split
  · cases k.state.table.getD irqn none <;> simpa
  · simpa using Nat.le_of_not_lt ‹_›

end Irqs

end OpenIon.Irq
