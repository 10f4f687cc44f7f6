import OpenIon.Arch.Riscv.Trap

/-! # Which handler a trap runs

How `rust_trap_handler` classifies a trap, from the cause register and from the instruction at
the address to return to, and what it then runs. An interrupt should change nothing in the
frame. The test for a yield also reads the instruction that an interrupt came before, so it
takes an interrupt for a yield when that instruction is an `ebreak`.
-/
namespace OpenIon.Arch.Riscv
open Lib.Asm

structure IrqHandlers where
  idHandler : Bool
  handler : Bool

inductive IrqCall where
  | withId (id : ℕ)
  | plain
  | nothing
  deriving DecidableEq

inductive Path where
  | tick
  | yield
  | syscall
  | external (call : IrqCall)
  | panicked
  deriving DecidableEq

section Classify

variable (bytes : ℕ) (mode : Mode) (irqs : IrqHandlers) (rawCause : ℕ)

def isInterrupt : Bool := rawCause.testBit (8 * bytes - 1)

def interruptId : ℕ := rawCause % 2 ^ (8 * bytes - 1)

def timerId : Mode → ℕ
  | .machine => 7
  | .supervisor => 5

def externalId : Mode → ℕ
  | .machine => 11
  | .supervisor => 9

def softwareId : Mode → ℕ
  | .machine => 3
  | .supervisor => 1

def isTimer : Bool := isInterrupt bytes rawCause && interruptId bytes rawCause == timerId mode

/-- The standard external interrupt; on the machine level also every other one but the software
interrupt, and on the supervisor level if there is a handler for numbered interrupts. -/
def isExternal : Bool :=
  match mode with
  | .machine =>
    isInterrupt bytes rawCause && interruptId bytes rawCause != softwareId mode &&
      (interruptId bytes rawCause == externalId mode || !isTimer bytes mode rawCause)
  | .supervisor =>
    (isInterrupt bytes rawCause && interruptId bytes rawCause == externalId mode) ||
      (irqs.idHandler && isInterrupt bytes rawCause &&
        interruptId bytes rawCause != softwareId mode && !isTimer bytes mode rawCause)

def isBreakpoint : Bool := !isInterrupt bytes rawCause && interruptId bytes rawCause == 3

def isSyscall : Bool :=
  !isInterrupt bytes rawCause &&
    (interruptId bytes rawCause == 8 || interruptId bytes rawCause == 9 ||
      (mode == .machine && interruptId bytes rawCause == 11))

def Trap.ofCause : Trap where
  isTimer := Riscv.isTimer bytes mode rawCause
  isBreakpoint := Riscv.isBreakpoint bytes rawCause
  isSyscall := Riscv.isSyscall bytes mode rawCause
  isExternal := Riscv.isExternal bytes mode irqs rawCause

def irqCall : IrqCall :=
  if irqs.idHandler then .withId (interruptId bytes rawCause % 2 ^ 32)
  else if irqs.handler then .plain
  else .nothing

/-- The branch that is taken, and the frame after it. A system call returns `ret`. -/
def rustTrapHandler (code : ℕ → ℕ) (ret : ℕ) (tf : Ctx) : Path × Ctx :=
  if isTimer bytes mode rawCause then (.tick, tf)
  else if isBreakpoint bytes rawCause || isEbreakInstruction code tf.epc then
    (.yield, { tf with epc := (tf.epc + instructionLen code tf.epc) % 2 ^ (8 * bytes) })
  else if isSyscall bytes mode rawCause then
    (.syscall,
      { tf with x := Function.update tf.x a0 ret, epc := (tf.epc + 4) % 2 ^ (8 * bytes) })
  else if isExternal bytes mode irqs rawCause then (.external (irqCall bytes irqs rawCause), tf)
  else (.panicked, tf)

/-- An interrupt leaves the frame alone and runs its own handler, and no other trap is taken for a
yield or a system call. An interrupt controller may give every interrupt a number of its own: on
the supervisor level these are served if there is a handler for them. -/
structure HandlesOwnCause (code : ℕ → ℕ) (ret : ℕ) (tf : Ctx) : Prop where
  timer : isInterrupt bytes rawCause = true → interruptId bytes rawCause = timerId mode →
    rustTrapHandler bytes mode irqs rawCause code ret tf = (.tick, tf)
  external : isInterrupt bytes rawCause = true → interruptId bytes rawCause = externalId mode →
    rustTrapHandler bytes mode irqs rawCause code ret tf =
      (.external (irqCall bytes irqs rawCause), tf)
  numbered : isInterrupt bytes rawCause = true → mode = .machine ∨ irqs.idHandler = true →
    interruptId bytes rawCause ≠ softwareId mode → interruptId bytes rawCause ≠ timerId mode →
    rustTrapHandler bytes mode irqs rawCause code ret tf =
      (.external (irqCall bytes irqs rawCause), tf)
  yield : (rustTrapHandler bytes mode irqs rawCause code ret tf).1 = .yield →
    isInterrupt bytes rawCause = false ∧ interruptId bytes rawCause = 3
  syscall : (rustTrapHandler bytes mode irqs rawCause code ret tf).1 = .syscall →
    isInterrupt bytes rawCause = false ∧ interruptId bytes rawCause ∈ [8, 9, 11]

end Classify

variable {bytes : ℕ} {mode : Mode} {irqs : IrqHandlers} {rawCause ret : ℕ} {code : ℕ → ℕ} {tf : Ctx}

/-- The frame is the one that the context switch goes on with. -/
theorem handled_ofCause :
    tf.handled bytes code (.ofCause bytes mode irqs rawCause) ret =
      if (rustTrapHandler bytes mode irqs rawCause code ret tf).1 = .panicked then none
      else some (rustTrapHandler bytes mode irqs rawCause code ret tf).2 := by
  unfold Ctx.handled rustTrapHandler Trap.ofCause
  dsimp only
  split_ifs <;> simp_all

theorem isTimer_eq_true :
    isTimer bytes mode rawCause = true ↔
      isInterrupt bytes rawCause = true ∧ interruptId bytes rawCause = timerId mode := by
  simp [isTimer]

theorem isBreakpoint_eq_true :
    isBreakpoint bytes rawCause = true ↔
      isInterrupt bytes rawCause = false ∧ interruptId bytes rawCause = 3 := by
  simp [isBreakpoint]

theorem not_exception (mode : Mode) (hi : isInterrupt bytes rawCause = true) :
    isBreakpoint bytes rawCause = false ∧ isSyscall bytes mode rawCause = false := by
  simp [isBreakpoint, isSyscall, hi]

theorem external_cases (irqs : IrqHandlers) (hi : isInterrupt bytes rawCause = true)
    (hid : interruptId bytes rawCause = externalId mode) :
    isTimer bytes mode rawCause = false ∧ isExternal bytes mode irqs rawCause = true := by
  cases mode with
  | machine => simp [isTimer, isExternal, hi, hid, externalId, timerId, softwareId]
  | supervisor => simp [isTimer, isExternal, hi, hid, externalId, timerId]

theorem isExternal_of_numbered (hi : isInterrupt bytes rawCause = true)
    (hhandler : mode = .machine ∨ irqs.idHandler = true)
    (hsoftware : interruptId bytes rawCause ≠ softwareId mode)
    (htimer : isTimer bytes mode rawCause = false) :
    isExternal bytes mode irqs rawCause = true := by
  cases mode with
  | machine => simp [isExternal, hi, hsoftware, htimer]
  | supervisor =>
    have hid : irqs.idHandler = true := hhandler.resolve_left (by decide)
    simp [isExternal, hi, hsoftware, htimer, hid]

theorem rustTrapHandler_external (hi : isInterrupt bytes rawCause = true)
    (ht : isTimer bytes mode rawCause = false) (he : isEbreakInstruction code tf.epc = false)
    (hx : isExternal bytes mode irqs rawCause = true) :
    rustTrapHandler bytes mode irqs rawCause code ret tf =
      (.external (irqCall bytes irqs rawCause), tf) := by
  rcases not_exception mode hi with ⟨hb, hs⟩
  simp [rustTrapHandler, ht, hb, he, hs, hx]

/-- A trap that is not the timer interrupt runs the handler of its own cause exactly if it is a
breakpoint or there is no `ebreak` at the address to return to. -/
theorem handles_own_cause_iff (bytes : ℕ) (mode : Mode) (irqs : IrqHandlers) (rawCause : ℕ)
    (code : ℕ → ℕ) (ret : ℕ) (tf : Ctx) :
    HandlesOwnCause bytes mode irqs rawCause code ret tf ↔
      isTimer bytes mode rawCause = true ∨ isBreakpoint bytes rawCause = true ∨
        isEbreakInstruction code tf.epc = false := by
  by_cases ht : isTimer bytes mode rawCause = true
  · have hhandler : rustTrapHandler bytes mode irqs rawCause code ret tf = (.tick, tf) := by
      rw [rustTrapHandler, if_pos ht]
    refine iff_of_true ⟨fun _ _ => hhandler, ?_, ?_, ?_, ?_⟩ (.inl ht)
    · intro hi hid
      simp [(external_cases irqs hi hid).1] at ht
    · intro _ _ _ hid
      exact absurd (isTimer_eq_true.mp ht).2 hid
    · simp [hhandler]
    · simp [hhandler]
  by_cases hb : isBreakpoint bytes rawCause = true
  · rcases isBreakpoint_eq_true.mp hb with ⟨hi, hid⟩
    have hpath : (rustTrapHandler bytes mode irqs rawCause code ret tf).1 = .yield := by
      rw [rustTrapHandler, if_neg ht, if_pos (by rw [hb, Bool.true_or])]
    refine iff_of_true ⟨?_, ?_, ?_, fun _ => ⟨hi, hid⟩, ?_⟩ (.inr (.inl hb))
    · simp [hi]
    · simp [hi]
    · simp [hi]
    · simp [hpath]
  cases he : isEbreakInstruction code tf.epc with
  | true =>
    have hpath : (rustTrapHandler bytes mode irqs rawCause code ret tf).1 = .yield := by
      rw [rustTrapHandler, if_neg ht, if_pos (by rw [he, Bool.or_true])]
    refine iff_of_false (fun h => ?_) (by simp [ht, hb])
    exact hb (isBreakpoint_eq_true.mpr (h.yield hpath))
  | false =>
    have hyield : (isBreakpoint bytes rawCause || isEbreakInstruction code tf.epc) = false := by
      simp [hb, he]
    refine iff_of_true ⟨?_, ?_, ?_, ?_, ?_⟩ (.inr (.inr rfl))
    · intro hi hid
      exact absurd (isTimer_eq_true.mpr ⟨hi, hid⟩) ht
    · intro hi hid
      rcases external_cases irqs hi hid with ⟨ht, hx⟩
      exact rustTrapHandler_external hi ht he hx
    · intro hi hhandler hsoftware _
      have htimer : isTimer bytes mode rawCause = false := Bool.eq_false_iff.mpr ht
      exact rustTrapHandler_external hi htimer he
        (isExternal_of_numbered hi hhandler hsoftware htimer)
    · intro hpath
      simp only [rustTrapHandler, ht, hyield] at hpath
      split_ifs at hpath
    · intro hpath
      have hs : isSyscall bytes mode rawCause = true := by
        by_contra hs
        simp only [rustTrapHandler, ht, hyield, hs] at hpath
        split_ifs at hpath
      simp only [isSyscall, Bool.and_eq_true, Bool.or_eq_true, Bool.not_eq_true', beq_iff_eq] at hs
      refine ⟨hs.1, ?_⟩
      rcases hs.2 with (h | h) | h
      · simp [h]
      · simp [h]
      · simp [h.2]

/-- An external interrupt just before the `ebreak` of `yield_cpu` skips the instruction, and the
registered handler does not run. -/
theorem interrupt_skips_ebreak :
    rustTrapHandler 8 .machine ⟨false, true⟩ (2 ^ 63 + 11) (fun _ => 0x9002) 0
        ⟨fun _ => 0, 0x1880, 0x1000⟩ = (.yield, ⟨fun _ => 0, 0x1880, 0x1002⟩) ∧
      ¬ HandlesOwnCause 8 .machine ⟨false, true⟩ (2 ^ 63 + 11) (fun _ => 0x9002) 0
        ⟨fun _ => 0, 0x1880, 0x1000⟩ := by
  have hpath : rustTrapHandler 8 .machine ⟨false, true⟩ (2 ^ 63 + 11) (fun _ => 0x9002) 0
      ⟨fun _ => 0, 0x1880, 0x1000⟩ = (.yield, ⟨fun _ => 0, 0x1880, 0x1002⟩) := rfl
  refine ⟨hpath, fun h => ?_⟩
  have hexternal := h.external (by decide) (by decide)
  rw [hpath] at hexternal
  simp at hexternal

end OpenIon.Arch.Riscv
