import Mathlib.Data.Finset.Card
import OpenIon.Arch.Riscv.Trap
import OpenIon.Lib.Run

/-! # Critical sections on one hart

`disable_irq` and `enable_irq` count the open sections of a processor in one counter, which they
read and write in separate instructions, and they mask and unmask the interrupts with the first
and the last section. Interrupts may come at every instruction while they are not masked; the
trap handler counts itself as a section, and it may resume another task than the one it stopped.

A thread is the code of a task, or of the boot, with the traps that stopped it on top of it. What
the code does is modelled instruction by instruction as far as the counter, the interrupt enable
bits and the spin locks are concerned.
-/
namespace OpenIon.Arch.Riscv.CriticalSections

/-- How far a context is in `disable_irq` or `enable_irq`, and what it has read there. -/
inductive Code where
  | outside
  /-- `disable_irq` has read the counter. -/
  | disabling (nest : ℕ)
  /-- `disable_irq` has masked the interrupts if it had to, and writes the counter next. -/
  | masked (nest : ℕ)
  /-- `exit_critical` has read the counter for `enable_irq`. -/
  | exiting (nest : ℕ)
  /-- `exit_critical` has returned to `enable_irq`. -/
  | exited (nest : ℕ)
  /-- `enable_irq` has found out whether it unmasks the interrupts. -/
  | unmasking (unmask : Bool)
  deriving DecidableEq

/-- Code that opens and closes sections: how many are open, and the mutexes whose guard it holds. -/
structure Context (M : Type) where
  code : Code
  sections : ℕ
  guards : Finset M

def Context.fresh {M : Type} : Context M := ⟨.outside, 0, ∅⟩

structure Status where
  enabled : Bool
  previous : Bool
  deriving DecidableEq

/-- Where the two bits are in the status register. -/
def enableBit : Mode → ℕ
  | .machine => 3
  | .supervisor => 1

def previousBit : Mode → ℕ
  | .machine => 7
  | .supervisor => 5

def Status.ofWord (mode : Mode) (word : ℕ) : Status :=
  ⟨word.testBit (enableBit mode), word.testBit (previousBit mode)⟩

/-- Where a trap is in `trap_vector`, `rust_trap_handler` and `trap_exit`. -/
inductive Stage where
  /-- The registers and the status are being saved in the frame. -/
  | saving
  /-- `enter_critical` comes next. -/
  | entering
  | handling
  /-- `exit_critical` has read the counter. -/
  | leaving (nest : ℕ)
  /-- `CURRENT_TCB` and `NEXT_TCB` are compared next. -/
  | switching
  /-- `trap_exit`: the status is loaded from the frame. -/
  | restoring
  /-- `mret` or `sret` comes next. -/
  | returning
  deriving DecidableEq

structure Level (M : Type) where
  stage : Stage
  frame : Status
  context : Context M

/-- The innermost trap is the first of `levels`. -/
structure Thread (M : Type) where
  base : Context M
  levels : List (Level M)

/-- The thread `none` is the boot, which runs as long as `CURRENT_TCB` is null. -/
structure Hart (T M : Type) where
  nest : ℕ
  status : Status
  current : Option T
  next : Option T
  locked : M → Bool
  threads : Option T → Thread M

inductive Action (T M : Type) where
  /-- The next instruction in `disable_irq`, in `enable_irq` or on the way in and out of a trap. -/
  | advance
  /-- Calls `disable_irq`, for a section or at the start of `Mutex::lock`. -/
  | disable
  /-- Calls `enable_irq`, for a section or at the end of the drop of a guard. -/
  | enable
  /-- Tries to take the spin lock of a mutex. -/
  | acquire (m : M)
  /-- Gives up the spin lock of a mutex. -/
  | release (m : M)
  | schedule (t : T)
  | create (t : T)
  /-- Yields or calls the kernel. -/
  | trap
  | interrupt
  /-- The handler calls `exit_critical`. -/
  | exit
  /-- `load_first_task_and_start` -/
  | start

section Step

variable {T M : Type} [DecidableEq T] [DecidableEq M]

def Context.advance (bytes : ℕ) (started : Bool) (nest : ℕ) (enabled : Bool) (c : Context M) :
    Option (ℕ × Bool × Context M) :=
  match c.code with
  | .outside => none
  | .disabling n => some (nest, if n = 0 then false else enabled, { c with code := .masked n })
  | .masked n =>
    some ((n + 1) % 2 ^ (8 * bytes), enabled,
      { c with code := .outside, sections := c.sections + 1 })
  | .exiting n =>
    some (if n = 0 then nest else n - 1, enabled, { c with code := .exited (n - 1) })
  | .exited n => some (nest, enabled, { c with code := .unmasking (n == 0 && started) })
  | .unmasking b => some (nest, if b then true else enabled, { c with code := .outside })

namespace Thread

def top (th : Thread M) : Context M :=
  match th.levels with
  | [] => th.base
  | l :: _ => l.context

def setTop (th : Thread M) (c : Context M) : Thread M :=
  match th.levels with
  | [] => { th with base := c }
  | l :: ls => { th with levels := { l with context := c } :: ls }

/-- Inside a trap, between `enter_critical` and the end of `exit_critical`. -/
def entered (th : Thread M) : Bool :=
  match th.levels with
  | [] => false
  | l :: _ => match l.stage with
    | .handling | .leaving _ => true
    | _ => false

/-- Not on the way into a trap or out of it. -/
def settled (th : Thread M) : Bool :=
  match th.levels with
  | [] => true
  | l :: _ => l.stage == .handling

/-- The code of the thread may do anything next. -/
def free (th : Thread M) : Bool := th.settled && th.top.code == .outside

def contexts (th : Thread M) : List (Context M) := th.base :: th.levels.map Level.context

def init (mode : Mode) (k : Option T) : Thread M :=
  ⟨.fresh, if k.isSome then [⟨.restoring, .ofWord mode (initStatus mode), .fresh⟩] else []⟩

end Thread

namespace Hart

def running (s : Hart T M) : Thread M := s.threads s.current

def setRunning (s : Hart T M) (th : Thread M) : Hart T M :=
  { s with threads := Function.update s.threads s.current th }

def setTop (s : Hart T M) (c : Context M) : Hart T M := s.setRunning (s.running.setTop c)

def takeTrap (s : Hart T M) : Hart T M :=
  { s.setRunning { s.running with
      levels := ⟨.saving, ⟨false, false⟩, .fresh⟩ :: s.running.levels } with
    status := ⟨false, s.status.enabled⟩ }

def advanceTop (bytes : ℕ) (s : Hart T M) : Option (Hart T M) :=
  (s.running.top.advance bytes s.current.isSome s.nest s.status.enabled).map fun r =>
    { s.setTop r.2.2 with nest := r.1, status := ⟨r.2.1, s.status.previous⟩ }

/-- The next instruction of the trap `l`, which stopped the rest of the thread. -/
def advanceTrap (bytes : ℕ) (s : Hart T M) (l : Level M) (ls : List (Level M)) :
    Option (Hart T M) :=
  let put (l : Level M) : Hart T M := s.setRunning { s.running with levels := l :: ls }
  match l.stage with
  | .saving => some (put { l with stage := .entering, frame := s.status })
  | .entering =>
    some { put { l with stage := .handling } with nest := (s.nest + 1) % 2 ^ (8 * bytes) }
  | .handling => s.advanceTop bytes
  | .leaving n =>
    some { put { l with stage := .switching } with nest := if n = 0 then s.nest else n - 1 }
  | .switching =>
    s.next.map fun t => { put { l with stage := .restoring } with current := some t }
  | .restoring => some { put { l with stage := .returning } with status := l.frame }
  | .returning =>
    some { s.setRunning { s.running with levels := ls } with
      status := ⟨s.status.previous, true⟩ }

/-- What the running code does outside of `disable_irq`, `enable_irq` and the traps. -/
def call (s : Hart T M) (c : Context M) : Action T M → Option (Hart T M)
  | .disable => some (s.setTop { c with code := .disabling s.nest })
  | .enable => some (s.setTop { c with code := .exiting s.nest, sections := c.sections - 1 })
  | .acquire m =>
    -- a lock that is taken is tried again
    if s.locked m then some s
    else some { s.setTop { c with guards := insert m c.guards } with
      locked := Function.update s.locked m true }
  | .release m =>
    some { s.setTop { c with guards := c.guards.erase m } with
      locked := Function.update s.locked m false }
  | .schedule t => some { s with next := some t }
  | .trap => some s.takeTrap
  | .exit =>
    match s.running.levels with
    | [] => none
    | l :: ls =>
      some (s.setRunning { s.running with levels := { l with stage := .leaving s.nest } :: ls })
  | .start => if s.current = none then s.next.map fun t => { s with current := some t } else none
  | _ => none

end Hart

def step (bytes : ℕ) (mode : Mode) (s : Hart T M) (a : Action T M) : Option (Hart T M) :=
  match a with
  | .advance =>
    match s.running.levels with
    | [] => s.advanceTop bytes
    | l :: ls => s.advanceTrap bytes l ls
  | .interrupt => if s.status.enabled then some s.takeTrap else none
  | .create t =>
    if s.running.free && s.current != some t then
      some { s with threads := Function.update s.threads (some t) (.init mode (some t)) }
    else none
  | a => if s.running.free then s.call s.running.top a else none

def boot (mode : Mode) (previous : Bool) : Hart T M where
  nest := 0
  status := ⟨false, previous⟩
  current := none
  next := none
  locked _ := false
  threads := .init mode

end Step

section Discipline

variable {T M : Type} [DecidableEq T] [DecidableEq M]

/-- Code made of balanced sections: every guard has an open section of its own, a section is
closed once, and the code yields, ends a handler or leaves the boot with no section open. -/
def Balanced (s : Hart T M) : Action T M → Prop
  | .enable | .acquire _ => s.running.top.guards.card < s.running.top.sections
  | .release m => m ∈ s.running.top.guards
  | .trap => s.current.isSome ∧ s.running.levels = [] ∧ s.running.top.sections = 0
  | .exit | .start => s.running.top.sections = 0
  | _ => True

def HasRoom (bytes : ℕ) (s : Hart T M) : Action T M → Prop
  | .disable => s.running.top.sections + s.running.levels.length + 1 < 2 ^ (8 * bytes)
  | _ => True

instance Balanced.instDecidable (s : Hart T M) : (a : Action T M) → Decidable (Balanced s a)
  | .enable | .acquire _ => inferInstanceAs (Decidable (_ < _))
  | .release _ => inferInstanceAs (Decidable (_ ∈ _))
  | .trap => inferInstanceAs (Decidable (_ ∧ _ = [] ∧ _ = 0))
  | .exit | .start => inferInstanceAs (Decidable (_ = 0))
  | .advance | .disable | .schedule _ | .create _ | .interrupt => isTrue trivial

instance HasRoom.instDecidable (bytes : ℕ) (s : Hart T M) :
    (a : Action T M) → Decidable (HasRoom bytes s a)
  | .disable => inferInstanceAs (Decidable (_ < _))
  | .advance | .enable | .acquire _ | .release _ | .schedule _ | .create _ | .trap | .interrupt
  | .exit | .start => isTrue trivial

/-- No guard is held while interrupts can come, the counter is the number of open sections, and a
task that has none open can be interrupted. On the way into a trap and out of it the counter is 0
and the interrupts are masked. -/
structure SectionsKept (s : Hart T M) : Prop where
  guarded : ∀ k, ∀ c ∈ (s.threads k).contexts, c.guards.Nonempty → s.status.enabled = false
  counted : s.running.top.code = .outside →
    s.nest = s.running.top.sections + s.running.entered.toNat
  unmasked : s.current.isSome → s.running.settled → s.running.top.code = .outside → s.nest = 0 →
    s.status.enabled = true
  passing : s.running.settled = false → s.running.entered = false →
    s.nest = 0 ∧ s.status.enabled = false

end Discipline

section Invariant

variable {T M : Type}

/-- What the counter and the enable bit are while the context runs. The handler of a trap counts
as a section of its own: `base` is 1 there. -/
def Context.Agrees (bytes base : ℕ) (started : Bool) (nest : ℕ) (enabled : Bool)
    (c : Context M) : Prop :=
  c.guards.card ≤ c.sections ∧
    match c.code with
    | .outside => nest = c.sections + base ∧ enabled = (started && nest == 0)
    | .disabling n =>
      n = nest ∧ nest = c.sections + base ∧ nest + 1 < 2 ^ (8 * bytes) ∧
        enabled = (started && nest == 0)
    | .masked n =>
      n = nest ∧ nest = c.sections + base ∧ nest + 1 < 2 ^ (8 * bytes) ∧ enabled = false
    | .exiting n => n = nest ∧ nest = c.sections + base + 1 ∧ enabled = false
    | .exited n => n = nest ∧ nest = c.sections + base ∧ enabled = false
    | .unmasking b =>
      nest = c.sections + base ∧ enabled = false ∧ b = (started && nest == 0)

structure Context.Idle (c : Context M) : Prop where
  code : c.code = .outside ∨ c.code = .disabling 0
  sections : c.sections = 0
  guards : c.guards = ∅

def Level.suspended : Level M := ⟨.restoring, ⟨false, true⟩, .fresh⟩

def Level.Agrees (bytes : ℕ) (nest : ℕ) (status : Status) (l : Level M) : Prop :=
  match l.stage with
  | .saving => nest = 0 ∧ status = ⟨false, true⟩ ∧ l.context = .fresh
  | .handling =>
    l.frame = ⟨false, true⟩ ∧ l.context.Agrees bytes 1 true nest status.enabled
  | .leaving n =>
    n = nest ∧ nest = 1 ∧ status.enabled = false ∧ l.frame = ⟨false, true⟩ ∧ l.context = .fresh
  | .entering | .switching | .restoring =>
    nest = 0 ∧ status.enabled = false ∧ l.frame = ⟨false, true⟩ ∧ l.context = .fresh
  | .returning => nest = 0 ∧ status = ⟨false, true⟩ ∧ l.context = .fresh

inductive Thread.Agrees (bytes : ℕ) (started : Bool) (nest : ℕ) (status : Status) :
    Thread M → Prop where
  | code {c : Context M} (h : c.Agrees bytes 0 started nest status.enabled) :
    Agrees bytes started nest status ⟨c, []⟩
  | trap {c : Context M} {l : Level M} (hstarted : started = true) (hbase : c.Idle)
    (h : l.Agrees bytes nest status) : Agrees bytes started nest status ⟨c, [l]⟩

structure Thread.Parked (k : Option T) (th : Thread M) : Prop where
  base : th.base.Idle
  levels : th.levels = if k.isSome then [.suspended] else []

structure Consistent (bytes : ℕ) (s : Hart T M) : Prop where
  running : s.running.Agrees bytes s.current.isSome s.nest s.status
  parked : ∀ k, k ≠ s.current → (s.threads k).Parked k
  locked : ∀ m, s.locked m = true ↔ m ∈ s.running.top.guards

end Invariant

section Contexts

variable {M : Type} {bytes base nest nest' : ℕ} {started enabled enabled' : Bool}
  {c c' : Context M}

theorem Context.idle_fresh : (Context.fresh : Context M).Idle := ⟨.inl rfl, rfl, rfl⟩

/-- When the first section masks the interrupts, none is open while they are not masked. -/
theorem Context.closed (hcard : c.guards.card ≤ c.sections) (hnest : nest = c.sections + base)
    (henabled : true = (started && nest == 0)) :
    c.sections = 0 ∧ c.guards = ∅ ∧ nest = 0 ∧ base = 0 ∧ started = true := by
  obtain ⟨hstarted, hzero⟩ := Bool.and_eq_true_iff.mp henabled.symm
  have hzero : nest = 0 := eq_of_beq hzero
  have hclosed : c.sections = 0 := by omega
  exact ⟨hclosed, Finset.card_eq_zero.mp (by omega), hzero, by omega, hstarted⟩

namespace Context.Agrees

/-- Interrupts come only to code with no section open. -/
theorem idle (h : c.Agrees bytes base started nest true) :
    c.Idle ∧ nest = 0 ∧ base = 0 ∧ started = true := by
  obtain ⟨code, sections, guards⟩ := c
  cases code with
  | outside =>
    obtain ⟨hcard, hnest, henabled⟩ := h
    obtain ⟨hclosed, hguards, hrest⟩ := Context.closed hcard hnest henabled
    exact ⟨⟨.inl rfl, hclosed, hguards⟩, hrest⟩
  | disabling n =>
    obtain ⟨hcard, rfl, hnest, -, henabled⟩ := h
    obtain ⟨hclosed, hguards, rfl, hrest⟩ := Context.closed hcard hnest henabled
    exact ⟨⟨.inr rfl, hclosed, hguards⟩, rfl, hrest⟩
  | masked n => exact absurd h.2.2.2.2 (by decide)
  | exiting n => exact absurd h.2.2.2 (by decide)
  | exited n => exact absurd h.2.2.2 (by decide)
  | unmasking b => exact absurd h.2.2.1 (by decide)

/-- A handler runs with the interrupts masked. -/
theorem masked (h : c.Agrees bytes 1 started nest enabled) : enabled = false := by
  cases enabled with
  | false => rfl
  | true => exact absurd h.idle.2.2.1 (by decide)

section

variable (h : c.Agrees bytes base started nest enabled)
include h

theorem guarded (hc : c.guards.Nonempty) :
    enabled = false := by
  cases enabled with
  | false => rfl
  | true => exact absurd h.idle.1.guards hc.ne_empty

theorem advance (hstep : c.advance bytes started nest enabled = some (nest', enabled', c')) :
    c'.Agrees bytes base started nest' enabled' ∧ c'.guards = c.guards := by
  obtain ⟨code, sections, guards⟩ := c
  cases code with
  | outside => cases hstep
  | disabling n =>
    cases hstep
    obtain ⟨hcard, rfl, hnest, hroom, henabled⟩ := h
    refine ⟨⟨hcard, rfl, hnest, hroom, ?_⟩, rfl⟩
    split_ifs with h0
    · rfl
    · rw [henabled, beq_false_of_ne h0, Bool.and_false]
  | masked n =>
    cases hstep
    obtain ⟨hcard, rfl, hnest, hroom, rfl⟩ := h
    dsimp only at hcard hnest
    have hnext : (n + 1) % 2 ^ (8 * bytes) = n + 1 := Nat.mod_eq_of_lt hroom
    refine ⟨⟨by dsimp only; omega, ?_, ?_⟩, rfl⟩
    · dsimp only
      omega
    · rw [hnext, beq_false_of_ne (Nat.succ_ne_zero n), Bool.and_false]
  | exiting n =>
    cases hstep
    obtain ⟨hcard, rfl, hnest, rfl⟩ := h
    dsimp only at hnest
    have hn : n ≠ 0 := by omega
    rw [if_neg hn]
    exact ⟨⟨hcard, rfl, by dsimp only; omega, rfl⟩, rfl⟩
  | exited n =>
    cases hstep
    obtain ⟨hcard, rfl, hnest, rfl⟩ := h
    exact ⟨⟨hcard, hnest, rfl, Bool.and_comm ..⟩, rfl⟩
  | unmasking b =>
    cases hstep
    obtain ⟨hcard, hnest, rfl, rfl⟩ := h
    refine ⟨⟨hcard, hnest, ?_⟩, rfl⟩
    cases started && nest == 0 <;> rfl

theorem outside (hc : c.code = .outside) :
    nest = c.sections + base ∧ enabled = (started && nest == 0) := by
  obtain ⟨code, sections, guards⟩ := c
  cases hc
  exact h.2

theorem disable (hc : c.code = .outside)
    (hroom : c.sections + base + 1 < 2 ^ (8 * bytes)) :
    Agrees bytes base started nest enabled { c with code := .disabling nest } := by
  obtain ⟨hnest, henabled⟩ := h.outside hc
  exact ⟨h.1, rfl, hnest, by rwa [hnest], henabled⟩

theorem enable (hc : c.code = .outside)
    (hopen : c.guards.card < c.sections) :
    Agrees bytes base started nest enabled
      { c with code := .exiting nest, sections := c.sections - 1 } := by
  obtain ⟨hnest, henabled⟩ := h.outside hc
  refine ⟨by dsimp only; omega, rfl, by dsimp only; omega, ?_⟩
  rw [henabled, beq_false_of_ne (by omega), Bool.and_false]

theorem setGuards {guards : Finset M}
    (hcard : guards.card ≤ c.sections) :
    Agrees bytes base started nest enabled { c with guards := guards } :=
  ⟨hcard, h.2⟩

theorem eq_fresh (hc : c.code = .outside)
    (hclosed : c.sections = 0) : c = .fresh := by
  have hguards : c.guards = ∅ := Finset.card_eq_zero.mp (Nat.le_zero.mp (hclosed ▸ h.1))
  obtain ⟨code, sections, guards⟩ := c
  cases hc
  cases hclosed
  cases hguards
  rfl

end

end Context.Agrees

theorem Context.Idle.agrees (h : c.Idle) (hbytes : 0 < bytes) : c.Agrees bytes 0 true 0 true := by
  obtain ⟨code, sections, guards⟩ := c
  obtain ⟨rfl | rfl, rfl, rfl⟩ := h
  · exact ⟨Nat.le_refl 0, rfl, rfl⟩
  · exact ⟨Nat.le_refl 0, rfl, rfl, Nat.one_lt_two_pow (by omega), rfl⟩

end Contexts

section Threads

variable {T M : Type} {bytes nest nest' : ℕ} {started enabled : Bool} {status : Status}
  {c : Context M} {l : Level M} {th : Thread M} {k : Option T}

theorem Level.Agrees.masked (h : l.Agrees bytes nest status) : status.enabled = false := by
  obtain ⟨stage, frame, context⟩ := l
  cases stage with
  | saving => rw [h.2.1]
  | entering => exact h.2.1
  | handling => exact h.2.masked
  | leaving n => exact h.2.2.1
  | switching => exact h.2.1
  | restoring => exact h.2.1
  | returning => rw [h.2.1]

namespace Thread

@[simp] theorem top_setTop : (th.setTop c).top = c := by
  obtain ⟨base, levels⟩ := th
  cases levels <;> rfl

namespace Agrees

theorem top (h : th.Agrees bytes started nest status) (hsettled : th.settled = true) :
    th.top.Agrees bytes th.levels.length started nest status.enabled := by
  cases h with
  | code h => exact h
  | @trap c l hstarted hbase h =>
    subst hstarted
    obtain ⟨stage, frame, context⟩ := l
    cases eq_of_beq hsettled
    exact h.2

theorem setTop (h : th.Agrees bytes started nest status) (hsettled : th.settled = true)
    (hc : c.Agrees bytes th.levels.length started nest' enabled) :
    (th.setTop c).Agrees bytes started nest' ⟨enabled, status.previous⟩ := by
  cases h with
  | code h => exact .code hc
  | @trap _ l hstarted hbase h =>
    subst hstarted
    obtain ⟨stage, frame, context⟩ := l
    cases eq_of_beq hsettled
    exact .trap rfl hbase ⟨h.1, hc⟩

theorem idle (h : th.Agrees bytes started nest status) (henabled : status.enabled = true) :
    th.base.Idle ∧ th.levels = [] ∧ nest = 0 ∧ started = true := by
  cases h with
  | code h =>
    rw [henabled] at h
    obtain ⟨hidle, hnest, -, hstarted⟩ := h.idle
    exact ⟨hidle, rfl, hnest, hstarted⟩
  | trap hstarted hbase h => exact absurd (h.masked.symm.trans henabled) (by decide)

theorem levels_cons (h : th.Agrees bytes started nest status) {ls : List (Level M)}
    (hlevels : th.levels = l :: ls) :
    ls = [] ∧ started = true ∧ th.base.Idle ∧ l.Agrees bytes nest status := by
  cases h with
  | code h => cases hlevels
  | trap hstarted hbase h =>
    cases hlevels
    exact ⟨rfl, hstarted, hbase, h⟩

theorem unstarted (h : th.Agrees bytes false nest status) :
    th.levels = [] ∧ th.base.Agrees bytes 0 false nest status.enabled := by
  cases h with
  | code h => exact ⟨rfl, h⟩
  | trap hstarted => cases hstarted

theorem guarded (h : th.Agrees bytes started nest status) (hc : c ∈ th.contexts)
    (hguards : c.guards.Nonempty) : status.enabled = false := by
  cases h with
  | code h =>
    cases List.mem_singleton.mp hc
    exact h.guarded hguards
  | trap hstarted hbase h => exact h.masked

theorem counted (h : th.Agrees bytes started nest status) (hcode : th.top.code = .outside) :
    nest = th.top.sections + th.entered.toNat := by
  cases h with
  | code h => exact (h.outside hcode).1
  | @trap _ l hstarted hbase h =>
    obtain ⟨stage, frame, context⟩ := l
    cases stage with
    | handling => exact (h.2.outside hcode).1
    | saving =>
      obtain ⟨rfl, -, rfl⟩ := h
      rfl
    | leaving n =>
      obtain ⟨-, rfl, -, -, rfl⟩ := h
      rfl
    | entering =>
      obtain ⟨rfl, -, -, rfl⟩ := h
      rfl
    | switching =>
      obtain ⟨rfl, -, -, rfl⟩ := h
      rfl
    | restoring =>
      obtain ⟨rfl, -, -, rfl⟩ := h
      rfl
    | returning =>
      obtain ⟨rfl, -, rfl⟩ := h
      rfl

theorem passing (h : th.Agrees bytes started nest status) (hsettled : th.settled = false)
    (hentered : th.entered = false) : nest = 0 ∧ status.enabled = false := by
  cases h with
  | code h => cases hsettled
  | @trap _ l hstarted hbase h =>
    obtain ⟨stage, frame, context⟩ := l
    cases stage with
    | handling => cases hsettled
    | leaving n => cases hentered
    | saving | returning =>
      obtain ⟨hnest, rfl, -⟩ := h
      exact ⟨hnest, rfl⟩
    | entering | switching | restoring => exact ⟨h.1, h.2.1⟩

end Agrees

theorem Parked.guards_eq_empty (h : th.Parked k) (hc : c ∈ th.contexts) : c.guards = ∅ := by
  obtain ⟨base, levels⟩ := th
  obtain ⟨hbase, hlevels⟩ := h
  dsimp only at hlevels
  rw [contexts, hlevels] at hc
  cases k with
  | none =>
    cases List.mem_singleton.mp hc
    exact hbase.guards
  | some t =>
    rcases List.mem_pair.mp hc with rfl | rfl
    · exact hbase.guards
    · rfl

theorem parked_init (mode : Mode) (k : Option T) : (init mode k : Thread M).Parked k :=
  ⟨Context.idle_fresh, by cases mode <;> rfl⟩

end Thread

end Threads

section Steps

variable {T M : Type} {bytes : ℕ} {mode : Mode} {s s' : Hart T M}

theorem consistent_boot (mode : Mode) (previous : Bool) :
    Consistent bytes (boot mode previous : Hart T M) where
  running := .code ⟨Nat.le_refl _, rfl, rfl⟩
  parked k _ := Thread.parked_init mode k
  locked m := by simp [boot, Hart.running, Thread.top, Thread.init, Context.fresh]

/-- A task is resumed when no thread runs. -/
theorem Consistent.resume (t : T) (hnest : s.nest = 0) (henabled : s.status.enabled = false)
    (hparked : ∀ k, (s.threads k).Parked k) (hlocked : ∀ m, s.locked m = false) :
    Consistent bytes { s with current := some t } := by
  obtain ⟨hbase, hlevels⟩ := hparked (some t)
  have hthread : s.threads (some t) = ⟨(s.threads (some t)).base, [.suspended]⟩ := by
    rw [← show _ = [Level.suspended] from hlevels]
  refine ⟨?_, fun k _ => hparked k, fun m => ?_⟩
  · change (s.threads (some t)).Agrees bytes true s.nest s.status
    rw [hthread, hnest]
    exact .trap rfl hbase ⟨rfl, henabled, rfl, rfl⟩
  · change _ ↔ m ∈ (s.threads (some t)).top.guards
    rw [hthread, hlocked m]
    simp [Thread.top, Level.suspended, Context.fresh]

theorem Consistent.locked_eq_false (h : Consistent bytes s) (hguards : s.running.top.guards = ∅)
    (m : M) : s.locked m = false := by
  rw [← Bool.not_eq_true, h.locked m, hguards]
  exact Finset.notMem_empty m

theorem Consistent.start (h : Consistent bytes s) (hboot : s.current = none)
    (hcode : s.running.top.code = .outside) (hclosed : s.running.top.sections = 0) (t : T) :
    Consistent bytes { s with current := some t } := by
  have hagrees := h.running
  rw [hboot] at hagrees
  obtain ⟨hlevels, hbase⟩ := hagrees.unstarted
  have htop : s.running.top = s.running.base := by rw [Thread.top, hlevels]
  rw [htop] at hcode hclosed
  obtain ⟨hnest, henabled⟩ := hbase.outside hcode
  have hfresh := hbase.eq_fresh hcode hclosed
  have hguards : s.running.top.guards = ∅ := by rw [htop, hfresh]; rfl
  refine .resume t (by rw [hnest, hclosed]) henabled (fun k => ?_) (h.locked_eq_false hguards)
  by_cases hk : k = s.current
  · rw [hk]
    refine ⟨hfresh ▸ Context.idle_fresh, hlevels.trans ?_⟩
    rw [hboot]
    rfl
  · exact h.parked k hk

theorem Consistent.sectionsKept (h : Consistent bytes s) : SectionsKept s where
  guarded k c hc hguards := by
    by_cases hk : k = s.current
    · subst hk
      exact h.running.guarded hc hguards
    · exact absurd ((h.parked k hk).guards_eq_empty hc) hguards.ne_empty
  counted hcode := h.running.counted hcode
  unmasked hstarted hsettled hcode hnest := by
    obtain ⟨-, henabled⟩ := (h.running.top hsettled).outside hcode
    rw [henabled, hstarted, hnest]
    rfl
  passing hsettled hentered := h.running.passing hsettled hentered

variable [DecidableEq T]

@[simp] theorem Hart.running_setRunning (s : Hart T M) (th : Thread M) :
    (s.setRunning th).running = th :=
  Function.update_self ..

namespace Consistent

theorem setRunning (h : Consistent bytes s) {th : Thread M} {nest : ℕ} {status : Status}
    {locked : M → Bool} (hth : th.Agrees bytes s.current.isSome nest status)
    (hlocked : ∀ m, locked m = true ↔ m ∈ th.top.guards) :
    Consistent bytes
      { s.setRunning th with nest := nest, status := status, locked := locked } where
  running := (s.running_setRunning th).symm ▸ hth
  parked k hk := by
    have hother : (s.setRunning th).threads k = s.threads k := Function.update_of_ne hk ..
    exact hother.symm ▸ h.parked k hk
  locked m := (s.running_setRunning th).symm ▸ hlocked m

theorem setTop (h : Consistent bytes s) (hsettled : s.running.settled = true) {c : Context M}
    {nest : ℕ} {enabled : Bool} {locked : M → Bool}
    (hc : c.Agrees bytes s.running.levels.length s.current.isSome nest enabled)
    (hlocked : ∀ m, locked m = true ↔ m ∈ c.guards) :
    Consistent bytes { s.setTop c with
      nest := nest, status := ⟨enabled, s.status.previous⟩, locked := locked } :=
  h.setRunning (h.running.setTop hsettled hc) (by rwa [Thread.top_setTop])

theorem advanceTop (h : Consistent bytes s) (hsettled : s.running.settled = true)
    (hstep : s.advanceTop bytes = some s') : Consistent bytes s' := by
  obtain ⟨⟨nest, enabled, c⟩, hadvance, rfl⟩ := Option.map_eq_some_iff.mp hstep
  obtain ⟨hc, hguards⟩ := (h.running.top hsettled).advance hadvance
  exact h.setTop hsettled hc (by rw [hguards]; exact h.locked)

theorem takeTrap (h : Consistent bytes s) (henabled : s.status.enabled = true) :
    Consistent bytes s.takeTrap := by
  obtain ⟨hbase, hlevels, hnest, hstarted⟩ := h.running.idle henabled
  have hguards : s.running.top.guards = ∅ := by rw [Thread.top, hlevels, hbase.guards]
  unfold Hart.takeTrap
  rw [hlevels, henabled]
  exact h.setRunning (.trap hstarted hbase ⟨hnest, rfl, rfl⟩) fun m =>
    (h.locked m).trans (by rw [hguards]; rfl)

theorem switch (h : Consistent bytes s) {th : Thread M} (hth : th.Parked s.current)
    (hnest : s.nest = 0) (henabled : s.status.enabled = false)
    (hguards : s.running.top.guards = ∅) (t : T) :
    Consistent bytes { s.setRunning th with current := some t } := by
  refine resume t hnest henabled (fun k => ?_) (h.locked_eq_false hguards)
  by_cases hk : k = s.current
  · subst hk
    have hself : (s.setRunning th).threads s.current = th := Function.update_self ..
    exact hself.symm ▸ hth
  · have hother : (s.setRunning th).threads k = s.threads k := Function.update_of_ne hk ..
    exact hother.symm ▸ h.parked k hk

theorem advanceTrap (h : Consistent bytes s) (hbytes : 0 < bytes) {l : Level M}
    {ls : List (Level M)} (hlevels : s.running.levels = l :: ls)
    (hstep : s.advanceTrap bytes l ls = some s') : Consistent bytes s' := by
  obtain ⟨rfl, hstarted, hbase, hl⟩ := h.running.levels_cons hlevels
  have htop : s.running.top = l.context := by rw [Thread.top, hlevels]
  have hlocked := h.locked
  rw [htop] at hlocked
  obtain ⟨stage, frame, context⟩ := l
  cases stage with
  | saving =>
    cases hstep
    obtain ⟨hnest, hstatus, hcontext⟩ := hl
    exact h.setRunning (.trap hstarted hbase ⟨hnest, by rw [hstatus], hstatus, hcontext⟩) hlocked
  | entering =>
    cases hstep
    obtain ⟨hnest, henabled, hframe, rfl⟩ := hl
    have hentered : (s.nest + 1) % 2 ^ (8 * bytes) = 1 := by
      rw [hnest]
      exact Nat.mod_eq_of_lt (Nat.one_lt_two_pow (by omega))
    rw [hentered]
    exact h.setRunning (.trap hstarted hbase ⟨hframe, Nat.le_refl 0, rfl, henabled⟩) hlocked
  | handling =>
    have hsettled : s.running.settled = true := by rw [Thread.settled, hlevels]; rfl
    exact h.advanceTop hsettled hstep
  | leaving n =>
    cases hstep
    obtain ⟨rfl, hnest, henabled, hframe, hcontext⟩ := hl
    rw [hnest]
    exact h.setRunning (.trap hstarted hbase ⟨rfl, henabled, hframe, hcontext⟩) hlocked
  | switching =>
    obtain ⟨t, -, rfl⟩ := Option.map_eq_some_iff.mp hstep
    obtain ⟨hnest, henabled, rfl, rfl⟩ := hl
    have hparked : Thread.Parked s.current ⟨s.running.base, [Level.suspended]⟩ :=
      ⟨hbase, by rw [hstarted]; rfl⟩
    exact h.switch hparked hnest henabled (by rw [htop]; rfl) t
  | restoring =>
    cases hstep
    obtain ⟨hnest, henabled, hframe, hcontext⟩ := hl
    exact h.setRunning (.trap hstarted hbase ⟨hnest, hframe, hcontext⟩) hlocked
  | returning =>
    cases hstep
    obtain ⟨hnest, hstatus, rfl⟩ := hl
    have hagrees : s.running.base.Agrees bytes 0 s.current.isSome s.nest s.status.previous := by
      rw [hstarted, hnest, hstatus]
      exact hbase.agrees hbytes
    refine h.setRunning (.code hagrees) fun m => (hlocked m).trans ?_
    rw [Thread.top, hbase.guards]
    rfl

theorem create (h : Consistent bytes s) {t : T} (hother : s.current ≠ some t) {th : Thread M}
    (hth : th.Parked (some t)) :
    Consistent bytes { s with threads := Function.update s.threads (some t) th } := by
  have hrunning : ({ s with threads := Function.update s.threads (some t) th } : Hart T M).running =
      s.running := Function.update_of_ne hother ..
  refine ⟨hrunning.symm ▸ h.running, fun k hk => ?_, hrunning.symm ▸ h.locked⟩
  dsimp only
  by_cases hkt : k = some t
  · rw [hkt, Function.update_self]
    exact hth
  · rw [Function.update_of_ne hkt]
    exact h.parked k hk

theorem exit (h : Consistent bytes s) (hsettled : s.running.settled = true)
    (hcode : s.running.top.code = .outside) (hclosed : s.running.top.sections = 0) {l : Level M}
    {ls : List (Level M)} (hlevels : s.running.levels = l :: ls) :
    Consistent bytes
      (s.setRunning { s.running with levels := { l with stage := .leaving s.nest } :: ls }) := by
  obtain ⟨rfl, hstarted, hbase, hl⟩ := h.running.levels_cons hlevels
  have htop : s.running.top = l.context := by rw [Thread.top, hlevels]
  have hlocked := h.locked
  rw [Thread.settled, hlevels] at hsettled
  rw [htop] at hcode hclosed hlocked
  obtain ⟨stage, frame, context⟩ := l
  cases eq_of_beq hsettled
  obtain ⟨hframe, hcontext⟩ := hl
  have hnest : s.nest = 1 := by rw [(hcontext.outside hcode).1, hclosed]
  exact h.setRunning (.trap hstarted hbase
    ⟨rfl, hnest, hcontext.masked, hframe, hcontext.eq_fresh hcode hclosed⟩) hlocked

end Consistent

variable [DecidableEq M] {locked : M → Bool} {guards : Finset M}

theorem locked_insert (h : ∀ m, locked m = true ↔ m ∈ guards) (m m' : M) :
    Function.update locked m true m' = true ↔ m' ∈ insert m guards := by
  by_cases hm : m' = m
  · simp [hm]
  · rw [Function.update_of_ne hm, h m', Finset.mem_insert, or_iff_right hm]

theorem locked_erase (h : ∀ m, locked m = true ↔ m ∈ guards) (m m' : M) :
    Function.update locked m false m' = true ↔ m' ∈ guards.erase m := by
  by_cases hm : m' = m
  · simp [hm]
  · rw [Function.update_of_ne hm, h m', Finset.mem_erase, and_iff_right hm]

namespace Consistent

theorem call (h : Consistent bytes s) (hfree : s.running.free = true) {a : Action T M}
    (hbalanced : Balanced s a) (hroom : HasRoom bytes s a)
    (hstep : s.call s.running.top a = some s') : Consistent bytes s' := by
  obtain ⟨hsettled, hcode⟩ := Bool.and_eq_true_iff.mp hfree
  have hcode : s.running.top.code = .outside := eq_of_beq hcode
  have htop := h.running.top hsettled
  cases a with
  | advance => cases hstep
  | interrupt => cases hstep
  | create t => cases hstep
  | disable =>
    cases hstep
    exact h.setTop hsettled (htop.disable hcode hroom) h.locked
  | enable =>
    cases hstep
    exact h.setTop hsettled (htop.enable hcode hbalanced) h.locked
  | acquire m =>
    simp only [Hart.call] at hstep
    split_ifs at hstep with hm
    · cases hstep
      exact h
    · cases hstep
      have hcard := (Finset.card_insert_le m s.running.top.guards).trans hbalanced
      exact h.setTop hsettled (htop.setGuards hcard) (locked_insert h.locked m)
  | release m =>
    cases hstep
    have hcard := (Finset.card_erase_le (a := m)).trans htop.1
    exact h.setTop hsettled (htop.setGuards hcard) (locked_erase h.locked m)
  | schedule t =>
    cases hstep
    exact ⟨h.running, h.parked, h.locked⟩
  | trap =>
    cases hstep
    obtain ⟨hstarted, hlevels, hclosed⟩ := hbalanced
    obtain ⟨hnest, henabled⟩ := htop.outside hcode
    refine h.takeTrap ?_
    rw [henabled, hstarted, hnest, hclosed, hlevels]
    rfl
  | exit =>
    simp only [Hart.call] at hstep
    cases hlevels : s.running.levels with
    | nil =>
      rw [hlevels] at hstep
      cases hstep
    | cons l ls =>
      rw [hlevels] at hstep
      cases hstep
      exact h.exit hsettled hcode hbalanced hlevels
  | start =>
    simp only [Hart.call] at hstep
    split_ifs at hstep with hboot
    obtain ⟨t, -, rfl⟩ := Option.map_eq_some_iff.mp hstep
    exact h.start hboot hcode hbalanced t

theorem step (h : Consistent bytes s) (hbytes : 0 < bytes) {a : Action T M}
    (hbalanced : Balanced s a) (hroom : HasRoom bytes s a)
    (hstep : step bytes mode s a = some s') : Consistent bytes s' := by
  cases a with
  | advance =>
    simp only [CriticalSections.step] at hstep
    cases hlevels : s.running.levels with
    | nil =>
      rw [hlevels] at hstep
      have hsettled : s.running.settled = true := by rw [Thread.settled, hlevels]
      exact h.advanceTop hsettled hstep
    | cons l ls =>
      rw [hlevels] at hstep
      exact h.advanceTrap hbytes hlevels hstep
  | interrupt =>
    simp only [CriticalSections.step] at hstep
    split_ifs at hstep with henabled
    cases hstep
    exact h.takeTrap henabled
  | create t =>
    simp only [CriticalSections.step] at hstep
    split_ifs at hstep with hfree
    cases hstep
    obtain ⟨-, hother⟩ := Bool.and_eq_true_iff.mp hfree
    exact h.create (bne_iff_ne.mp hother) (Thread.parked_init mode (some t))
  | _ =>
    simp only [CriticalSections.step] at hstep
    split_ifs at hstep with hfree
    exact h.call hfree hbalanced hroom hstep

end Consistent

end Steps

section Runs

variable {T M : Type} [DecidableEq T] [DecidableEq M] {bytes : ℕ}

theorem always_consistent (hbytes : 0 < bytes) (mode : Mode) (previous : Bool)
    (as : List (Action T M))
    (hbalanced : Lib.Along (step bytes mode) (fun s a => Balanced s a ∧ HasRoom bytes s a)
      (boot mode previous) as) :
    Lib.Always (step bytes mode) (Consistent bytes) (boot mode previous) as :=
  hbalanced.always (fun _ _ _ h hok hstep => h.step hbytes hok.1 hok.2 hstep)
    (consistent_boot mode previous)

/-- In every run of balanced code the sections are kept, outside of the way into a trap and out
of it. -/
theorem critical_sections_kept (hbytes : 0 < bytes) (mode : Mode) (previous : Bool)
    (as : List (Action T M))
    (hbalanced : Lib.Along (step bytes mode) (fun s a => Balanced s a ∧ HasRoom bytes s a)
      (boot mode previous) as) :
    Lib.Always (step bytes mode) SectionsKept (boot mode previous) as :=
  (always_consistent hbytes mode previous as hbalanced).imp fun _ h => h.sectionsKept

/-- Two tasks, of which one is stopped between the load and the store of `disable_irq`. -/
def interruptedLock : List (Action Bool Unit) :=
  [.schedule true, .start, .advance, .advance, .disable, .interrupt, .advance, .advance,
    .schedule false, .exit, .advance, .advance, .advance, .advance, .disable, .advance, .advance,
    .acquire (), .release (), .enable, .advance, .advance, .advance, .trap, .advance, .advance,
    .schedule true, .exit, .advance, .advance, .advance, .advance, .advance, .advance, .acquire ()]

theorem interruptedLock_kept :
    Lib.Always (step 8 .machine) SectionsKept (boot .machine false) interruptedLock ∧
      (Lib.run (step 8 .machine) (boot .machine false) interruptedLock).map
        (fun s => (s.current, s.nest, s.running.top.guards)) = some (some true, 1, {()}) :=
  ⟨critical_sections_kept (by decide) .machine false interruptedLock (by decide +kernel),
    by decide +kernel⟩

/-- A spin lock never waits for a task that is stopped: only for a guard of the code that spins. -/
theorem waits_for_itself (hbytes : 0 < bytes) (mode : Mode) (previous : Bool)
    (as : List (Action T M))
    (hbalanced : Lib.Along (step bytes mode) (fun s a => Balanced s a ∧ HasRoom bytes s a)
      (boot mode previous) as) :
    Lib.Always (step bytes mode) (fun s => ∀ m, s.locked m = true → m ∈ s.running.top.guards)
      (boot mode previous) as :=
  (always_consistent hbytes mode previous as hbalanced).imp fun _ h m => (h.locked m).mp

def opened (bytes : ℕ) (mode : Mode) (previous : Bool) (n : ℕ) : Hart T M :=
  { (boot mode previous : Hart T M) with
    nest := n % 2 ^ (8 * bytes)
    threads := Function.update (.init mode) none ⟨⟨.outside, n, ∅⟩, []⟩ }

theorem run_open (bytes : ℕ) (mode : Mode) (previous : Bool) (n : ℕ) :
    Lib.run (step bytes mode) (opened bytes mode previous n : Hart T M)
      [.disable, .advance, .advance] = some (opened bytes mode previous (n + 1)) := by
  simp [Lib.run, step, opened, boot, Hart.running, Hart.call, Hart.setTop, Hart.setRunning,
    Hart.advanceTop, Context.advance, Thread.free, Thread.settled, Thread.top, Thread.setTop]

/-- With too many sections the counter starts again at 0. -/
theorem run_openSections (bytes : ℕ) (mode : Mode) (previous : Bool) (n : ℕ) :
    Lib.run (step bytes mode) (boot mode previous : Hart T M)
      (List.replicate n [.disable, .advance, .advance]).flatten =
        some (opened bytes mode previous n) := by
  induction n with
  | zero =>
    have hthreads := Function.update_eq_self none (Thread.init mode : Option T → Thread M)
    rw [List.replicate_zero, List.flatten_nil, Lib.run_nil, opened, Nat.zero_mod]
    exact congrArg (fun threads => some { boot mode previous with threads := threads })
      hthreads.symm
  | succ n ih =>
    rw [List.replicate_succ', List.flatten_append, List.flatten_singleton, Lib.run_append, ih,
      Option.bind_some, run_open]

/-- On the way into a trap the interrupts are masked though the counter is 0; and the counter is
too small for some code. -/
theorem trap_entry_is_masked :
    (∃ as s, Lib.Along (step 8 .machine) Balanced (boot .machine false : Hart Unit Unit) as ∧
      Lib.run (step 8 .machine) (boot .machine false) as = some s ∧ s.current.isSome ∧
      s.running.top.code = .outside ∧ s.nest = 0 ∧ s.status.enabled = false) ∧
    ∀ bytes, ∃ as s,
      Lib.Along (step bytes .machine) Balanced (boot .machine false : Hart Unit Unit) as ∧
      Lib.run (step bytes .machine) (boot .machine false) as = some s ∧
      s.running.top.code = .outside ∧ s.running.entered = false ∧
      s.nest ≠ s.running.top.sections := by
  refine ⟨⟨[.schedule (), .start, .advance, .advance, .interrupt], _, by decide +kernel, rfl,
    by decide +kernel⟩, fun bytes => ⟨_, _, ?_, run_openSections bytes .machine false
      (2 ^ (8 * bytes)), rfl, rfl, ?_⟩⟩
  · refine Lib.along_of_forall fun a ha s => ?_
    obtain ⟨l, hl, ha⟩ := List.mem_flatten.mp ha
    cases List.eq_of_mem_replicate hl
    rcases List.mem_cons.mp ha with rfl | ha
    · trivial
    · cases List.eq_of_mem_replicate (n := 2) ha
      trivial
  · change 2 ^ (8 * bytes) % 2 ^ (8 * bytes) ≠ 2 ^ (8 * bytes)
    rw [Nat.mod_self]
    exact (Nat.two_pow_pos _).ne

end Runs

end OpenIon.Arch.Riscv.CriticalSections
