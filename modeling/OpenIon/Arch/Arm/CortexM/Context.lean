import OpenIon.Lib.Thumb

/-! # Contexts on Cortex-M

The code of `arch/arm/cortex_m/context.rs` and what the core does when it enters and leaves an
exception. The frame of a task that does not run has 16 words: `r4` to `r11`, which the handler of
PendSV stores, and above them the eight words that the core stacks. The core aligns its words to
eight bytes and notes in bit 9 of the stacked status whether it skipped a word for that. It does
not use bit 0 of a stacked address. Cores with a floating point unit stack more words for tasks
that use it; such tasks are not modelled.
-/
namespace OpenIon.Arch.Arm.CortexM
open Lib.Thumb

def highRegs : List Reg := [.r4, .r5, .r6, .r7, .r8, .r9, .r10, .r11]

def stackedRegs : List Reg := [.r0, .r1, .r2, .r3, .r12, .lr]

/-- The value of `lr` in a handler that interrupted a task. -/
def excReturn : ℕ := 0xFFFFFFFD

def bit9 (xpsr : ℕ) : ℕ := xpsr / 512 % 2

def clearBit9 (xpsr : ℕ) : ℕ := xpsr - 512 * bit9 xpsr

structure Core where
  m : Machine
  pc : ℕ
  xpsr : ℕ

structure Ctx where
  r : Reg → ℕ
  sp : ℕ
  pc : ℕ
  xpsr : ℕ

def Core.ctx (c : Core) : Ctx := ⟨c.m.r, c.m.psp, c.pc, c.xpsr⟩

/-- The eight words that the core stacks, where `skipped` is 1 if it skips a word. -/
def Core.stackedWords (c : Core) (skipped : ℕ) : List ℕ :=
  stackedRegs.map c.m.r ++ [c.pc, clearBit9 c.xpsr + 512 * skipped]

def exceptionEntry (c : Core) : Machine :=
  let skipped := c.m.psp / 4 % 2
  let frame := c.m.psp - 4 * skipped - 32
  { c.m with
    r := Function.update c.m.r .lr excReturn
    mem := storeWords frame (c.stackedWords skipped) c.m.mem
    psp := frame }

def exceptionReturn (m : Machine) : Core where
  m := { m with
    r := loadRegs m.mem m.psp stackedRegs m.r
    psp := m.psp + 32 + 4 * bit9 (m.mem (m.psp + 28)) }
  pc := m.mem (m.psp + 24) / 2 * 2
  xpsr := clearBit9 (m.mem (m.psp + 28))

section Code

variable (current next : ℕ)

/-- `pendsv_handler`, with the addresses of `CURRENT_TCB` and `NEXT_TCB`. -/
def pendsvHandler : List Instr :=
  [.mrsPsp .r0, .lit .r3 next, .ldr .r1 .r3 0, .cmpZero .r1, .beq 13, .stmdb .r0 highRegs,
    .lit .r2 current, .ldr .r1 .r2 0, .cmpZero .r1, .beq 1, .str .r0 .r1,
    .lit .r3 next, .ldr .r1 .r3 0, .str .r1 .r2, .ldr .r0 .r1 0, .ldmia .r0 highRegs,
    .msrPsp .r0, .bx .lr,
    .bx .lr]

def pendsv (c : Core) : Option Core :=
  (exec 0 (pendsvHandler current next) (exceptionEntry c)).bind fun left =>
    if left.2 = excReturn then some (exceptionReturn left.1) else none

end Code

def initialWords (entry : ℕ) : List ℕ :=
  List.replicate 8 0 ++ [0, 0, 0, 0, 0, excReturn, entry ||| 1, 0x01000000]

/-- `init_task_stack` for a stack of `len` words: the stack pointer, and the memory. -/
def initTaskStack (stack len entry : ℕ) (mem : ℕ → ℕ) : ℕ × (ℕ → ℕ) :=
  let stackTop := stack + len * 4
  let frame := stackTop / 8 * 8 - 16 * 4
  (frame, storeWords frame (initialWords entry) mem)

/-- A task begins at its entry, with its stack empty. -/
def Ctx.initial (stack len entry : ℕ) : Ctx where
  r q := if q = .lr then excReturn else 0
  sp := (stack + len * 4) / 8 * 8
  pc := entry ||| 1
  xpsr := 0x01000000

/-- A task goes on with its context, without bit 0 of the address. -/
def Ctx.resumed (c : Ctx) : Ctx := { c with pc := c.pc / 2 * 2 }

/-- The first task that runs finds the words of its frame for `lr` and `pc` in `r4` and `r5`, and
keeps the status of the code that started it. -/
def Ctx.started (c : Ctx) (xpsr : ℕ) : Ctx :=
  { c.resumed with
    r := Function.update (Function.update c.r .r4 (c.r .lr)) .r5 c.pc
    xpsr := xpsr }

/-- What is always true of the registers of a task. -/
structure Ctx.Wf (c : Ctx) : Prop where
  sp_aligned : c.sp % 4 = 0
  pc_even : c.pc % 2 = 0
  bit9_zero : bit9 c.xpsr = 0

instance Ctx.decidableWf (c : Ctx) : Decidable c.Wf :=
  decidable_of_iff (c.sp % 4 = 0 ∧ c.pc % 2 = 0 ∧ bit9 c.xpsr = 0)
    ⟨fun h => ⟨h.1, h.2.1, h.2.2⟩, fun h => ⟨h.1, h.2, h.3⟩⟩

/-- Nothing is lost when a task that was interrupted goes on. -/
theorem Ctx.Wf.resumed {c : Ctx} (h : c.Wf) : c.resumed = c := by
  have heven := h.pc_even
  have hpc : c.pc / 2 * 2 = c.pc := by omega
  rw [Ctx.resumed, hpc]

/-! ### Frames -/

def slot : Reg → ℕ
  | .r4 => 0 | .r5 => 1 | .r6 => 2 | .r7 => 3 | .r8 => 4 | .r9 => 5 | .r10 => 6 | .r11 => 7
  | .r0 => 0 | .r1 => 1 | .r2 => 2 | .r3 => 3 | .r12 => 4 | .lr => 5

structure Stacked (mem : ℕ → ℕ) (base : ℕ) (c : Ctx) : Prop where
  regs : ∀ q ∈ stackedRegs, mem (base + 4 * slot q) = c.r q
  pc : mem (base + 24) = c.pc
  xpsr : clearBit9 (mem (base + 28)) = c.xpsr
  sp : base + 32 + 4 * bit9 (mem (base + 28)) = c.sp

structure Holds (mem : ℕ → ℕ) (frame : ℕ) (c : Ctx) : Prop where
  aligned : frame % 8 = 0
  high : ∀ q ∈ highRegs, mem (frame + 4 * slot q) = c.r q
  stacked : Stacked mem (frame + 32) c

variable {mem mem' : ℕ → ℕ} {base frame current next : ℕ} {c : Ctx} {core : Core} {m : Machine}

theorem slot_lt (q : Reg) : slot q < 8 := by
  cases q <;> decide

theorem storeWords_high (r : Reg → ℕ) {q : Reg} (hq : q ∈ highRegs) :
    storeWords frame (highRegs.map r) mem (frame + 4 * slot q) = r q := by
  refine (storeWords_add (slot_lt q)).trans ?_
  revert hq
  cases q <;> first | exact fun _ => rfl | exact fun hq => absurd hq (by decide)

theorem Stacked.congr (h : Stacked mem base c)
    (hmem : ∀ k < 8, mem' (base + 4 * k) = mem (base + 4 * k)) : Stacked mem' base c := by
  have hpc : mem' (base + 24) = mem (base + 24) := hmem 6 (by decide)
  have hxpsr : mem' (base + 28) = mem (base + 28) := hmem 7 (by decide)
  refine ⟨fun q hq => ?_, ?_, ?_, ?_⟩
  · rw [hmem _ (slot_lt q), h.regs q hq]
  · rw [hpc, h.pc]
  · rw [hxpsr, h.xpsr]
  · rw [hxpsr, h.sp]

theorem Holds.congr (h : Holds mem frame c)
    (hmem : ∀ k < 16, mem' (frame + 4 * k) = mem (frame + 4 * k)) : Holds mem' frame c := by
  refine ⟨h.aligned, fun q hq => ?_, h.stacked.congr fun k hk => ?_⟩
  · rw [hmem _ (Nat.lt_trans (slot_lt q) (by decide)), h.high q hq]
  · have haddr : frame + 32 + 4 * k = frame + 4 * (k + 8) := by omega
    rw [haddr]
    exact hmem _ (by omega)

theorem bit9_stacked {xpsr k : ℕ} (hk : k < 2) : bit9 (clearBit9 xpsr + 512 * k) = k := by
  unfold bit9 clearBit9 bit9
  omega

theorem clearBit9_stacked {xpsr k : ℕ} (hk : k < 2) (h : bit9 xpsr = 0) :
    clearBit9 (clearBit9 xpsr + 512 * k) = xpsr := by
  rw [clearBit9, bit9_stacked hk, clearBit9, h]
  omega

theorem initTaskStack_holds (stack len entry : ℕ) (mem : ℕ → ℕ)
    (hroom : 64 ≤ (stack + len * 4) / 8 * 8) :
    Holds (initTaskStack stack len entry mem).2 (initTaskStack stack len entry mem).1
      (.initial stack len entry) := by
  generalize hframe : (initTaskStack stack len entry mem).1 = frame
  have htop : frame + 64 = (stack + len * 4) / 8 * 8 := by
    rw [← hframe, initTaskStack]
    omega
  have hword : ∀ k (hk : k < 16), (initTaskStack stack len entry mem).2 (frame + 4 * k) =
      (initialWords entry)[k] := by
    intro k hk
    rw [← hframe]
    exact storeWords_add hk
  have haddr : ∀ k, frame + 32 + 4 * k = frame + 4 * (k + 8) := fun k => by omega
  refine ⟨by omega, fun q hq => ?_, fun q hq => ?_, ?_, ?_, ?_⟩
  · rw [hword _ (Nat.lt_trans (slot_lt q) (by decide))]
    revert hq
    cases q <;> first | exact fun _ => rfl | exact fun hq => absurd hq (by decide)
  · have hslot := slot_lt q
    rw [haddr, hword _ (by omega)]
    revert hq
    cases q <;> first | exact fun _ => rfl | exact fun hq => absurd hq (by decide)
  · exact hword 14 (by decide)
  · rw [show frame + 32 + 28 = frame + 4 * 15 from rfl, hword 15 (by decide)]
    change clearBit9 0x01000000 = 0x01000000
    decide
  · rw [show frame + 32 + 28 = frame + 4 * 15 from rfl, hword 15 (by decide)]
    change frame + 64 + 4 * bit9 0x01000000 = (stack + len * 4) / 8 * 8
    rw [← htop]
    rfl

/-! ### Exceptions -/

theorem exceptionEntry_frame (core : Core) (hroom : 36 ≤ core.m.psp) :
    (exceptionEntry core).psp + 32 + 4 * (core.m.psp / 4 % 2) = core.m.psp := by
  simp only [exceptionEntry]
  omega

/-- The core stacks its part of the context. -/
theorem exceptionEntry_stacked (hwf : core.ctx.Wf) (hroom : 36 ≤ core.m.psp) :
    Stacked (exceptionEntry core).mem (exceptionEntry core).psp core.ctx := by
  have hskipped : core.m.psp / 4 % 2 < 2 := Nat.mod_lt _ (by decide)
  have hword : ∀ k (hk : k < 8), (exceptionEntry core).mem ((exceptionEntry core).psp + 4 * k) =
      (core.stackedWords (core.m.psp / 4 % 2))[k] := fun k hk => storeWords_add hk
  refine ⟨fun q hq => ?_, ?_, ?_, ?_⟩
  · rw [hword _ (slot_lt q)]
    revert hq
    cases q <;> simp [stackedRegs, Core.stackedWords, slot, Core.ctx]
  · exact hword 6 (by decide)
  · rw [hword 7 (by decide)]
    exact clearBit9_stacked hskipped hwf.bit9_zero
  · rw [hword 7 (by decide)]
    change _ + 32 + 4 * bit9 (clearBit9 core.xpsr + 512 * (core.m.psp / 4 % 2)) = core.m.psp
    rw [bit9_stacked hskipped, exceptionEntry_frame core hroom]

/-- The core writes below the stack pointer only. -/
theorem exceptionEntry_mem {a : ℕ} (hroom : 36 ≤ core.m.psp)
    (ha : a + 36 < core.m.psp ∨ core.m.psp ≤ a) : (exceptionEntry core).mem a = core.m.mem a := by
  have hframe := exceptionEntry_frame core hroom
  refine storeWords_of_ne fun k hk heq => ?_
  change k < 8 at hk
  change a = (exceptionEntry core).psp + 4 * k at heq
  omega

theorem exceptionEntry_high {q : Reg} (hq : q ∈ highRegs) :
    (exceptionEntry core).r q = core.m.r q := by
  refine Function.update_of_ne ?_ _ _
  rintro rfl
  revert hq
  decide

theorem loadRegs_stacked (mem : ℕ → ℕ) (base : ℕ) (r : Reg → ℕ) (q : Reg) :
    loadRegs mem base stackedRegs r q =
      if q ∈ stackedRegs then mem (base + 4 * slot q) else r q := by
  cases q <;> rfl

theorem loadRegs_high (mem : ℕ → ℕ) (base : ℕ) (r : Reg → ℕ) (q : Reg) :
    loadRegs mem base highRegs r q = if q ∈ highRegs then mem (base + 4 * slot q) else r q := by
  cases q <;> rfl

/-- The return gives the task its context, if the handler has restored its part. -/
theorem exceptionReturn_ctx (h : Stacked m.mem m.psp c) (hhigh : ∀ q ∈ highRegs, m.r q = c.r q) :
    (exceptionReturn m).ctx = c.resumed := by
  have hregs : (exceptionReturn m).m.r = c.r := by
    funext q
    change loadRegs m.mem m.psp stackedRegs m.r q = c.r q
    rw [loadRegs_stacked]
    split
    · exact h.regs q ‹_›
    · refine hhigh q ?_
      revert q
      intro q
      cases q <;> decide
  rcases c with ⟨r, sp, pc, xpsr⟩
  simp only [Core.ctx, Ctx.resumed, Ctx.mk.injEq]
  exact ⟨hregs, h.sp, congrArg (· / 2 * 2) h.pc, h.xpsr⟩

/-! ### The switch -/

theorem word_of_lt {n : ℕ} (h : n < 2 ^ 32) : word n = n := Nat.mod_eq_of_lt h

/-- The handler of PendSV saves `r4` to `r11` below the words of the core, makes the next task the
current one and loads its `r4` to `r11`. -/
theorem exec_pendsvHandler {i j : ℕ} (hframe : frame + 32 = m.psp) (hpsp : m.psp < 2 ^ 32)
    (hcurrent : current < 2 ^ 32) (hnext : next < 2 ^ 32) (hj0 : m.mem next ≠ 0)
    (hjlt : j < 2 ^ 32) (hi0 : i ≠ 0)
    (hmem : mem = storeWords frame (highRegs.map m.r) m.mem) (hi : mem current = i)
    (hj : Function.update mem i frame next = j)
    (hmem' : mem' = Function.update (Function.update mem i frame) current j)
    (hsp : mem' j + 32 < 2 ^ 32) :
    ∃ r, exec 0 (pendsvHandler current next) m =
        some ({ m with r := r, mem := mem', psp := mem' j + 32, zero := false }, m.r .lr) ∧
      ∀ q ∈ highRegs, r q = mem' (mem' j + 4 * slot q) := by
  have hstmdb : word (m.psp + 2 ^ 32 - 4 * highRegs.length) = frame := by
    change (m.psp + 2 ^ 32 - 4 * 8) % 2 ^ 32 = frame
    omega
  have hhigh : highRegs.map (Function.update (Function.update (Function.update m.r .r0 m.psp) .r3
      next) .r1 (m.mem next)) = highRegs.map m.r := rfl
  have hldmia : word (mem' j + 4 * highRegs.length) = mem' j + 32 := word_of_lt hsp
  have hlr : Reg.lr ∉ highRegs := by decide
  refine ⟨?r, ?run, ?regs⟩
  case run =>
    simp [pendsvHandler, -Nat.reducePow, word_of_lt hnext, word_of_lt hcurrent, hj0, hstmdb,
      hhigh, ← hmem, hi, hi0, hj, ← hmem', word_of_lt hjlt, hldmia, loadRegs_high, hlr]
    exact rfl
  case regs =>
    intro q hq
    have hr0 : q ≠ .r0 := by
      rintro rfl
      revert hq
      decide
    rw [Function.update_of_ne hr0, loadRegs_high, if_pos hq]

/-- A word that a switch does not write when task `i` runs: not one of its two pointers, and not in
the 68 bytes below the stack pointer. -/
structure Untouched (current i : ℕ) (core : Core) (a : ℕ) : Prop where
  ne_tcb : a ≠ i
  ne_current : a ≠ current
  outside : a + 68 < core.m.psp ∨ core.m.psp ≤ a

/-- Task `i` runs, with room for a frame on its stack, and task `j` is next. -/
structure CanSwitch (current next i j : ℕ) (core : Core) : Prop where
  wf : core.ctx.Wf
  room : 68 ≤ core.m.psp
  psp_lt : core.m.psp < 2 ^ 32
  lt : ∀ a ∈ [current, next, j], a < 2 ^ 32
  running : core.m.mem current = i
  chosen : core.m.mem next = j
  ne_zero : i ≠ 0 ∧ j ≠ 0
  distinct : [current, next, i].Nodup
  outside : ∀ a ∈ [current, next, i], a + 68 < core.m.psp ∨ core.m.psp ≤ a

/-- The pointer of task `j` and the frame that it points to, with the context of the task. -/
structure Waits (current i j : ℕ) (core : Core) (c : Ctx) : Prop where
  holds : Holds core.m.mem (core.m.mem j) c
  frame_lt : core.m.mem j + 32 < 2 ^ 32
  tcb_untouched : Untouched current i core j
  frame_untouched : ∀ k < 16, Untouched current i core (core.m.mem j + 4 * k)

/-- PendSV leaves the context of the running task in a frame below its stack pointer, gives the next
task its context, and writes nothing else but the two pointers. -/
theorem pendsv_switches {i j : ℕ} (h : CanSwitch current next i j core)
    (hj : Waits current i j core c) :
    ∃ core', pendsv current next core = some core' ∧ core'.ctx = c.resumed ∧
      core'.m.mem current = j ∧ core'.m.mem i + 64 ≤ core.m.psp ∧
      core.m.psp ≤ core'.m.mem i + 68 ∧ Holds core'.m.mem (core'.m.mem i) core.ctx ∧
      ∀ a, Untouched current i core a → core'.m.mem a = core.m.mem a := by
  have hroom := h.room
  have hpsp := h.psp_lt
  have hsp : core.m.psp % 4 = 0 := h.wf.sp_aligned
  have hbase := exceptionEntry_frame core (by omega)
  have hdistinct := h.distinct
  simp only [List.nodup_cons, List.mem_cons, List.not_mem_nil, or_false, not_or] at hdistinct
  have hlt := h.lt
  have houtside := h.outside
  simp only [List.forall_mem_cons, List.not_mem_nil, false_implies, implies_true, and_true]
    at hlt houtside
  generalize hm : exceptionEntry core = m at hbase
  obtain ⟨frame, hframe⟩ : ∃ frame, frame + 32 = m.psp := ⟨m.psp - 32, by omega⟩
  generalize hmem : storeWords frame (highRegs.map m.r) m.mem = mem
  -- below the stack pointer are the words of the core and the eight registers below them
  have hold : ∀ a, a + 68 < core.m.psp ∨ core.m.psp ≤ a → mem a = core.m.mem a := by
    intro a ha
    rw [← hmem, storeWords_of_ne, ← hm, exceptionEntry_mem (by omega) (by omega)]
    intro k (hk : k < 8)
    omega
  have hholds : Holds mem frame core.ctx := by
    refine ⟨by omega, fun q hq => ?_, ?_⟩
    · rw [← hmem, storeWords_high m.r hq, ← hm, exceptionEntry_high hq]
      rfl
    · have hstacked := exceptionEntry_stacked h.wf (by omega)
      rw [hm, ← hframe] at hstacked
      refine hstacked.congr fun k hk => ?_
      rw [← hmem]
      refine storeWords_of_ne ?_
      intro l (hl : l < 8)
      omega
  generalize hmem' : Function.update (Function.update mem i frame) current j = mem'
  have hkept : ∀ a, a ≠ i → a ≠ current → mem' a = mem a := by
    intro a hi hcurrent
    rw [← hmem', Function.update_of_ne hcurrent, Function.update_of_ne hi]
  have huntouched : ∀ a, Untouched current i core a → mem' a = core.m.mem a :=
    fun a ha => (hkept a ha.ne_tcb ha.ne_current).trans (hold a ha.outside)
  have htcb : mem' j = core.m.mem j := huntouched j hj.tcb_untouched
  have hwaiting : Holds mem' (mem' j) c := htcb ▸ hj.holds.congr fun k hk =>
    huntouched _ (hj.frame_untouched k hk)
  have hnext : mem next = j := (hold next houtside.2.1).trans h.chosen
  have hmnext : m.mem next ≠ 0 := by
    rw [← hm, exceptionEntry_mem (by omega) (by omega), h.chosen]
    exact h.ne_zero.2
  obtain ⟨r, hexec, hregs⟩ := exec_pendsvHandler hframe (by omega) hlt.1 hlt.2.1 hmnext hlt.2.2
    h.ne_zero.1 hmem.symm ((hold current houtside.1).trans h.running)
    ((Function.update_of_ne hdistinct.2.1 _ _).trans hnext) hmem'.symm (htcb ▸ hj.frame_lt)
  have hlr : m.r .lr = excReturn := by
    rw [← hm]
    rfl
  have hi : mem' i = frame := by
    rw [← hmem', Function.update_of_ne (Ne.symm hdistinct.1.2), Function.update_self]
  refine ⟨exceptionReturn { m with r := r, mem := mem', psp := mem' j + 32, zero := false }, ?_, ?_,
    hmem' ▸ Function.update_self .., ?_, ?_, ?_, huntouched⟩
  · rw [pendsv, hm, hexec, Option.bind_some, if_pos hlr]
  · refine exceptionReturn_ctx hwaiting.stacked fun q hq => ?_
    exact (hregs q hq).trans (hwaiting.high q hq)
  · change mem' i + 64 ≤ core.m.psp
    omega
  · change core.m.psp ≤ mem' i + 68
    omega
  · change Holds mem' (mem' i) core.ctx
    rw [hi]
    exact hholds.congr fun k hk => hkept _ (by omega) (by omega)

/-- A task that PendSV has switched away from is resumed with the registers, the stack pointer, the
address and the status that it was interrupted with, by whichever switch comes back to it and
whatever was done since, if only its frame and the pointer to it have been left alone. -/
theorem pendsv_resumes {i j : ℕ} (h : CanSwitch current next i j core)
    (hj : Waits current i j core c) :
    ∃ core', pendsv current next core = some core' ∧ core'.ctx = c.resumed ∧
      core'.m.mem current = j ∧
      (∀ a, Untouched current i core a → core'.m.mem a = core.m.mem a) ∧
      ∀ k later, CanSwitch current next k i later →
        (∀ a, (a = i ∨ ∃ n < 16, a = core'.m.mem i + 4 * n) →
          later.m.mem a = core'.m.mem a ∧ Untouched current k later a) →
        ∃ resumed, pendsv current next later = some resumed ∧ resumed.ctx = core.ctx := by
  obtain ⟨core', hcore', hctx, hcurrent, hlow, -, hholds, huntouched⟩ := pendsv_switches h hj
  refine ⟨core', hcore', hctx, hcurrent, huntouched, fun k later hlater hkept => ?_⟩
  have hpsp := h.psp_lt
  have htcb : later.m.mem i = core'.m.mem i := (hkept i (.inl rfl)).1
  have hwaits : Waits current k i later core.ctx :=
    { holds := htcb ▸ hholds.congr fun n hn => (hkept _ (.inr ⟨n, hn, rfl⟩)).1
      frame_lt := by omega
      tcb_untouched := (hkept i (.inl rfl)).2
      frame_untouched := fun n hn => htcb ▸ (hkept _ (.inr ⟨n, hn, rfl⟩)).2 }
  obtain ⟨resumed, hresumed, hctx', -⟩ := pendsv_switches hlater hwaits
  exact ⟨resumed, hresumed, hctx'.trans h.wf.resumed⟩

def twoTasksMem (a : ℕ) : ℕ :=
  if a = 0x100 then 0x200 else if a = 0x104 then 0x300 else if a = 0x300 then 0x2000 else 0

def firstTask : Core := ⟨⟨fun _ => 7, twoTasksMem, 0x1104, false, 2, false⟩, 0x8010, 0x61000000⟩

theorem firstTask_canSwitch : CanSwitch 0x100 0x104 0x200 0x300 firstTask :=
  ⟨by decide, by decide, by decide, by decide, rfl, rfl, by decide, by decide, by decide⟩

theorem firstTask_waits : Waits 0x100 0x200 0x300 firstTask ⟨fun _ => 0, 0x2040, 0, 0⟩ where
  holds := ⟨rfl, fun q _ => by cases q <;> rfl, fun q _ => by cases q <;> rfl, rfl, rfl, rfl⟩
  frame_lt := by decide
  tcb_untouched := ⟨by decide, by decide, by decide⟩
  frame_untouched k _ := by
    change Untouched 0x100 0x200 firstTask (0x2000 + 4 * k)
    exact ⟨by omega, by omega, .inr (show 0x1104 ≤ 0x2000 + 4 * k by omega)⟩

/-- The scheduler chooses the task that runs next. -/
def Core.choose (core : Core) (next j : ℕ) : Core :=
  { core with m := { core.m with mem := Function.update core.m.mem next j } }

/-- The second task, once it runs, is switched away from for the first one. -/
theorem firstTask_resumes :
    ∃ core' resumed, pendsv 0x100 0x104 firstTask = some core' ∧
      pendsv 0x100 0x104 (core'.choose 0x104 0x200) = some resumed ∧
      resumed.ctx = firstTask.ctx := by
  obtain ⟨core', hcore', hctx, hcurrent, -, hresumes⟩ :=
    pendsv_resumes firstTask_canSwitch firstTask_waits
  have hpsp : core'.m.psp = 0x2040 := congrArg Ctx.sp hctx
  have hframe : (pendsv 0x100 0x104 firstTask).map (fun core => core.m.mem 0x200) = some 0x10c0 := rfl
  rw [hcore', Option.map_some, Option.some.injEq] at hframe
  have hswitch : CanSwitch 0x100 0x104 0x300 0x200 (core'.choose 0x104 0x200) :=
    { wf := by
        change core'.ctx.Wf
        rw [hctx]
        decide
      room := by simp [Core.choose, hpsp]
      psp_lt := by simp [Core.choose, hpsp]
      lt := by decide
      running := hcurrent
      chosen := rfl
      ne_zero := by decide
      distinct := by decide
      outside := by simp [Core.choose, hpsp] }
  have hkept : ∀ a, (a = 0x200 ∨ ∃ n < 16, a = core'.m.mem 0x200 + 4 * n) →
      (core'.choose 0x104 0x200).m.mem a = core'.m.mem a ∧
        Untouched 0x100 0x300 (core'.choose 0x104 0x200) a := by
    rw [hframe]
    intro a ha
    have hrange : 0x200 ≤ a ∧ a < 0x1100 ∧ a ≠ 0x300 := by
      rcases ha with rfl | ⟨n, hn, rfl⟩ <;> omega
    have hbelow : a + 68 < core'.m.psp := by omega
    exact ⟨Function.update_of_ne (by omega) .., by omega, by omega, .inl hbelow⟩
  obtain ⟨resumed, hresumed, hsame⟩ := hresumes 0x300 _ hswitch hkept
  exact ⟨core', resumed, hcore', hresumed, hsame⟩

end OpenIon.Arch.Arm.CortexM
