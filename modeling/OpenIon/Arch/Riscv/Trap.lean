import OpenIon.Lib.Assembly

/-! # Traps on RISC-V

The code of `arch/riscv/trap.S`, the first frame of a task from `context.rs`, and what
`rust_trap_handler` does to the frame of the task that it interrupts. A frame has 34 words:
a slot for each register, of which those of `x0` and `x2` are not used, then the status and
the address to return to.
-/
namespace OpenIon.Arch.Riscv
open Lib.Asm

inductive Mode where
  | machine
  | supervisor
  deriving DecidableEq

def ra : Reg := 1
def sp : Reg := 2
def t0 : Reg := 5
def t1 : Reg := 6
def t2 : Reg := 7
def s0 : Reg := 8
def s1 : Reg := 9
def a0 : Reg := 10
def a1 : Reg := 11
def a2 : Reg := 12
def s2 : Reg := 18
def s3 : Reg := 19
def s4 : Reg := 20
def s5 : Reg := 21
def s6 : Reg := 22
def s7 : Reg := 23
def s8 : Reg := 24
def s9 : Reg := 25
def s10 : Reg := 26
def s11 : Reg := 27
def t3 : Reg := 28

def frameRegs : List Reg := 1 :: (List.finRange 32).drop 3

def saveStatusEpc : List Instr := [.readStatus t0, .store t0 32 sp, .readEpc t1, .store t1 33 sp]

def loadStatusEpc : List Instr := [.load t0 32 sp, .writeStatus t0, .load t1 33 sp, .writeEpc t1]

section Code

variable (bytes : ℕ)

/-- `trap_vector` up to the call of the handler. -/
def trapVector : List Instr :=
  .addi sp sp (-((34 * bytes : ℕ) : ℤ)) ::
    (frameRegs.map (fun r => Instr.store r r sp) ++ (saveStatusEpc ++ [.mv a0 sp]))

/-- From the call of the handler to `trap_exit`, with the addresses of `CURRENT_TCB` and
`NEXT_TCB`. -/
def trapSwitch (current next : ℕ) : List Instr :=
  [.la t0 current, .load t1 0 t0, .la t2 next, .load t3 0 t2, .beq t1 t3 3,
    .store sp 0 t1, .store t3 0 t0, .load sp 0 t3]

/-- `trap_exit` up to the return. -/
def trapExit : List Instr :=
  loadStatusEpc ++ (frameRegs.map (fun r => Instr.load r r sp) ++ [.addi sp sp ((34 * bytes : ℕ) : ℤ)])

def switchMem (current next sp : ℕ) (mem : ℕ → ℕ) : ℕ → ℕ :=
  if mem current = mem next then mem
  else Function.update (Function.update mem (mem current) sp) current (mem next)

/-- `load_first_task_and_start` up to the jump to `trap_exit`. -/
def loadFirstTaskAndStart (current next : ℕ) : List Instr :=
  [.la t0 next, .load t1 0 t0, .la t2 current, .store t1 0 t2, .load sp 0 t1]

def clearFrame (frame : ℕ) (mem : ℕ → ℕ) : ℕ → ℕ :=
  (List.range 34).foldl (fun mem i => Function.update mem (frame + i * bytes) 0) mem

def initStatus : Mode → ℕ
  | .machine => 0x1880
  | .supervisor => 0x120

/-- `init_task_stack` for a stack of `len` words: the stack pointer, and the memory. -/
def initTaskStack (mode : Mode) (stack len entry : ℕ) (mem : ℕ → ℕ) : ℕ × (ℕ → ℕ) :=
  let stackTop := stack + len * bytes
  let top := stackTop - stackTop % 16
  let frame := top - 34 * bytes
  let mem := clearFrame bytes frame mem
  let mem := Function.update mem (frame + 32 * bytes) (initStatus mode)
  (frame, Function.update mem (frame + 33 * bytes) entry)

end Code

/-! ### The handler -/

/-- How the handler classifies the cause of a trap. -/
structure Trap where
  isTimer : Bool
  isBreakpoint : Bool
  isSyscall : Bool
  isExternal : Bool

section Handler

variable (bytes : ℕ) (code : ℕ → ℕ)

/-- The length of the instruction at an address, from its first halfword. -/
def instructionLen (epc : ℕ) : ℕ := if code epc &&& 3 = 3 then 4 else 2

def isEbreakInstruction (epc : ℕ) : Bool :=
  if code epc = 0x9002 then true
  else if code epc &&& 3 = 3 then code epc + code (epc + 2) * 2 ^ 16 = 0x00100073
  else false

/-- What `rust_trap_handler` writes to the frame, where a system call returns `ret`. It panics on
other traps. -/
def handleFrame (t : Trap) (ret tf : ℕ) (mem : ℕ → ℕ) : Option (ℕ → ℕ) :=
  let epc := mem (tf + 33 * bytes)
  if t.isTimer then some mem
  else if t.isBreakpoint || isEbreakInstruction code epc then
    some (Function.update mem (tf + 33 * bytes) ((epc + instructionLen code epc) % 2 ^ (8 * bytes)))
  else if t.isSyscall then
    let mem := Function.update mem (tf + 10 * bytes) ret
    some (Function.update mem (tf + 33 * bytes) ((epc + 4) % 2 ^ (8 * bytes)))
  else if t.isExternal then some mem
  else none

end Handler

/-! ### Contexts -/

/-- What a context continues with. The value of `x0` has no meaning. -/
structure Ctx where
  x : Reg → ℕ
  status : ℕ
  epc : ℕ

/-- What the handler changes in the context it interrupts. -/
def Ctx.handled (bytes : ℕ) (code : ℕ → ℕ) (t : Trap) (ret : ℕ) (c : Ctx) : Option Ctx :=
  if t.isTimer then some c
  else if t.isBreakpoint || isEbreakInstruction code c.epc then
    some { c with epc := (c.epc + instructionLen code c.epc) % 2 ^ (8 * bytes) }
  else if t.isSyscall then
    some { c with x := Function.update c.x a0 ret, epc := (c.epc + 4) % 2 ^ (8 * bytes) }
  else if t.isExternal then some c
  else none

/-- The context a task starts with: at its entry, with an aligned stack and all else zero. -/
def Ctx.initial (bytes : ℕ) (mode : Mode) (stack len entry : ℕ) : Ctx where
  x := Function.update (fun _ => 0) sp
    (stack + len * bytes - (stack + len * bytes) % 16)
  status := initStatus mode
  epc := entry

/-- The frame holds a context, and the stack of the context ends above it. -/
structure Holds (bytes : ℕ) (mem : ℕ → ℕ) (frame : ℕ) (c : Ctx) : Prop where
  regs : ∀ r ∈ frameRegs, mem (frame + r * bytes) = c.x r
  status : mem (frame + 32 * bytes) = c.status
  epc : mem (frame + 33 * bytes) = c.epc
  stack : frame + 34 * bytes = c.x sp

structure Ctx.Same (c d : Ctx) : Prop where
  regs : ∀ r, r ≠ 0 → c.x r = d.x r
  status : c.status = d.status
  epc : c.epc = d.epc

variable {bytes : ℕ} {code mem mem' : ℕ → ℕ} {frame : ℕ} {c d : Ctx} {m : Machine}

theorem sp_notMem_frameRegs : sp ∉ frameRegs := by decide

theorem zero_notMem_frameRegs : 0 ∉ frameRegs := by decide

theorem mem_frameRegs {r : Reg} (h0 : r ≠ 0) (hsp : r ≠ sp) : r ∈ frameRegs := by
  revert r
  decide

theorem Holds.congr (h : Holds bytes mem frame c)
    (hmem : ∀ k < 34, mem' (frame + k * bytes) = mem (frame + k * bytes)) :
    Holds bytes mem' frame c where
  regs r hr := by rw [hmem r (by omega), h.regs r hr]
  status := by rw [hmem 32 (by decide), h.status]
  epc := by rw [hmem 33 (by decide), h.epc]
  stack := h.stack

theorem Holds.same (h : Holds bytes mem frame c) (hcd : c.Same d) : Holds bytes mem frame d where
  regs r hr := by
    have h0 : r ≠ 0 := fun h => zero_notMem_frameRegs (h ▸ hr)
    rw [h.regs r hr, hcd.regs r h0]
  status := h.status.trans hcd.status
  epc := h.epc.trans hcd.epc
  stack := h.stack.trans (hcd.regs sp (by decide))

theorem slot_inj (hbytes : 0 < bytes) {k l : ℕ} (h : frame + k * bytes = frame + l * bytes) : k = l :=
  Nat.eq_of_mul_eq_mul_right hbytes (Nat.add_left_cancel h)

theorem slot_ne (hbytes : 0 < bytes) {k l : ℕ} (h : k ≠ l) :
    frame + k * bytes ≠ frame + l * bytes := mt (slot_inj hbytes) h

theorem slotAddr_zero {a : ℕ} (h : a < 2 ^ (8 * bytes)) : slotAddr bytes a 0 = a := by
  rw [slotAddr_eq (by omega), Nat.zero_mul, Nat.add_zero]

theorem holds_update (hbytes : 0 < bytes) {x : Reg → ℕ}
    (hregs : ∀ r ∈ frameRegs, mem (frame + r * bytes) = x r) (hstack : frame + 34 * bytes = x sp)
    (status epc : ℕ) :
    Holds bytes (Function.update (Function.update mem (frame + 32 * bytes) status)
      (frame + 33 * bytes) epc) frame ⟨x, status, epc⟩ where
  regs r hr := by
    have hr32 : (r : ℕ) < 32 := r.isLt
    rw [Function.update_of_ne (slot_ne hbytes (by omega)),
      Function.update_of_ne (slot_ne hbytes (by omega)), hregs r hr]
  status := by rw [Function.update_of_ne (slot_ne hbytes (by decide)), Function.update_self]
  epc := Function.update_self ..
  stack := hstack

theorem slot_lt {k n : ℕ} (hk : k < 34) (hframe : frame + 34 * bytes = n)
    (hlt : n < 2 ^ (8 * bytes)) : slotAddr bytes frame k = frame + k * bytes := by
  have hle : k * bytes ≤ 34 * bytes := Nat.mul_le_mul_right bytes hk.le
  exact slotAddr_eq (by omega)

theorem exec_saveStatusEpc (bytes : ℕ) (m : Machine) :
    (exec bytes 0 (saveStatusEpc ++ [.mv a0 sp]) m).x a0 = m.x sp ∧
      (exec bytes 0 (saveStatusEpc ++ [.mv a0 sp]) m).mem =
        Function.update (Function.update m.mem (slotAddr bytes (m.x sp) 32) m.status)
          (slotAddr bytes (m.x sp) 33) m.epc := by
  simp [saveStatusEpc, exec, Instr.exec, Instr.skips, Machine.setReg, sp, t0, t1, a0]

/-- `trap_vector` makes room for a frame and saves the context there. It writes nothing else. -/
theorem exec_trapVector (hbytes : 0 < bytes) (hframe : frame + 34 * bytes = m.x sp)
    (hlt : m.x sp < 2 ^ (8 * bytes)) :
    (exec bytes 0 (trapVector bytes) m).x a0 = frame ∧
      Holds bytes (exec bytes 0 (trapVector bytes) m).mem frame ⟨m.x, m.status, m.epc⟩ ∧
      ∀ a, (∀ k < 34, a ≠ frame + k * bytes) →
        (exec bytes 0 (trapVector bytes) m).mem a = m.mem a := by
  have hsp : (((m.x sp : ℤ) + -((34 * bytes : ℕ) : ℤ)) % (2 ^ (8 * bytes) : ℕ)).toNat = frame := by
    rw [toNat_sub_emod (by omega) hlt]
    omega
  have hslot : ∀ k < 34, slotAddr bytes frame k = frame + k * bytes :=
    fun k hk => slot_lt hk hframe hlt
  have hinj : ∀ q q' : Reg, slotAddr bytes frame q = slotAddr bytes frame q' → q = q' := by
    intro q q' h
    rw [hslot q (by omega), hslot q' (by omega)] at h
    exact Fin.ext (slot_inj hbytes h)
  -- the registers and the memory once the registers are saved
  let x := Function.update m.x sp frame
  have hx : x sp = frame := Function.update_self ..
  have hexec : exec bytes 0 (trapVector bytes) m = exec bytes 0 (saveStatusEpc ++ [.mv a0 sp])
      ⟨x, saveRegs bytes Fin.val frame x frameRegs m.mem, m.status, m.epc⟩ := by
    simp only [trapVector, exec, Instr.skips, Instr.exec, hsp, exec_saves, Machine.setReg,
      Function.update_self, x]
  rcases exec_saveStatusEpc bytes
    ⟨x, saveRegs bytes Fin.val frame x frameRegs m.mem, m.status, m.epc⟩ with ⟨ha0, hmem⟩
  rw [← hexec] at ha0 hmem
  simp only [hx, hslot 32 (by decide), hslot 33 (by decide)] at ha0 hmem
  rw [ha0, hmem]
  refine ⟨rfl, holds_update hbytes (fun r hr => ?_) hframe _ _, fun a ha => ?_⟩
  · have hsp' : r ≠ sp := fun h => sp_notMem_frameRegs (h ▸ hr)
    rw [← hslot r (by omega), saveRegs_of_mem (fun q _ => hinj r q) hr]
    exact Function.update_of_ne hsp' ..
  · rw [Function.update_of_ne (ha 33 (by decide)), Function.update_of_ne (ha 32 (by decide))]
    apply saveRegs_of_ne
    intro r _
    rw [hslot r (by omega)]
    exact ha r (by omega)

/-- The code before `trap_exit` leaves the stack of a task that is not the next one for that of the
next. -/
theorem exec_trapSwitch {current next : ℕ} (is : List Instr) (m : Machine)
    (hcurrent : current < 2 ^ (8 * bytes)) (hnext : next < 2 ^ (8 * bytes))
    (hold : m.mem current < 2 ^ (8 * bytes)) (hnew : m.mem next < 2 ^ (8 * bytes)) :
    ∃ x, exec bytes 0 (trapSwitch current next ++ is) m =
        exec bytes 0 is { m with x := x, mem := switchMem current next (m.x sp) m.mem } ∧
      x sp = if m.mem current = m.mem next then m.x sp
        else switchMem current next (m.x sp) m.mem (m.mem next) := by
  have hregs : t0 ≠ t1 ∧ t0 ≠ t2 ∧ t0 ≠ t3 ∧ t1 ≠ t2 ∧ t1 ≠ t3 ∧ t2 ≠ t3 := by decide
  have hsp : sp ≠ t0 ∧ sp ≠ t1 ∧ sp ≠ t2 ∧ sp ≠ t3 := by decide
  let x := Function.update (Function.update (Function.update (Function.update m.x t0 current)
    t1 (m.mem current)) t2 next) t3 (m.mem next)
  have hload : exec bytes 0 (trapSwitch current next ++ is) m =
      exec bytes (if m.mem current = m.mem next then 3 else 0)
        ([.store sp 0 t1, .store t3 0 t0, .load sp 0 t3] ++ is) { m with x := x } := by
    simp [trapSwitch, exec, Instr.exec, Instr.skips, Machine.setReg, slotAddr_zero, hcurrent,
      hnext, x, hregs]
  rw [hload]
  unfold switchMem
  by_cases h : m.mem current = m.mem next
  · rw [if_pos h, if_pos h, if_pos h]
    exact ⟨x, rfl, by simp [x, hsp]⟩
  · rw [if_neg h, if_neg h, if_neg h]
    refine ⟨Function.update x sp (Function.update (Function.update m.mem (m.mem current) (m.x sp))
      current (m.mem next) (m.mem next)), ?_, Function.update_self ..⟩
    simp [exec, Instr.exec, Instr.skips, Machine.setReg, slotAddr_zero, hcurrent, hold, hnew, x,
      hregs, hsp]

/-- `trap_exit` continues with the context of the frame and writes nothing. -/
theorem exec_trapExit (h : Holds bytes m.mem (m.x sp) c) (hlt : c.x sp < 2 ^ (8 * bytes)) :
    (exec bytes 0 (trapExit bytes) m).mem = m.mem ∧
      Ctx.Same ⟨(exec bytes 0 (trapExit bytes) m).x, (exec bytes 0 (trapExit bytes) m).status,
        (exec bytes 0 (trapExit bytes) m).epc⟩ c := by
  have hslot : ∀ k < 34, slotAddr bytes (m.x sp) k = m.x sp + k * bytes :=
    fun k hk => slot_lt hk h.stack hlt
  let x := Function.update (Function.update m.x t0 c.status) t1 c.epc
  have hx : x sp = m.x sp := rfl
  have hload : ∀ is, exec bytes 0 (loadStatusEpc ++ is) m =
      exec bytes 0 is ⟨x, m.mem, c.status, c.epc⟩ := by
    intro is
    have hsp : sp ≠ t0 ∧ sp ≠ t1 ∧ t0 ≠ t1 := by decide
    simp only [loadStatusEpc, List.cons_append, List.nil_append, exec, Instr.exec, Instr.skips,
      Machine.setReg, Function.update_self, Function.update_of_ne hsp.1, hslot 32 (by decide),
      hslot 33 (by decide), h.status, h.epc, x]
  have hexec : exec bytes 0 (trapExit bytes) m =
      ⟨Function.update (restoreRegs bytes Fin.val (m.x sp) m.mem frameRegs x) sp (c.x sp), m.mem,
        c.status, c.epc⟩ := by
    rw [trapExit, hload, exec_restores _ _ sp_notMem_frameRegs]
    simp only [exec, Instr.exec, Machine.setReg, hx]
    rw [restoreRegs, if_neg sp_notMem_frameRegs, hx, toNat_add_emod (by rw [h.stack]; exact hlt),
      h.stack]
  rw [hexec]
  refine ⟨rfl, ?_, rfl, rfl⟩
  intro r h0
  by_cases hr : r = sp
  · dsimp only
    rw [hr, Function.update_self]
  · have hmem := mem_frameRegs h0 hr
    have hr32 : (r : ℕ) < 32 := r.isLt
    dsimp only
    rw [Function.update_of_ne hr, restoreRegs, if_pos hmem, hslot r (by omega), h.regs r hmem]

theorem exec_loadFirstTaskAndStart {current next : ℕ} (is : List Instr) (m : Machine)
    (hcurrent : current < 2 ^ (8 * bytes)) (hnext : next < 2 ^ (8 * bytes))
    (hnew : m.mem next < 2 ^ (8 * bytes)) :
    ∃ x, exec bytes 0 (loadFirstTaskAndStart current next ++ is) m =
        exec bytes 0 is { m with x := x, mem := Function.update m.mem current (m.mem next) } ∧
      x sp = Function.update m.mem current (m.mem next) (m.mem next) := by
  have hregs : t1 ≠ t2 := by decide
  refine ⟨Function.update (Function.update (Function.update (Function.update m.x t0 next)
    t1 (m.mem next)) t2 current) sp
      (Function.update m.mem current (m.mem next) (m.mem next)), ?_, Function.update_self ..⟩
  simp [loadFirstTaskAndStart, exec, Instr.exec, Instr.skips, Machine.setReg, slotAddr_zero,
    hcurrent, hnext, hnew, hregs]

/-! ### Frames that are written by the kernel -/

theorem foldl_update_zero (addr : ℕ → ℕ) (is : List ℕ) (mem : ℕ → ℕ) (a : ℕ) :
    is.foldl (fun mem i => Function.update mem (addr i) 0) mem a =
      if ∃ i ∈ is, a = addr i then 0 else mem a := by
  induction is generalizing mem with
  | nil => simp
  | cons i is ih =>
    rw [List.foldl_cons, ih]
    by_cases ha : a = addr i
    · simp [ha]
    · simp [ha]

theorem clearFrame_slot {k : ℕ} (hk : k < 34) : clearFrame bytes frame mem (frame + k * bytes) = 0 := by
  rw [clearFrame, foldl_update_zero, if_pos]
  exact ⟨k, List.mem_range.mpr hk, rfl⟩

theorem clearFrame_of_ne {a : ℕ} (h : ∀ k < 34, a ≠ frame + k * bytes) :
    clearFrame bytes frame mem a = mem a := by
  rw [clearFrame, foldl_update_zero, if_neg]
  rintro ⟨k, hk, ha⟩
  exact h k (List.mem_range.mp hk) ha

/-- The first frame of a task holds its initial context, and nothing else is written. -/
theorem initTaskStack_holds (mode : Mode) (stack len entry : ℕ) (mem : ℕ → ℕ) (hbytes : 0 < bytes)
    (hroom : 34 * bytes + (stack + len * bytes) % 16 ≤ stack + len * bytes) :
    Holds bytes (initTaskStack bytes mode stack len entry mem).2
        (initTaskStack bytes mode stack len entry mem).1 (.initial bytes mode stack len entry) ∧
      ∀ a, (∀ k < 34, a ≠ (initTaskStack bytes mode stack len entry mem).1 + k * bytes) →
        (initTaskStack bytes mode stack len entry mem).2 a = mem a := by
  refine ⟨holds_update hbytes (fun r hr => ?_) ?_ _ _, fun a ha => ?_⟩
  · have hsp : r ≠ sp := fun h => sp_notMem_frameRegs (h ▸ hr)
    rw [Function.update_of_ne hsp]
    exact clearFrame_slot (by omega)
  · simp only [Function.update_self]
    omega
  · simp only [initTaskStack] at ha ⊢
    rw [Function.update_of_ne (ha 33 (by decide)), Function.update_of_ne (ha 32 (by decide)),
      clearFrame_of_ne ha]

theorem Holds.setEpc (hbytes : 0 < bytes) (h : Holds bytes mem frame c) (v : ℕ) :
    Holds bytes (Function.update mem (frame + 33 * bytes) v) frame { c with epc := v } := by
  refine ⟨fun r hr => ?_, ?_, Function.update_self .., h.stack⟩
  · have hr32 : (r : ℕ) < 32 := r.isLt
    rw [Function.update_of_ne (slot_ne hbytes (by omega)), h.regs r hr]
  · rw [Function.update_of_ne (slot_ne hbytes (by decide)), h.status]

theorem Holds.setA0 (hbytes : 0 < bytes) (h : Holds bytes mem frame c) (v : ℕ) :
    Holds bytes (Function.update mem (frame + 10 * bytes) v) frame
      { c with x := Function.update c.x a0 v } := by
  have hsp : sp ≠ a0 := by decide
  refine ⟨?_, ?_, ?_, ?_⟩
  · intro r hr
    dsimp only
    by_cases ha0 : r = a0
    · have hr10 : (r : ℕ) = 10 := congrArg Fin.val ha0
      rw [hr10, ha0, Function.update_self, Function.update_self]
    · have hr10 : (r : ℕ) ≠ 10 := fun heq => ha0 (Fin.ext heq)
      rw [Function.update_of_ne (slot_ne hbytes hr10), Function.update_of_ne ha0, h.regs r hr]
  · rw [Function.update_of_ne (slot_ne hbytes (by decide)), h.status]
  · rw [Function.update_of_ne (slot_ne hbytes (by decide)), h.epc]
  · dsimp only
    rw [Function.update_of_ne hsp, h.stack]

/-- The handler changes the context in a frame as it should, and nothing outside the frame. -/
theorem handleFrame_holds {t : Trap} {ret : ℕ} (hbytes : 0 < bytes) (h : Holds bytes mem frame c)
    (hmem' : handleFrame bytes code t ret frame mem = some mem') :
    ∃ c', c.handled bytes code t ret = some c' ∧ Holds bytes mem' frame c' ∧
      ∀ a, (∀ k < 34, a ≠ frame + k * bytes) → mem' a = mem a := by
  unfold handleFrame at hmem'
  unfold Ctx.handled
  rw [h.epc] at hmem'
  by_cases htimer : t.isTimer = true
  · rw [if_pos htimer] at hmem' ⊢
    cases hmem'
    exact ⟨c, rfl, h, fun _ _ => rfl⟩
  rw [if_neg htimer] at hmem' ⊢
  by_cases hyield : (t.isBreakpoint || isEbreakInstruction code c.epc) = true
  · rw [if_pos hyield] at hmem' ⊢
    cases hmem'
    exact ⟨_, rfl, h.setEpc hbytes _, fun a ha => Function.update_of_ne (ha 33 (by decide)) ..⟩
  rw [if_neg hyield] at hmem' ⊢
  by_cases hsyscall : t.isSyscall = true
  · rw [if_pos hsyscall] at hmem' ⊢
    cases hmem'
    refine ⟨_, rfl, (h.setA0 hbytes ret).setEpc hbytes _, fun a ha => ?_⟩
    rw [Function.update_of_ne (ha 33 (by decide)), Function.update_of_ne (ha 10 (by decide))]
  rw [if_neg hsyscall] at hmem' ⊢
  by_cases hexternal : t.isExternal = true
  · rw [if_pos hexternal] at hmem' ⊢
    cases hmem'
    exact ⟨c, rfl, h, fun _ _ => rfl⟩
  · rw [if_neg hexternal] at hmem'
    cases hmem'

end OpenIon.Arch.Riscv
