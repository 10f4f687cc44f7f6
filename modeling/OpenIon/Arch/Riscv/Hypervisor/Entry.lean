import OpenIon.Arch.Riscv.Trap

/-! # Entering and leaving a guest

The code of `hypervisor/entry.S`: `guest_run`, `hypervisor_trap_vector` up to the call of
`handle_vm_exit`, and the two ways on from there. A context has a word for each register and after
them those of the guest's own status registers. The transfers use a register of the guest as the
base, so that each is right only for some register values, which are found here.
-/
namespace OpenIon.Arch.Riscv.Hypervisor
open Lib.Asm (Reg slotAddr slotAddr_eq toNat_add_emod toNat_sub_emod saveRegs restoreRegs
  saveRegs_congr saveRegs_of_ne saveRegs_of_mem)

inductive Csr where
  | hstatus
  | sepc
  | vsstatus
  | vsepc
  | vscause
  | vstval
  | scause
  | stval
  deriving DecidableEq

/-- Instructions on registers and memory, and the two that access a status register. -/
inductive Instr where
  | base (i : Lib.Asm.Instr)
  | csrr (rd : Reg) (csr : Csr)
  | csrw (csr : Csr) (rs : Reg)

structure Hart where
  x : Reg → ℕ
  mem : ℕ → ℕ
  csr : Csr → ℕ

def Instr.exec (h : Hart) : Instr → Hart
  | base i =>
    let m := i.exec 8 ⟨h.x, h.mem, 0, 0⟩
    { h with x := m.x, mem := m.mem }
  | csrr rd csr => { h with x := Function.update h.x rd (h.csr csr) }
  | csrw csr rs => { h with csr := Function.update h.csr csr (h.x rs) }

def exec (is : List Instr) (h : Hart) : Hart := is.foldl (fun h i => i.exec h) h

/-! ## The code -/

/-- `ra` and `s0` to `s11`, in the order of their slots in the frame of `guest_run`. -/
def hostRegs : List Reg := [ra, s0, s1, s2, s3, s4, s5, s6, s7, s8, s9, s10, s11]

def hostSlot (r : Reg) : ℕ := hostRegs.idxOf r

/-- `x1` to `x31`. The slot of each in a context is its number. -/
def guestRegs : List Reg := (List.finRange 32).drop 1

def saves (base : Reg) (slot : Reg → ℕ) (rs : List Reg) : List Instr :=
  (rs.map fun r => Lib.Asm.Instr.store r (slot r) base).map .base

def loads (base : Reg) (slot : Reg → ℕ) (rs : List Reg) : List Instr :=
  (rs.map fun r => Lib.Asm.Instr.load r (slot r) base).map .base

section Code

variable (hostVcpu : ℕ)

def setGuest : List Instr :=
  [.base (.la t0 hostVcpu), .base (.store a0 0 t0),
    .base (.la t0 (1 <<< 7)), .csrw .hstatus t0,
    .base (.la t0 hostVcpu), .base (.load t0 0 t0), .base (.load t1 33 t0), .csrw .sepc t1]

/-- `guest_run` up to `sret`. The word of `vsepc` is the 33rd of a context. -/
def guestRun : List Instr :=
  .base (.addi sp sp (-(13 * 8 : ℕ))) ::
    (saves sp hostSlot hostRegs ++ (setGuest hostVcpu ++ loads t0 Fin.val guestRegs))

def loadVcpu : List Instr := [.base (.la s0 hostVcpu), .base (.load s0 0 s0)]

def saveCsrs : List Instr :=
  [.csrr t0 .vsstatus, .base (.store t0 32 s0), .csrr t0 .vsepc, .base (.store t0 33 s0),
    .csrr t0 .vscause, .base (.store t0 34 s0), .csrr t0 .vstval, .base (.store t0 35 s0),
    .base (.mv a0 s0), .csrr a1 .scause, .csrr a2 .stval]

/-- `hypervisor_trap_vector` up to the call of `handle_vm_exit`. -/
def trapVector : List Instr := loadVcpu hostVcpu ++ (saves s0 Fin.val guestRegs ++ saveCsrs)

/-- From the return of `handle_vm_exit` with 0 up to `sret`. -/
def resume : List Instr :=
  loadVcpu hostVcpu ++ ([.base (.load t0 32 s0), .csrw .vsstatus t0, .base (.load t0 33 s0),
    .csrw .sepc t0] ++ loads s0 Fin.val guestRegs)

/-- From the return of `handle_vm_exit` with another value up to `ret`. -/
def exitToHost : List Instr := loads sp hostSlot hostRegs ++ [.base (.addi sp sp (13 * 8 : ℕ))]

end Code

/-! ## What should happen -/

/-- The addresses of `HOST_VCPU`, of a context and of the frame of `guest_run`, which lie apart. -/
structure Layout where
  hostVcpu : ℕ
  ctx : ℕ
  frame : ℕ
  hostVcpu_lt : hostVcpu < 2 ^ 64
  ctx_lt : ctx + 36 * 8 < 2 ^ 64
  frame_lt : frame + 13 * 8 < 2 ^ 64
  ctx_ne_hostVcpu : ∀ k < 36, ctx + k * 8 ≠ hostVcpu
  frame_ne_hostVcpu : ∀ k < 13, frame + k * 8 ≠ hostVcpu
  ctx_ne_frame : ∀ k < 36, ∀ j < 13, ctx + k * 8 ≠ frame + j * 8

/-- The context has the registers `x1` to `x31` and the address `pc`. -/
structure InContext (L : Layout) (mem : ℕ → ℕ) (x : Reg → ℕ) (pc : ℕ) : Prop where
  regs : ∀ r : Reg, r ≠ 0 → mem (L.ctx + r * 8) = x r
  pc : mem (L.ctx + 33 * 8) = pc

/-- The host calls `guest_run` for the context. -/
structure Called (L : Layout) (s : Hart) : Prop where
  a0 : s.x a0 = L.ctx
  sp : s.x sp = L.frame + 13 * 8

/-- The host has its return address, its saved registers and its stack pointer back. -/
structure Restored (s h : Hart) : Prop where
  regs : ∀ r ∈ hostRegs, h.x r = s.x r
  sp : h.x sp = s.x sp

/-- Memory with the registers of the host in the frame and the context in `HOST_VCPU`. -/
def savedFrame (L : Layout) (s : Hart) : ℕ → ℕ :=
  Function.update (saveRegs 8 hostSlot L.frame s.x hostRegs s.mem) L.hostVcpu L.ctx

/-! ## Transfers of registers -/

variable {x : Reg → ℕ} {mem mem' : ℕ → ℕ} {slot : Reg → ℕ} {rs : List Reg} {base r : Reg} {h : Hart}
  {L : Layout}

theorem exec_cons (i : Instr) (is : List Instr) (h : Hart) : exec (i :: is) h = exec is (i.exec h) :=
  rfl

theorem exec_append (is js : List Instr) (h : Hart) : exec (is ++ js) h = exec js (exec is h) :=
  List.foldl_append

/-- Code that does not branch and leaves the registers of a trap runs as on a machine. -/
theorem exec_base (is : List Lib.Asm.Instr)
    (his : ∀ i ∈ is, ∀ m, i.skips m = 0 ∧
      i.exec 8 m = ⟨(i.exec 8 m).x, (i.exec 8 m).mem, m.status, m.epc⟩) (h : Hart) :
    exec (is.map .base) h = { h with
      x := (Lib.Asm.exec 8 0 is ⟨h.x, h.mem, 0, 0⟩).x
      mem := (Lib.Asm.exec 8 0 is ⟨h.x, h.mem, 0, 0⟩).mem } := by
  induction is generalizing h with
  | nil => rfl
  | cons i is ih =>
    obtain ⟨hskips, hexec⟩ := his i List.mem_cons_self ⟨h.x, h.mem, 0, 0⟩
    rw [List.map_cons, exec_cons, ih fun j hj => his j (List.mem_cons_of_mem i hj), Lib.Asm.exec,
      hskips, hexec]
    rfl

theorem exec_saves (base : Reg) (slot : Reg → ℕ) (rs : List Reg) (h : Hart) :
    exec (saves base slot rs) h =
      { h with mem := saveRegs 8 slot (h.x base) h.x rs h.mem } := by
  rw [saves, exec_base _ (by simp [Lib.Asm.Instr.skips, Lib.Asm.Instr.exec]),
    ← List.append_nil (rs.map _), Lib.Asm.exec_saves]
  rfl

theorem exec_loads (hbase : base ∉ rs) (h : Hart) :
    exec (loads base slot rs) h =
      { h with x := restoreRegs 8 slot (h.x base) h.mem rs h.x } := by
  rw [loads, exec_base _
      (by simp [Lib.Asm.Instr.skips, Lib.Asm.Instr.exec, Lib.Asm.Machine.setReg]),
    ← List.append_nil (rs.map _), Lib.Asm.exec_restores _ _ hbase]
  rfl

def below (base : Reg) : List Reg := guestRegs.filter (· < base)
def above (base : Reg) : List Reg := guestRegs.filter (base < ·)

theorem guestRegs_eq (hbase : base ≠ 0) : guestRegs = below base ++ base :: above base := by
  revert base
  decide

theorem mem_guestRegs : r ∈ guestRegs ↔ r ≠ 0 := by
  revert r
  decide

theorem mem_below (hr : r ≠ 0) : r ∈ below base ↔ r < base := by
  simp [below, mem_guestRegs, hr]

theorem mem_above (hr : r ≠ 0) : r ∈ above base ↔ base < r := by
  simp [above, mem_guestRegs, hr]

/-- The loads of a whole context go on from the loaded value of the base once it is overwritten. -/
theorem exec_reload (hbase : base ≠ 0) (h : Hart) :
    ∃ x, exec (loads base Fin.val guestRegs) h = { h with x := x } ∧
      ∀ r : Reg, r ≠ 0 → x r = h.mem (slotAddr 8
        (if r.val ≤ base.val then h.x base else h.mem (slotAddr 8 (h.x base) base)) r) := by
  have hcode : loads base Fin.val guestRegs = loads base Fin.val (below base) ++
      (.base (.load base base base) :: loads base Fin.val (above base)) := by
    conv_lhs => rw [guestRegs_eq hbase]
    simp [loads]
  have hbelow : base ∉ below base := fun hmem => Nat.lt_irrefl _ ((mem_below hbase).mp hmem)
  have habove : base ∉ above base := fun hmem => Nat.lt_irrefl _ ((mem_above hbase).mp hmem)
  let x₁ := restoreRegs 8 Fin.val (h.x base) h.mem (below base) h.x
  let v := h.mem (slotAddr 8 (h.x base) base)
  have hx₁ : x₁ base = h.x base := if_neg hbelow
  refine ⟨restoreRegs 8 Fin.val v h.mem (above base) (Function.update x₁ base v), ?_, ?_⟩
  · rw [hcode, exec_append, exec_loads hbelow]
    change exec (loads base Fin.val (above base))
      ⟨Function.update x₁ base (h.mem (slotAddr 8 (x₁ base) base)), h.mem, h.csr⟩ = _
    rw [exec_loads habove, hx₁]
    dsimp only
    rw [Function.update_self]
  · intro r hr
    rcases Nat.lt_trichotomy r base with hlt | heq | hgt
    · rw [restoreRegs, if_neg (mt (mem_above hr).mp (Nat.lt_asymm hlt)),
        Function.update_of_ne (Fin.ne_of_lt hlt), if_pos (Nat.le_of_lt hlt)]
      exact if_pos ((mem_below hr).mpr hlt)
    · rw [Fin.ext heq, restoreRegs, if_neg habove, Function.update_self, if_pos (Nat.le_refl _)]
    · rw [restoreRegs, if_pos ((mem_above hr).mpr hgt), if_neg (Nat.not_le.mpr hgt)]

theorem Layout.slotAddr_ctx (L : Layout) {k : ℕ} (hk : k < 36) :
    slotAddr 8 L.ctx k = L.ctx + k * 8 :=
  slotAddr_eq (by have := L.ctx_lt; omega)

theorem Layout.slotAddr_frame (L : Layout) {k : ℕ} (hk : k < 13) :
    slotAddr 8 L.frame k = L.frame + k * 8 :=
  slotAddr_eq (by have := L.frame_lt; omega)

theorem Layout.slotAddr_hostVcpu (L : Layout) : slotAddr 8 L.hostVcpu 0 = L.hostVcpu :=
  slotAddr_eq (by have := L.hostVcpu_lt; omega)

/-- The loads give the context exactly if the words above the base are also found where they are
looked for. -/
theorem reload_iff (hbase : base ≠ 0) (hctx : h.x base = L.ctx)
    (hpc : h.csr .sepc = h.mem (L.ctx + 33 * 8)) :
    InContext L h.mem (exec (loads base Fin.val guestRegs) h).x
        ((exec (loads base Fin.val guestRegs) h).csr .sepc) ↔
      ∀ r : Reg, base.val < r.val →
        h.mem (slotAddr 8 (h.mem (L.ctx + base * 8)) r) = h.mem (L.ctx + r * 8) := by
  obtain ⟨x, hexec, hx⟩ := exec_reload hbase h
  rw [hctx, L.slotAddr_ctx (by omega)] at hx
  rw [hexec]
  constructor
  · intro hin r hr
    have hr0 : r ≠ 0 := by
      rintro rfl
      exact Nat.not_lt_zero _ hr
    have hword : x r = _ := hx r hr0
    rw [if_neg (Nat.not_le.mpr hr)] at hword
    exact hword.symm.trans (hin.regs r hr0).symm
  · intro hwords
    refine ⟨fun r hr => ?_, hpc.symm⟩
    refine Eq.trans ?_ (hx r hr).symm
    by_cases hle : r.val ≤ base.val
    · rw [if_pos hle, L.slotAddr_ctx (by omega)]
    · rw [if_neg hle, hwords r (Nat.not_le.mp hle)]

/-! ## `guest_run` -/

theorem InContext.congr_iff {pc : ℕ} (hmem : ∀ k < 36, mem' (L.ctx + k * 8) = mem (L.ctx + k * 8)) :
    InContext L mem' x pc ↔ InContext L mem x pc := by
  constructor
  · rintro ⟨hregs, hpc⟩
    exact ⟨fun r hr => by rw [← hmem r (by omega), hregs r hr], by rw [← hmem 33 (by decide), hpc]⟩
  · rintro ⟨hregs, hpc⟩
    exact ⟨fun r hr => by rw [hmem r (by omega), hregs r hr], by rw [hmem 33 (by decide), hpc]⟩

theorem hostSlot_lt (hr : r ∈ hostRegs) : hostSlot r < 13 := List.idxOf_lt_length_of_mem hr

theorem Layout.slotAddr_frame_inj (L : Layout) (hr : r ∈ hostRegs) :
    ∀ q ∈ hostRegs, slotAddr 8 L.frame (hostSlot r) = slotAddr 8 L.frame (hostSlot q) → r = q := by
  intro q hq heq
  rw [L.slotAddr_frame (hostSlot_lt hr), L.slotAddr_frame (hostSlot_lt hq)] at heq
  exact (List.idxOf_inj hr).mp (by unfold hostSlot at heq; omega)

theorem savedFrame_ctx (L : Layout) (s : Hart) {k : ℕ} (hk : k < 36) :
    savedFrame L s (L.ctx + k * 8) = s.mem (L.ctx + k * 8) := by
  rw [savedFrame, Function.update_of_ne (L.ctx_ne_hostVcpu k hk)]
  refine saveRegs_of_ne fun r hr => ?_
  rw [L.slotAddr_frame (hostSlot_lt hr)]
  exact L.ctx_ne_frame k hk _ (hostSlot_lt hr)

theorem savedFrame_frame (L : Layout) (s : Hart) (hr : r ∈ hostRegs) :
    savedFrame L s (L.frame + hostSlot r * 8) = s.x r := by
  rw [savedFrame, Function.update_of_ne (L.frame_ne_hostVcpu _ (hostSlot_lt hr)),
    ← L.slotAddr_frame (hostSlot_lt hr), saveRegs_of_mem (L.slotAddr_frame_inj hr) hr]

theorem exec_setGuest (h : Hart) (hctx : h.x a0 = L.ctx) :
    (exec (setGuest L.hostVcpu) h).mem = Function.update h.mem L.hostVcpu L.ctx ∧
      (exec (setGuest L.hostVcpu) h).x t0 = L.ctx ∧
      (exec (setGuest L.hostVcpu) h).csr .sepc =
        Function.update h.mem L.hostVcpu L.ctx (L.ctx + 33 * 8) := by
  have hregs : a0 ≠ t0 ∧ t0 ≠ t1 := by decide
  simp [setGuest, exec, Instr.exec, Lib.Asm.Instr.exec, Lib.Asm.Machine.setReg, L.slotAddr_hostVcpu,
    hregs, hctx, L.slotAddr_ctx]

/-- `guest_run` saves the registers of the host and then loads those of the context. -/
theorem exec_guestRun {s : Hart} (hs : Called L s) :
    ∃ h, exec (guestRun L.hostVcpu) s = exec (loads t0 Fin.val guestRegs) h ∧ h.x t0 = L.ctx ∧
      h.csr .sepc = h.mem (L.ctx + 33 * 8) ∧ h.mem = savedFrame L s := by
  have hsp : (((s.x sp : ℤ) + -((13 * 8 : ℕ) : ℤ)) % (2 ^ (8 * 8) : ℕ)).toNat = L.frame := by
    rw [hs.sp, toNat_sub_emod (by omega) L.frame_lt]
    omega
  let x := Function.update s.x sp L.frame
  let mem := saveRegs 8 hostSlot L.frame s.x hostRegs s.mem
  have hregs : ∀ r ∈ hostRegs, x r = s.x r := by
    intro r hr
    have hne : r ≠ sp := by
      revert r
      decide
    exact Function.update_of_ne hne ..
  have hsaved : exec (saves sp hostSlot hostRegs)
      (Instr.exec s (.base (.addi sp sp (-(13 * 8 : ℕ))))) = ⟨x, mem, s.csr⟩ := by
    rw [exec_saves]
    simp only [Instr.exec, Lib.Asm.Instr.exec, Lib.Asm.Machine.setReg, hsp, Function.update_self]
    rw [saveRegs_congr hregs]
  have hcode : exec (guestRun L.hostVcpu) s =
      exec (loads t0 Fin.val guestRegs) (exec (setGuest L.hostVcpu) ⟨x, mem, s.csr⟩) := by
    rw [guestRun, exec_cons, exec_append, exec_append, hsaved]
  have ha0 : x a0 = L.ctx := (Function.update_of_ne (by decide) ..).trans hs.a0
  obtain ⟨hmem, ht0, hsepc⟩ := exec_setGuest (L := L) ⟨x, mem, s.csr⟩ ha0
  exact ⟨_, hcode, ht0, by rw [hsepc, hmem], hmem⟩

theorem exec_guestRun_mem {s : Hart} (hs : Called L s) :
    (exec (guestRun L.hostVcpu) s).mem = savedFrame L s := by
  obtain ⟨h, hexec, -, -, hmem⟩ := exec_guestRun hs
  obtain ⟨x, hx, -⟩ := exec_reload (show t0 ≠ 0 by decide) h
  rw [hexec, hx, hmem]

/-- `x5` is the base of the loads, so `x6` to `x31` are loaded from where its new value points. -/
theorem guestRun_iff {s : Hart} (hs : Called L s) :
    InContext L s.mem (exec (guestRun L.hostVcpu) s).x
        ((exec (guestRun L.hostVcpu) s).csr .sepc) ↔
      ∀ r : Reg, 5 < r.val →
        savedFrame L s (slotAddr 8 (s.mem (L.ctx + 5 * 8)) r) = s.mem (L.ctx + r * 8) := by
  obtain ⟨h, hexec, ht0, hpc, hmem⟩ := exec_guestRun hs
  have hctx : ∀ k < 36, h.mem (L.ctx + k * 8) = s.mem (L.ctx + k * 8) := by
    intro k hk
    rw [hmem, savedFrame_ctx L s hk]
  rw [hexec, ← InContext.congr_iff hctx, reload_iff (by decide) ht0 hpc]
  have hfive : h.mem (L.ctx + (t0 : ℕ) * 8) = s.mem (L.ctx + 5 * 8) := hctx 5 (by decide)
  rw [hfive]
  refine forall_congr' fun r => imp_congr_right fun _ => ?_
  rw [hctx r (by omega), hmem]

/-! ## `hypervisor_trap_vector` -/

theorem exec_loadVcpu (h : Hart) (hvcpu : h.mem L.hostVcpu = L.ctx) :
    exec (loadVcpu L.hostVcpu) h = { h with x := Function.update h.x s0 L.ctx } := by
  simp [loadVcpu, exec, Instr.exec, Lib.Asm.Instr.exec, Lib.Asm.Machine.setReg,
    L.slotAddr_hostVcpu, hvcpu]

theorem exec_saveCsrs (h : Hart) (hctx : h.x s0 = L.ctx) :
    (exec saveCsrs h).mem = Function.update (Function.update (Function.update (Function.update
        h.mem (L.ctx + 32 * 8) (h.csr .vsstatus)) (L.ctx + 33 * 8) (h.csr .vsepc))
        (L.ctx + 34 * 8) (h.csr .vscause)) (L.ctx + 35 * 8) (h.csr .vstval) ∧
      (exec saveCsrs h).x sp = h.x sp := by
  have hregs : s0 ≠ t0 ∧ sp ≠ t0 ∧ sp ≠ a0 ∧ sp ≠ a1 ∧ sp ≠ a2 := by decide
  simp [saveCsrs, exec, Instr.exec, Lib.Asm.Instr.exec, Lib.Asm.Machine.setReg, hregs, hctx,
    L.slotAddr_ctx]

/-- The context after a trap has all registers but `x8`, which held its address when it was stored,
and `vsepc` in the place of the address of the trap. -/
theorem exec_trapVector {g : Hart} (hvcpu : g.mem L.hostVcpu = L.ctx) :
    (∀ r : Reg, r ≠ 0 → (exec (trapVector L.hostVcpu) g).mem (L.ctx + r * 8) =
        Function.update g.x s0 L.ctx r) ∧
      (exec (trapVector L.hostVcpu) g).mem (L.ctx + 33 * 8) = g.csr .vsepc ∧
      (exec (trapVector L.hostVcpu) g).x sp = g.x sp := by
  let x := Function.update g.x s0 L.ctx
  let mem := saveRegs 8 Fin.val L.ctx x guestRegs g.mem
  have hs0 : x s0 = L.ctx := Function.update_self ..
  have hcode : exec (trapVector L.hostVcpu) g = exec saveCsrs ⟨x, mem, g.csr⟩ := by
    rw [trapVector, exec_append, exec_loadVcpu g hvcpu, exec_append, exec_saves]
    dsimp only
    rw [Function.update_self]
  obtain ⟨hmem, hsp⟩ := exec_saveCsrs (L := L) ⟨x, mem, g.csr⟩ hs0
  rw [hcode, hmem, hsp]
  have hxsp : x sp = g.x sp := Function.update_of_ne (by decide) ..
  refine ⟨?_, ?_, hxsp⟩
  · intro r hr
    have hr32 : (r : ℕ) < 32 := r.isLt
    have hput : mem (slotAddr 8 L.ctx r) = x r := by
      refine saveRegs_of_mem (fun q _ heq => ?_) (mem_guestRegs.mpr hr)
      rw [L.slotAddr_ctx (by omega), L.slotAddr_ctx (by omega)] at heq
      exact Fin.ext (by omega)
    rw [Function.update_of_ne (by omega), Function.update_of_ne (by omega),
      Function.update_of_ne (by omega), Function.update_of_ne (by omega)]
    rwa [L.slotAddr_ctx (by omega)] at hput
  · rw [Function.update_of_ne (by omega), Function.update_of_ne (by omega), Function.update_self]

theorem trapVector_iff {g : Hart} (hvcpu : g.mem L.hostVcpu = L.ctx) :
    InContext L (exec (trapVector L.hostVcpu) g).mem g.x (g.csr .sepc) ↔
      g.x s0 = L.ctx ∧ g.csr .vsepc = g.csr .sepc := by
  obtain ⟨hregs, hpc, -⟩ := exec_trapVector hvcpu
  constructor
  · rintro ⟨hin, hsepc⟩
    refine ⟨?_, by rw [← hpc, hsepc]⟩
    have hword := hin s0 (by decide)
    rwa [hregs s0 (by decide), Function.update_self, eq_comm] at hword
  · rintro ⟨hs0, hsepc⟩
    refine ⟨fun r hr => ?_, by rw [hpc, hsepc]⟩
    rw [hregs r hr, ← hs0, Function.update_eq_self]

/-! ## After `handle_vm_exit` -/

/-- `x8` is the base of the loads, so `x9` to `x31` are loaded from where its new value points. -/
theorem resume_iff (hvcpu : h.mem L.hostVcpu = L.ctx) :
    InContext L h.mem (exec (resume L.hostVcpu) h).x ((exec (resume L.hostVcpu) h).csr .sepc) ↔
      ∀ r : Reg, 8 < r.val →
        h.mem (slotAddr 8 (h.mem (L.ctx + 8 * 8)) r) = h.mem (L.ctx + r * 8) := by
  have hregs : s0 ≠ t0 := by decide
  let x := Function.update (Function.update h.x s0 L.ctx) t0 (h.mem (L.ctx + 33 * 8))
  let csr := Function.update (Function.update h.csr .vsstatus (h.mem (L.ctx + 32 * 8))) .sepc
    (h.mem (L.ctx + 33 * 8))
  have hcode : exec (resume L.hostVcpu) h = exec (loads s0 Fin.val guestRegs) ⟨x, h.mem, csr⟩ := by
    rw [resume, exec_append, exec_append, exec_loadVcpu h hvcpu]
    simp [exec, Instr.exec, Lib.Asm.Instr.exec, Lib.Asm.Machine.setReg, L.slotAddr_ctx, hregs, x,
      csr]
  have hs0 : x s0 = L.ctx := by simp [x, hregs]
  have hpc : csr .sepc = h.mem (L.ctx + 33 * 8) := Function.update_self ..
  rw [hcode]
  exact reload_iff (h := ⟨x, h.mem, csr⟩) (by decide) hs0 hpc

theorem exec_exitToHost (h : Hart) :
    (∀ r ∈ hostRegs, (exec exitToHost h).x r = h.mem (slotAddr 8 (h.x sp) (hostSlot r))) ∧
      (exec exitToHost h).x sp = (h.x sp + 13 * 8) % 2 ^ 64 := by
  have hbase : sp ∉ hostRegs := by decide
  let x := restoreRegs 8 hostSlot (h.x sp) h.mem hostRegs h.x
  have hx : x sp = h.x sp := if_neg hbase
  have hsum : (((h.x sp : ℤ) + (13 * 8 : ℕ)) % (2 ^ (8 * 8) : ℕ)).toNat =
      (h.x sp + 13 * 8) % 2 ^ 64 := by
    rw [← Int.natCast_add, ← Int.natCast_emod, Int.toNat_natCast]
  have hcode : exec exitToHost h =
      ⟨Function.update x sp ((h.x sp + 13 * 8) % 2 ^ 64), h.mem, h.csr⟩ := by
    rw [exitToHost, exec_append, exec_loads hbase, ← hsum, ← hx]
    rfl
  rw [hcode]
  dsimp only
  refine ⟨fun r hr => ?_, Function.update_self ..⟩
  have hne : r ≠ sp := fun heq => hbase (heq ▸ hr)
  exact (Function.update_of_ne hne ..).trans (if_pos hr)

/-- The host gets its registers back from the stack of the guest. -/
theorem exitToHost_iff {s : Hart} (hs : Called L s) (hsp : h.x sp < 2 ^ 64)
    (hframe : ∀ r ∈ hostRegs, h.mem (L.frame + hostSlot r * 8) = s.x r) :
    Restored s (exec exitToHost h) ↔ h.x sp = L.frame := by
  obtain ⟨hregs, hstack⟩ := exec_exitToHost h
  have hlt := L.frame_lt
  constructor
  · rintro ⟨-, hrestored⟩
    rw [hstack, hs.sp] at hrestored
    omega
  · intro heq
    refine ⟨fun r hr => ?_, ?_⟩
    · rw [hregs r hr, heq, L.slotAddr_frame (hostSlot_lt hr), hframe r hr]
    · rw [hstack, heq, Nat.mod_eq_of_lt hlt, hs.sp]

/-- `handle_vm_exit` has returned: the saved registers, `HOST_VCPU` and the frame of `guest_run` are
as before the call. -/
structure Handled (L : Layout) (s g h : Hart) : Prop where
  sp : h.x sp = (exec (trapVector L.hostVcpu) g).x sp
  hostVcpu : h.mem L.hostVcpu = L.ctx
  frame : ∀ k < 13, h.mem (L.frame + k * 8) =
    (exec (guestRun L.hostVcpu) s).mem (L.frame + k * 8)

/-- When the four transfers are right. A guest is entered with its context if the words of `x6` to
`x31` are also found from the value of `x5` on. A trap stores the guest's registers and address if
`x8` is the address of the context and `vsepc` that of the trap. The guest is resumed with its
context if the words of `x9` to `x31` are also found from the value of `x8` on. The host gets its
registers back if the guest's stack pointer is that of the frame. -/
theorem guest_state_preserved_iff (L : Layout) :
    (∀ s, Called L s → (InContext L s.mem (exec (guestRun L.hostVcpu) s).x
        ((exec (guestRun L.hostVcpu) s).csr .sepc) ↔
      ∀ r : Reg, 5 < r.val →
        savedFrame L s (slotAddr 8 (s.mem (L.ctx + 5 * 8)) r) = s.mem (L.ctx + r * 8))) ∧
    (∀ g, g.mem L.hostVcpu = L.ctx →
      (InContext L (exec (trapVector L.hostVcpu) g).mem g.x (g.csr .sepc) ↔
        g.x s0 = L.ctx ∧ g.csr .vsepc = g.csr .sepc)) ∧
    (∀ s g h, Handled L s g h →
      (InContext L h.mem (exec (resume L.hostVcpu) h).x ((exec (resume L.hostVcpu) h).csr .sepc) ↔
        ∀ r : Reg, 8 < r.val →
          h.mem (slotAddr 8 (h.mem (L.ctx + 8 * 8)) r) = h.mem (L.ctx + r * 8))) ∧
    (∀ s g h, Called L s → g.mem L.hostVcpu = L.ctx → g.x sp < 2 ^ 64 → Handled L s g h →
      (Restored s (exec exitToHost h) ↔ g.x sp = L.frame)) := by
  refine ⟨fun s hs => guestRun_iff hs, fun g hg => trapVector_iff hg,
    fun s g h hh => resume_iff hh.hostVcpu, fun s g h hs hg hlt hh => ?_⟩
  have hsp : h.x sp = g.x sp := hh.sp.trans (exec_trapVector hg).2.2
  rw [← hsp]
  refine exitToHost_iff hs (hsp ▸ hlt) fun r hr => ?_
  rw [hh.frame _ (hostSlot_lt hr), exec_guestRun_mem hs, savedFrame_frame L s hr]

def lowLayout : Layout where
  hostVcpu := 0x1000
  ctx := 0x2000
  frame := 0x3000
  hostVcpu_lt := by decide
  ctx_lt := by decide
  frame_lt := by decide
  ctx_ne_hostVcpu := by omega
  frame_ne_hostVcpu := by omega
  ctx_ne_frame := by omega

def friendlyHart : Hart where
  x r := if r = sp then 0x3000 + 13 * 8 else 0x2000
  mem _ := 0x2000
  csr _ := 0x80000000

/-- A guest whose `x5` and `x8` point to the context is entered and stored as it should be. -/
theorem friendly_guest_preserved :
    InContext lowLayout friendlyHart.mem (exec (guestRun 0x1000) friendlyHart).x
        ((exec (guestRun 0x1000) friendlyHart).csr .sepc) ∧
      InContext lowLayout (exec (trapVector 0x1000) friendlyHart).mem friendlyHart.x
        (friendlyHart.csr .sepc) :=
  ⟨((guest_state_preserved_iff lowLayout).1 friendlyHart ⟨rfl, rfl⟩).mpr (by decide +kernel),
    ((guest_state_preserved_iff lowLayout).2.1 friendlyHart rfl).mpr ⟨rfl, rfl⟩⟩

def plainHart : Hart where
  x r := if r = a0 then 0x2000 else if r = sp then 0x3000 + 13 * 8 else r
  mem a := if a = 0x1000 then 0x2000 else a
  csr c := if c = .sepc then 0x80000000 else 0

/-- The guest is entered with a wrong `x6`; at a trap `x8` and the address of the trap are lost; the
guest is resumed with a wrong `x9`; and the host gets a wrong stack pointer back. -/
theorem guest_state_is_lost :
    (exec (guestRun 0x1000) plainHart).x 6 ≠ plainHart.mem (0x2000 + 6 * 8) ∧
      (exec (trapVector 0x1000) plainHart).mem (0x2000 + 8 * 8) ≠ plainHart.x 8 ∧
      (exec (trapVector 0x1000) plainHart).mem (0x2000 + 33 * 8) ≠ plainHart.csr .sepc ∧
      (exec (resume 0x1000) plainHart).x 9 ≠ plainHart.mem (0x2000 + 9 * 8) ∧
      (exec exitToHost plainHart).x sp ≠ plainHart.x sp := by
  decide +kernel

end OpenIon.Arch.Riscv.Hypervisor
