import Mathlib.Data.Fintype.Basic
import Mathlib.Data.Option.Basic
import OpenIon.Arch.Riscv.Trap
import OpenIon.Lib.Run

/-! # Context switches on RISC-V

Tasks run, trap and are switched on one hart. The kernel keeps the context of a task that
does not run in a frame on the stack of the task, which the first word of its control block
points to. Memory is addressed by aligned words. That every task continues where it was
interrupted is a refinement of a machine that keeps the contexts by task.
-/
namespace OpenIon.Arch.Riscv
open Lib.Asm

/-- The words of the kernel that the context switch uses: `CURRENT_TCB`, `NEXT_TCB` and the stack
pointers of the tasks. -/
inductive Cell (ι : Type) where
  | current
  | next
  | tcb (i : ι)
  deriving DecidableEq

/-- Where the kernel and the tasks are in memory. Stacks have `len` words. They are disjoint, have
room for a frame and contain no word of the kernel. -/
structure Layout (ι : Type) where
  bytes : ℕ
  mode : Mode
  code : ℕ → ℕ
  addr : Cell ι → ℕ
  stack : ι → ℕ
  len : ι → ℕ
  entry : ι → ℕ
  bytes_eq : bytes = 4 ∨ bytes = 8
  addr_injective : Function.Injective addr
  addr_lt : ∀ c, addr c < 2 ^ (8 * bytes)
  addr_aligned : ∀ c, addr c % bytes = 0
  tcb_ne_zero : ∀ i, addr (.tcb i) ≠ 0
  addr_outside : ∀ c i, addr c < stack i ∨ stack i + len i * bytes ≤ addr c
  stack_aligned : ∀ i, stack i % bytes = 0
  stack_lt : ∀ i, stack i + len i * bytes < 2 ^ (8 * bytes)
  disjoint : ∀ i j, i ≠ j →
    stack i + len i * bytes ≤ stack j ∨ stack j + len j * bytes ≤ stack i
  room : ∀ i, stack i + 34 * bytes + (stack i + len i * bytes) % 16 ≤ stack i + len i * bytes

/-- The hart with its memory. In the handler, `handler` is the frame that it was called with. -/
structure Sys (ι : Type) where
  m : Machine
  pc : ℕ
  created : ι → Bool
  handler : Option ℕ

/-- What can happen: code runs, in a task or in the handler; a word is written that is not the
kernel's; the scheduler decides which task is next; a task is created; the running task traps, and
the hardware enters with a status; the handler returns from a trap, for which a system call has
the result `ret`; the first task is started. -/
inductive Action (ι : Type) where
  | work (x : Reg → ℕ) (status pc : ℕ)
  | write (addr value : ℕ)
  | decide (j : ι)
  | create (j : ι)
  | trap (status : ℕ)
  | leave (t : Trap) (ret : ℕ)
  | start

variable {ι : Type}

def Sys.setMem (s : Sys ι) (mem : ℕ → ℕ) : Sys ι := { s with m := { s.m with mem := mem } }

def Sys.returned (s : Sys ι) (m : Machine) : Sys ι := { s with m := m, pc := m.epc, handler := none }

namespace Layout

variable (L : Layout ι)

def top (i : ι) : ℕ := L.stack i + L.len i * L.bytes

def current : ℕ := L.addr .current

def next : ℕ := L.addr .next

def tcb (i : ι) : ℕ := L.addr (.tcb i)

def tcbPtr : Option ι → ℕ
  | none => 0
  | some i => L.tcb i

/-- The frame of a task that has one. A running task has one in the handler only. -/
def frameOf (s : Sys ι) (j : ι) : Option ℕ :=
  if s.created j then
    if s.m.mem L.current = L.tcb j then s.handler else some (s.m.mem (L.tcb j))
  else none

variable [Fintype ι] [DecidableEq ι]

/-- The words that only the kernel's context switch writes. -/
def Protected (s : Sys ι) (a : ℕ) : Prop :=
  a = L.current ∨ a = L.next ∨ (∃ j, a = L.tcb j) ∨
    ∃ j, ∃ k < 34, (L.frameOf s j).map (· + k * L.bytes) = some a

instance decidableProtected (s : Sys ι) (a : ℕ) : Decidable (L.Protected s a) :=
  inferInstanceAs (Decidable (_ ∨ _ ∨ _ ∨ _))

def step (s : Sys ι) : Action ι → Option (Sys ι)
  | .work x status pc => some { s with m := { s.m with x := x, status := status }, pc := pc }
  | .write a v => if L.Protected s a then none else some (s.setMem (Function.update s.m.mem a v))
  | .decide j =>
    if s.created j then some (s.setMem (Function.update s.m.mem L.next (L.tcb j))) else none
  | .create j =>
    if s.created j then none
    else
      let (sp, mem) := initTaskStack L.bytes L.mode (L.stack j) (L.len j) (L.entry j) s.m.mem
      some { s.setMem (Function.update mem (L.tcb j) sp) with
        created := Function.update s.created j true }
  | .trap status =>
    if s.handler = none ∧ s.m.x sp % L.bytes = 0 ∧
        ∃ i, s.m.mem L.current = L.tcb i ∧ L.stack i + 34 * L.bytes ≤ s.m.x sp ∧
          s.m.x sp ≤ L.top i then
      let m := exec L.bytes 0 (trapVector L.bytes) { s.m with status := status, epc := s.pc }
      some { s with m := m, handler := some (m.x a0) }
    else none
  | .leave t ret =>
    if s.handler = some (s.m.x sp) then
      (handleFrame L.bytes L.code t ret (s.m.x sp) s.m.mem).map fun mem =>
        s.returned (exec L.bytes 0 (trapSwitch L.current L.next ++ trapExit L.bytes)
          { s.m with mem := mem })
    else none
  | .start =>
    if s.handler = none ∧ s.m.mem L.current = 0 ∧ s.m.mem L.next ≠ 0 then
      some (s.returned
        (exec L.bytes 0 (loadFirstTaskAndStart L.current L.next ++ trapExit L.bytes) s.m))
    else none

def boot (m : Machine) (pc : ℕ) : Sys ι where
  m := { m with mem := Function.update (Function.update m.mem L.current 0) L.next 0 }
  pc := pc
  created _ := false
  handler := none

end Layout

/-! ### Tasks with contexts of their own -/

/-- The contexts of the tasks that do not run are kept by task. -/
structure Tasks (ι : Type) where
  running : Option ι
  next : Option ι
  inHandler : Bool
  live : Ctx
  saved : ι → Option Ctx

namespace Tasks

variable [DecidableEq ι]

def resume (a : Tasks ι) (j : ι) : Option (Tasks ι) :=
  (a.saved j).map fun c =>
    { a with
      running := some j
      inHandler := false
      live := c
      saved := Function.update a.saved j none }

/-- A trap saves the context of the running task, the handler changes that context only, and the
next task is resumed. -/
def step (L : Layout ι) (a : Tasks ι) : Action ι → Option (Tasks ι)
  | .work x status pc => some (if a.inHandler then a else { a with live := ⟨x, status, pc⟩ })
  | .write _ _ => some a
  | .decide j => some { a with next := some j }
  | .create j => some { a with
      saved := Function.update a.saved j
        (some (.initial L.bytes L.mode (L.stack j) (L.len j) (L.entry j))) }
  | .trap status => a.running.map fun i => { a with
      inHandler := true
      saved := Function.update a.saved i (some { a.live with status := status }) }
  | .leave t ret => do
    let i ← a.running
    let j ← a.next
    let c ← a.saved i
    let c ← c.handled L.bytes L.code t ret
    resume { a with saved := Function.update a.saved i (some c) } j
  | .start => a.next.bind a.resume

def boot (m : Machine) (pc : ℕ) : Tasks ι where
  running := none
  next := none
  inHandler := false
  live := ⟨m.x, m.status, pc⟩
  saved _ := none

end Tasks

/-! ### Frames in memory -/

namespace Layout

variable (L : Layout ι)

def InStack (j : ι) (frame : ℕ) : Prop := L.stack j ≤ frame ∧ frame + 34 * L.bytes ≤ L.top j

/-- A frame on the stack of a task holds its context. -/
def Keeps (mem : ℕ → ℕ) (j : ι) (frame : ℕ) (c : Ctx) : Prop :=
  L.InStack j frame ∧ Holds L.bytes mem frame c

/-- The frames of all tasks but the running one are as they were, and so are the pointers to
them. -/
def FramesKept (s s' : Sys ι) : Prop :=
  ∀ j frame, s.m.mem L.current ≠ L.tcb j → L.frameOf s j = some frame →
    s'.m.mem (L.tcb j) = frame ∧
      ∀ k < 34, s'.m.mem (frame + k * L.bytes) = s.m.mem (frame + k * L.bytes)

variable {L} {i j : ι} {f g k l : ℕ} {o : Option ι} {mem mem' : ℕ → ℕ} {s s' : Sys ι} {c : Ctx}

theorem bytes_pos (L : Layout ι) : 0 < L.bytes := by
  have := L.bytes_eq
  omega

theorem tcb_injective (L : Layout ι) : Function.Injective L.tcb := by
  intro i j h
  simpa using L.addr_injective h

theorem next_ne_current (L : Layout ι) : L.next ≠ L.current := L.addr_injective.ne (by simp)

theorem tcb_ne_current (L : Layout ι) (j : ι) : L.tcb j ≠ L.current :=
  L.addr_injective.ne (by simp)

theorem tcb_ne_next (L : Layout ι) (j : ι) : L.tcb j ≠ L.next := L.addr_injective.ne (by simp)

theorem tcbPtr_eq_tcb : L.tcbPtr o = L.tcb j ↔ o = some j := by
  cases o with
  | none =>
    simp only [tcbPtr, reduceCtorEq, iff_false]
    exact (L.tcb_ne_zero j).symm
  | some i => simp [tcbPtr, L.tcb_injective.eq_iff]

theorem tcbPtr_lt : L.tcbPtr o < 2 ^ (8 * L.bytes) := by
  cases o with
  | none => exact Nat.two_pow_pos _
  | some i => exact L.addr_lt _

theorem current_lt (L : Layout ι) : L.current < 2 ^ (8 * L.bytes) := L.addr_lt .current

theorem next_lt (L : Layout ι) : L.next < 2 ^ (8 * L.bytes) := L.addr_lt .next

theorem InStack.slot (h : L.InStack j f) (hk : k < 34) :
    L.stack j ≤ f + k * L.bytes ∧ f + k * L.bytes < L.top j := by
  have hle : (k + 1) * L.bytes ≤ 34 * L.bytes := Nat.mul_le_mul_right _ hk
  have hpos := L.bytes_pos
  have hsucc : (k + 1) * L.bytes = k * L.bytes + L.bytes := Nat.succ_mul ..
  obtain ⟨h1, h2⟩ := h
  omega

theorem InStack.addr_ne (h : L.InStack j f) (c : Cell ι) : ∀ k < 34, L.addr c ≠ f + k * L.bytes := by
  intro k hk heq
  have hslot := h.slot hk
  have hout := L.addr_outside c j
  rw [heq] at hout
  unfold top at hslot
  omega

theorem InStack.slot_ne (hi : L.InStack i f) (hj : L.InStack j g) (hij : i ≠ j) (hk : k < 34) :
    ∀ l < 34, f + k * L.bytes ≠ g + l * L.bytes := by
  intro l hl heq
  have h1 := hi.slot hk
  have h2 := hj.slot hl
  have hdis := L.disjoint i j hij
  unfold top at h1 h2
  omega

theorem Keeps.sp_lt (h : L.Keeps mem j f c) : c.x sp < 2 ^ (8 * L.bytes) := by
  rw [← h.2.stack]
  exact h.1.2.trans_lt (L.stack_lt j)

theorem Keeps.congr (h : L.Keeps mem j f c)
    (hmem : ∀ k < 34, mem' (f + k * L.bytes) = mem (f + k * L.bytes)) : L.Keeps mem' j f c :=
  ⟨h.1, h.2.congr hmem⟩

theorem keeps_initTaskStack (L : Layout ι) (j : ι) (mem : ℕ → ℕ) :
    L.Keeps (initTaskStack L.bytes L.mode (L.stack j) (L.len j) (L.entry j) mem).2 j
        (initTaskStack L.bytes L.mode (L.stack j) (L.len j) (L.entry j) mem).1
        (.initial L.bytes L.mode (L.stack j) (L.len j) (L.entry j)) ∧
      ∀ a, (∀ k < 34, a ≠ (initTaskStack L.bytes L.mode (L.stack j) (L.len j) (L.entry j) mem).1 +
          k * L.bytes) →
        (initTaskStack L.bytes L.mode (L.stack j) (L.len j) (L.entry j) mem).2 a = mem a := by
  have hroom := L.room j
  rcases initTaskStack_holds L.mode (L.stack j) (L.len j) (L.entry j) mem L.bytes_pos
    (by omega) with ⟨hholds, hmem⟩
  refine ⟨⟨⟨?_, ?_⟩, hholds⟩, hmem⟩
  · simp only [initTaskStack]
    omega
  · simp only [initTaskStack, top]
    omega

end Layout

/-! ### Refinement -/

/-- The memory represents the tasks. -/
structure Matches (L : Layout ι) (s : Sys ι) (a : Tasks ι) : Prop where
  current : s.m.mem L.current = L.tcbPtr a.running
  next : s.m.mem L.next = L.tcbPtr a.next
  created : ∀ j, a.running = some j ∨ a.next = some j → s.created j = true
  decided : a.running.isSome → a.next.isSome
  handler : a.inHandler = s.handler.isSome
  trapped : a.inHandler = true → a.running.isSome
  frames : ∀ j, Option.Rel (L.Keeps s.m.mem j) (L.frameOf s j) (a.saved j)
  live : a.inHandler = false → Ctx.Same ⟨s.m.x, s.m.status, s.pc⟩ a.live

namespace Matches

variable {L : Layout ι} {s s' : Sys ι} {a : Tasks ι} {i j : ι}

theorem current_eq_tcb (h : Matches L s a) : s.m.mem L.current = L.tcb j ↔ a.running = some j := by
  rw [h.current, Layout.tcbPtr_eq_tcb]

theorem keeps (h : Matches L s a) {frame : ℕ} (hframe : L.frameOf s j = some frame) :
    ∃ c, a.saved j = some c ∧ L.Keeps s.m.mem j frame c := by
  have hj := h.frames j
  rw [hframe] at hj
  generalize a.saved j = o at hj
  cases hj with
  | some hc => exact ⟨_, rfl, hc⟩

theorem frameOf_eq_some {frame : ℕ} (hj : s.m.mem L.current ≠ L.tcb j)
    (hframe : L.frameOf s j = some frame) : s.created j = true ∧ s.m.mem (L.tcb j) = frame := by
  unfold Layout.frameOf at hframe
  rw [if_neg hj] at hframe
  split at hframe
  · rename_i hcreated
    exact ⟨hcreated, Option.some.inj hframe⟩
  · cases hframe

theorem frameOf_congr (hcreated : s'.created j = s.created j) (hhandler : s'.handler = s.handler)
    (hcurrent : s'.m.mem L.current = s.m.mem L.current)
    (htcb : s'.m.mem (L.tcb j) = s.m.mem (L.tcb j)) : L.frameOf s' j = L.frameOf s j := by
  unfold Layout.frameOf
  rw [hcreated, hhandler, hcurrent, htcb]

/-- Frames whose words do not change still hold the contexts. -/
theorem frames_of_slots (h : Matches L s a) (hframe : L.frameOf s' j = L.frameOf s j)
    (hslots : ∀ frame, L.frameOf s j = some frame → ∀ k < 34,
      s'.m.mem (frame + k * L.bytes) = s.m.mem (frame + k * L.bytes)) :
    Option.Rel (L.Keeps s'.m.mem j) (L.frameOf s' j) (a.saved j) := by
  rw [hframe]
  cases hf : L.frameOf s j with
  | none =>
    have hj := h.frames j
    rw [hf] at hj
    generalize a.saved j = o at hj ⊢
    cases hj
    exact .none
  | some frame =>
    rcases h.keeps hf with ⟨c, hc, hkeeps⟩
    rw [hc]
    exact .some (hkeeps.congr (hslots frame hf))

/-- Memory outside of the frames is written, and perhaps the next task is decided. -/
theorem setMem (h : Matches L s a) {mem : ℕ → ℕ} {o : Option ι}
    (hcurrent : mem L.current = s.m.mem L.current) (hnext : mem L.next = L.tcbPtr o)
    (htcb : ∀ j, mem (L.tcb j) = s.m.mem (L.tcb j))
    (hslots : ∀ j frame, L.frameOf s j = some frame → ∀ k < 34,
      mem (frame + k * L.bytes) = s.m.mem (frame + k * L.bytes))
    (hcreated : ∀ j, o = some j → s.created j = true)
    (hdecided : a.running.isSome → o.isSome) :
    Matches L (s.setMem mem) { a with next := o } ∧
      L.FramesKept s (s.setMem mem) := by
  refine ⟨⟨hcurrent.trans h.current, hnext, ?_, hdecided, h.handler, h.trapped, ?_, h.live⟩, ?_⟩
  · rintro j (hj | hj)
    · exact h.created j (.inl hj)
    · exact hcreated j hj
  · intro j
    exact h.frames_of_slots (frameOf_congr rfl rfl hcurrent (htcb j)) (hslots j)
  · intro j frame hj hframe
    exact ⟨(htcb j).trans (frameOf_eq_some hj hframe).2, hslots j frame hframe⟩

theorem write [Fintype ι] (h : Matches L s a) {addr : ℕ} (v : ℕ) (haddr : ¬ L.Protected s addr) :
    Matches L (s.setMem (Function.update s.m.mem addr v)) a ∧
      L.FramesKept s (s.setMem (Function.update s.m.mem addr v)) := by
  simp only [Layout.Protected, not_or, not_exists] at haddr
  obtain ⟨hcurrent, hnext, htcb, hslots⟩ := haddr
  refine h.setMem (o := a.next) (Function.update_of_ne (Ne.symm hcurrent) ..) ?_ ?_ ?_ ?_ h.decided
  · rw [Function.update_of_ne (Ne.symm hnext), h.next]
  · intro j
    exact Function.update_of_ne (Ne.symm (htcb j)) ..
  · intro j frame hframe k hk
    refine Function.update_of_ne ?_ ..
    intro heq
    refine hslots j k ⟨hk, ?_⟩
    rw [hframe, Option.map_some, heq]
  · exact fun j hj => h.created j (.inr hj)

theorem decide (h : Matches L s a) (hj : s.created j = true) :
    Matches L (s.setMem (Function.update s.m.mem L.next (L.tcb j)))
        { a with next := some j } ∧
      L.FramesKept s (s.setMem (Function.update s.m.mem L.next (L.tcb j))) := by
  refine h.setMem (Function.update_of_ne L.next_ne_current.symm ..) (Function.update_self ..) ?_ ?_
    ?_ fun _ => rfl
  · intro i
    exact Function.update_of_ne (L.tcb_ne_next i) ..
  · intro i frame hframe k hk
    rcases h.keeps hframe with ⟨c, -, hin, -⟩
    exact Function.update_of_ne (hin.addr_ne .next k hk).symm ..
  · rintro i heq
    cases heq
    exact hj

theorem work [DecidableEq ι] (h : Matches L s a) (x : Reg → ℕ) (status pc : ℕ) :
    ∃ a', a.step L (.work x status pc) = some a' ∧
      Matches L { s with m := { s.m with x := x, status := status }, pc := pc } a' ∧
      L.FramesKept s { s with m := { s.m with x := x, status := status }, pc := pc } := by
  have hkept : L.FramesKept s { s with m := { s.m with x := x, status := status }, pc := pc } :=
    fun j frame hj hframe => ⟨(frameOf_eq_some hj hframe).2, fun _ _ => rfl⟩
  cases hin : a.inHandler with
  | true =>
    refine ⟨a, by rw [Tasks.step, if_pos hin], ?_, hkept⟩
    exact ⟨h.current, h.next, h.created, h.decided, h.handler, h.trapped, h.frames,
      fun hfalse => by simp [hin] at hfalse⟩
  | false =>
    refine ⟨{ a with live := ⟨x, status, pc⟩ }, by simp [Tasks.step, hin], ?_, hkept⟩
    exact ⟨h.current, h.next, h.created, h.decided, h.handler, h.trapped, h.frames,
      fun _ => ⟨fun _ _ => rfl, rfl, rfl⟩⟩

/-- What is written to the frame of one task, or to its control block, is not seen by another. -/
theorem of_own (h : Matches L s a) (s' : Sys ι) {frame : ℕ} (hin : L.InStack i frame)
    (hmem : ∀ addr, addr ≠ L.tcb i → (∀ k < 34, addr ≠ frame + k * L.bytes) →
      s'.m.mem addr = s.m.mem addr)
    (hcreated : ∀ j, j ≠ i → s'.created j = s.created j)
    (hhandler : ∀ j, j ≠ i → a.running = some j → s'.handler = s.handler) (hij : j ≠ i) :
    Option.Rel (L.Keeps s'.m.mem j) (L.frameOf s' j) (a.saved j) ∧
      s'.m.mem (L.tcb j) = s.m.mem (L.tcb j) ∧
      ∀ g, L.frameOf s j = some g → ∀ k < 34,
        s'.m.mem (g + k * L.bytes) = s.m.mem (g + k * L.bytes) := by
  have hcurrent : s'.m.mem L.current = s.m.mem L.current :=
    hmem _ (L.tcb_ne_current i).symm (hin.addr_ne .current)
  have htcb : s'.m.mem (L.tcb j) = s.m.mem (L.tcb j) :=
    hmem _ (L.tcb_injective.ne hij) (hin.addr_ne (.tcb j))
  have hslots : ∀ g, L.frameOf s j = some g → ∀ k < 34,
      s'.m.mem (g + k * L.bytes) = s.m.mem (g + k * L.bytes) := by
    intro g hg k hk
    rcases h.keeps hg with ⟨c, -, hin', -⟩
    exact hmem _ (hin'.addr_ne (.tcb i) k hk).symm (hin'.slot_ne hin hij hk)
  refine ⟨h.frames_of_slots ?_ hslots, htcb, hslots⟩
  by_cases hrun : a.running = some j
  · exact frameOf_congr (hcreated j hij) (hhandler j hij hrun) hcurrent htcb
  · have hj : s.m.mem L.current ≠ L.tcb j := fun heq => hrun (h.current_eq_tcb.mp heq)
    unfold Layout.frameOf
    rw [hcreated j hij, hcurrent, htcb, if_neg hj, if_neg hj]

theorem create [DecidableEq ι] (h : Matches L s a) (hj : s.created j = false) {frame : ℕ}
    {mem : ℕ → ℕ} {c : Ctx} (hkeeps : L.Keeps mem j frame c)
    (hmem : ∀ addr, (∀ k < 34, addr ≠ frame + k * L.bytes) → mem addr = s.m.mem addr) :
    Matches L { s.setMem (Function.update mem (L.tcb j) frame) with
        created := Function.update s.created j true }
      { a with saved := Function.update a.saved j (some c) } ∧
    L.FramesKept s { s.setMem (Function.update mem (L.tcb j) frame) with
      created := Function.update s.created j true } := by
  generalize hs' : ({ s.setMem (Function.update mem (L.tcb j) frame) with
    created := Function.update s.created j true } : Sys ι) = s'
  have hmem' : s'.m.mem = Function.update mem (L.tcb j) frame := by rw [← hs']; rfl
  have hcreated' : s'.created = Function.update s.created j true := by rw [← hs']
  have hold : ∀ addr, addr ≠ L.tcb j → (∀ k < 34, addr ≠ frame + k * L.bytes) →
      s'.m.mem addr = s.m.mem addr := by
    intro addr htcb haddr
    rw [hmem', Function.update_of_ne htcb, hmem addr haddr]
  have hown : ∀ i, i ≠ j → _ := fun i hi => h.of_own s' hkeeps.1 hold
    (fun k hk => by rw [hcreated', Function.update_of_ne hk]) (fun _ _ _ => by rw [← hs']; rfl) hi
  have hnot : ¬ (a.running = some j ∨ a.next = some j) := by
    intro hor
    simp [h.created j hor] at hj
  have hcurrent : s'.m.mem L.current = L.tcbPtr a.running :=
    (hold _ (L.tcb_ne_current j).symm (hkeeps.1.addr_ne .current)).trans h.current
  refine ⟨⟨hcurrent, ?_, ?_, h.decided, ?_, h.trapped, ?_, ?_⟩, ?_⟩
  · exact (hold _ (L.tcb_ne_next j).symm (hkeeps.1.addr_ne .next)).trans h.next
  · intro i hi
    have hij : i ≠ j := fun heq => hnot (heq ▸ hi)
    rw [hcreated', Function.update_of_ne hij]
    exact h.created i hi
  · rw [← hs']
    exact h.handler
  · intro i
    by_cases hi : i = j
    · subst hi
      have hframe : L.frameOf s' i = some frame := by
        have hne : s'.m.mem L.current ≠ L.tcb i := by
          rw [hcurrent, Ne, Layout.tcbPtr_eq_tcb]
          exact fun heq => hnot (.inl heq)
        unfold Layout.frameOf
        rw [if_neg hne, hcreated', Function.update_self, if_pos rfl, hmem', Function.update_self]
      rw [hframe]
      dsimp only
      rw [Function.update_self]
      refine .some (hkeeps.congr fun k hk => ?_)
      rw [hmem']
      exact Function.update_of_ne (hkeeps.1.addr_ne (.tcb i) k hk).symm ..
    · dsimp only
      rw [Function.update_of_ne hi]
      exact (hown i hi).1
  · rw [← hs']
    exact h.live
  · intro i g hi hg
    rcases frameOf_eq_some hi hg with ⟨hcreated, htcb⟩
    have hij : i ≠ j := by
      intro heq
      simp [← heq, hcreated] at hj
    exact ⟨(hown i hij).2.1.trans htcb, (hown i hij).2.2 g hg⟩

theorem setFrame [DecidableEq ι] (h : Matches L s a) (s' : Sys ι) (hi : a.running = some i) {frame : ℕ}
    {c : Ctx} (hhandler : s'.handler = some frame) (hcreated : s'.created = s.created)
    (hkeeps : L.Keeps s'.m.mem i frame c)
    (hmem : ∀ addr, (∀ k < 34, addr ≠ frame + k * L.bytes) → s'.m.mem addr = s.m.mem addr) :
    Matches L s' { a with inHandler := true, saved := Function.update a.saved i (some c) } ∧
      L.FramesKept s s' := by
  have hcurrent : s'.m.mem L.current = L.tcbPtr a.running :=
    (hmem _ (hkeeps.1.addr_ne .current)).trans h.current
  have hown : ∀ j, j ≠ i → _ := fun j hj => h.of_own s' hkeeps.1 (fun addr _ => hmem addr)
    (fun _ _ => by rw [hcreated]) (fun j hj hrun => absurd (Option.some.inj (hrun.symm.trans hi)) hj) hj
  refine ⟨⟨hcurrent, ?_, ?_, h.decided, ?_, ?_, ?_, ?_⟩, ?_⟩
  · exact (hmem _ (hkeeps.1.addr_ne .next)).trans h.next
  · rw [hcreated]
    exact h.created
  · rw [hhandler]
    rfl
  · intro _
    dsimp only
    rw [hi]
    rfl
  · intro j
    dsimp only
    by_cases hj : j = i
    · subst hj
      have hframe : L.frameOf s' j = some frame := by
        unfold Layout.frameOf
        rw [hcurrent, if_pos (Layout.tcbPtr_eq_tcb.mpr hi), hcreated, h.created j (.inl hi),
          if_pos rfl, hhandler]
      rw [hframe, Function.update_self]
      exact .some hkeeps
    · rw [Function.update_of_ne hj]
      exact (hown j hj).1
  · intro hfalse
    cases hfalse
  · intro j g hj hg
    have hji : j ≠ i := by
      rintro rfl
      exact hj (h.current_eq_tcb.mpr hi)
    exact ⟨(hown j hji).2.1.trans (frameOf_eq_some hj hg).2, (hown j hji).2.2 g hg⟩

theorem trap [DecidableEq ι] (h : Matches L s a) (status : ℕ) (hhandler : s.handler = none)
    (hi : a.running = some i) (hroom : L.stack i + 34 * L.bytes ≤ s.m.x sp)
    (htop : s.m.x sp ≤ L.top i) {m : Machine}
    (hm : m = exec L.bytes 0 (trapVector L.bytes) { s.m with status := status, epc := s.pc }) :
    ∃ a', a.step L (.trap status) = some a' ∧
      Matches L { s with m := m, handler := some (m.x a0) } a' ∧
      L.FramesKept s { s with m := m, handler := some (m.x a0) } := by
  have hin : a.inHandler = false := by rw [h.handler, hhandler]; rfl
  have hlt : s.m.x sp < 2 ^ (8 * L.bytes) := htop.trans_lt (L.stack_lt i)
  obtain ⟨frame, hframe⟩ : ∃ frame, frame + 34 * L.bytes = s.m.x sp :=
    ⟨s.m.x sp - 34 * L.bytes, by omega⟩
  have hstack : L.InStack i frame := ⟨by omega, by omega⟩
  have hvector := exec_trapVector (m := { s.m with status := status, epc := s.pc }) L.bytes_pos
    hframe hlt
  rw [← hm] at hvector
  rcases hvector with ⟨ha0, hholds, hmem⟩
  have hsame : Ctx.Same ⟨s.m.x, status, s.pc⟩ { a.live with status := status } :=
    ⟨(h.live hin).regs, rfl, (h.live hin).epc⟩
  refine ⟨{ a with
    inHandler := true
    saved := Function.update a.saved i (some { a.live with status := status }) },
    by simp [Tasks.step, hi], ?_⟩
  exact h.setFrame { s with m := m, handler := some (m.x a0) } hi (congrArg some ha0) rfl
    ⟨hstack, hholds.same hsame⟩ hmem

theorem retarget (h : Matches L s a) (hnext : a.next = some j) (hcreated : s'.created = s.created)
    (hframe : ∀ i, L.frameOf s' i = L.frameOf s i) (hhandler : s'.handler.isSome)
    (hcurrent : s'.m.mem L.current = L.tcb j) (hcell : s'.m.mem L.next = s.m.mem L.next)
    (htcb : ∀ i, s.m.mem L.current ≠ L.tcb i → s'.m.mem (L.tcb i) = s.m.mem (L.tcb i))
    (hmem : ∀ addr, (∀ c, L.addr c ≠ addr) → s'.m.mem addr = s.m.mem addr) :
    Matches L s' { a with running := some j, inHandler := true } ∧ L.FramesKept s s' := by
  have hslots : ∀ i frame, L.frameOf s i = some frame → ∀ k < 34,
      s'.m.mem (frame + k * L.bytes) = s.m.mem (frame + k * L.bytes) := by
    intro i frame hi k hk
    rcases h.keeps hi with ⟨c, -, hin, -⟩
    exact hmem _ fun cell => hin.addr_ne cell k hk
  refine ⟨⟨hcurrent, hcell.trans h.next, ?_, ?_, ?_, ?_, ?_, ?_⟩, ?_⟩
  · rintro i (hi | hi)
    · rw [hcreated]
      exact h.created i (.inr (hnext.trans hi))
    · rw [hcreated]
      exact h.created i (.inr hi)
  · intro _
    dsimp only
    rw [hnext]
    rfl
  · exact hhandler.symm
  · exact fun _ => rfl
  · exact fun i => h.frames_of_slots (hframe i) (hslots i)
  · intro hfalse
    cases hfalse
  · intro i frame hi hf
    exact ⟨(htcb i hi).trans (frameOf_eq_some hi hf).2, hslots i frame hf⟩

theorem switch (h : Matches L s a) (s' : Sys ι) (hi : a.running = some i) (hj : a.next = some j)
    (hhandler : s.handler = some (s.m.x sp)) {x : Reg → ℕ}
    (hx : x sp = if s.m.mem L.current = s.m.mem L.next then s.m.x sp
      else switchMem L.current L.next (s.m.x sp) s.m.mem (s.m.mem L.next))
    (hmachine : s'.m.mem = switchMem L.current L.next (s.m.x sp) s.m.mem)
    (hcreated : s'.created = s.created) (hhandler' : s'.handler = some (x sp)) :
    Matches L s' { a with running := some j, inHandler := true } ∧ L.FramesKept s s' := by
  have hcurrent : s.m.mem L.current = L.tcb i := h.current_eq_tcb.mpr hi
  have hnext : s.m.mem L.next = L.tcb j := by rw [h.next, hj]; rfl
  have hsome : s'.handler.isSome := by rw [hhandler']; rfl
  unfold switchMem at hx hmachine
  rw [hcurrent, hnext] at hx hmachine
  by_cases hij : L.tcb i = L.tcb j
  · rw [if_pos hij] at hx hmachine
    have hframe : ∀ k, L.frameOf s' k = L.frameOf s k := by
      intro k
      apply frameOf_congr
      · rw [hcreated]
      · rw [hhandler', hx, hhandler]
      · rw [hmachine]
      · rw [hmachine]
    refine h.retarget hj hcreated hframe hsome ?_ ?_ ?_ ?_
    · rw [hmachine, hcurrent, hij]
    · rw [hmachine]
    · intro k _
      rw [hmachine]
    · intro addr _
      rw [hmachine]
  · rw [if_neg hij] at hx hmachine
    rw [if_neg hij, Function.update_of_ne (L.tcb_ne_current j), Function.update_of_ne (Ne.symm hij)]
      at hx
    have htcb : ∀ k, k ≠ i → s'.m.mem (L.tcb k) = s.m.mem (L.tcb k) := by
      intro k hk
      rw [hmachine, Function.update_of_ne (L.tcb_ne_current k),
        Function.update_of_ne (L.tcb_injective.ne hk)]
    have hcurrent' : s'.m.mem L.current = L.tcb j := by rw [hmachine, Function.update_self]
    have hframe : ∀ k, L.frameOf s' k = L.frameOf s k := by
      intro k
      unfold Layout.frameOf
      rw [hcreated, hcurrent, hcurrent', hhandler', hhandler]
      by_cases hkj : L.tcb j = L.tcb k
      · have hik : L.tcb i ≠ L.tcb k := hkj ▸ hij
        rw [if_pos hkj, if_neg hik, hx, hkj]
      · rw [if_neg hkj]
        by_cases hki : L.tcb i = L.tcb k
        · rw [if_pos hki, ← hki, hmachine, Function.update_of_ne (L.tcb_ne_current i),
            Function.update_self]
        · rw [if_neg hki, htcb k fun heq => hki (heq ▸ rfl)]
    refine h.retarget hj hcreated hframe hsome hcurrent' ?_ ?_ ?_
    · rw [hmachine, Function.update_of_ne L.next_ne_current,
        Function.update_of_ne (L.tcb_ne_next i).symm]
    · intro k hk
      exact htcb k fun heq => hk (heq ▸ hcurrent)
    · intro addr haddr
      have h1 : addr ≠ L.current := (haddr .current).symm
      have h2 : addr ≠ L.tcb i := (haddr (.tcb i)).symm
      rw [hmachine, Function.update_of_ne h1, Function.update_of_ne h2]

/-- The return from a trap resumes the running task. -/
theorem exit [DecidableEq ι] (h : Matches L s a) (hj : a.running = some j)
    (hhandler : s.handler = some (s.m.x sp)) :
    ∃ a', a.resume j = some a' ∧
      Matches L (s.returned (exec L.bytes 0 (trapExit L.bytes) s.m)) a' ∧
      (exec L.bytes 0 (trapExit L.bytes) s.m).mem = s.m.mem := by
  have hframe : L.frameOf s j = some (s.m.x sp) := by
    unfold Layout.frameOf
    rw [if_pos (h.created j (.inl hj)), if_pos (h.current_eq_tcb.mpr hj), hhandler]
  rcases h.keeps hframe with ⟨c, hc, hkeeps⟩
  rcases exec_trapExit hkeeps.2 hkeeps.sp_lt with ⟨hmem, hsame⟩
  refine ⟨{ a with
      running := some j
      inHandler := false
      live := c
      saved := Function.update a.saved j none }, by rw [Tasks.resume, hc]; rfl,
    ⟨?_, ?_, ?_, ?_, rfl, ?_, ?_, fun _ => hsame⟩, hmem⟩
  · rw [Sys.returned, hmem, h.current, hj]
  · rw [Sys.returned, hmem, h.next]
  · rw [← hj]
    exact h.created
  · rw [← hj]
    exact h.decided
  · intro hfalse
    cases hfalse
  · intro i
    dsimp only
    by_cases hi : i = j
    · subst hi
      have hnone : L.frameOf (s.returned (exec L.bytes 0 (trapExit L.bytes) s.m)) i = none := by
        unfold Layout.frameOf
        rw [Sys.returned, hmem, if_pos (h.current_eq_tcb.mpr hj), ite_self]
      rw [hnone, Function.update_self]
      exact .none
    · rw [Function.update_of_ne hi]
      refine h.frames_of_slots ?_ fun _ _ _ _ => by rw [Sys.returned, hmem]
      have hne : s.m.mem L.current ≠ L.tcb i := by
        rw [Ne, h.current_eq_tcb, hj]
        exact fun heq => hi (Option.some.inj heq).symm
      unfold Layout.frameOf
      rw [Sys.returned, hmem, if_neg hne, if_neg hne]

theorem framesKept_trans {s'' : Sys ι} (h : L.FramesKept s s') (h' : L.FramesKept s' s'')
    (hcreated : s'.created = s.created) (hcurrent : s'.m.mem L.current = s.m.mem L.current) :
    L.FramesKept s s'' := by
  intro j frame hj hframe
  rcases h j frame hj hframe with ⟨htcb, hslots⟩
  have hj' : s'.m.mem L.current ≠ L.tcb j := by rwa [hcurrent]
  have hframe' : L.frameOf s' j = some frame := by
    unfold Layout.frameOf
    rw [hcreated, if_pos (frameOf_eq_some hj hframe).1, if_neg hj', htcb]
  rcases h' j frame hj' hframe' with ⟨htcb', hslots'⟩
  exact ⟨htcb', fun k hk => (hslots' k hk).trans (hslots k hk)⟩

theorem leave [DecidableEq ι] (h : Matches L s a) {t : Trap} {ret : ℕ}
    (hhandler : s.handler = some (s.m.x sp)) {mem : ℕ → ℕ}
    (hmem : handleFrame L.bytes L.code t ret (s.m.x sp) s.m.mem = some mem) :
    ∃ a', a.step L (.leave t ret) = some a' ∧
      Matches L (s.returned (exec L.bytes 0 (trapSwitch L.current L.next ++ trapExit L.bytes)
        { s.m with mem := mem })) a' ∧
      L.FramesKept s (s.returned (exec L.bytes 0
        (trapSwitch L.current L.next ++ trapExit L.bytes) { s.m with mem := mem })) := by
  have hin : a.inHandler = true := by rw [h.handler, hhandler]; rfl
  obtain ⟨i, hi⟩ := Option.isSome_iff_exists.mp (h.trapped hin)
  obtain ⟨j, hj⟩ := Option.isSome_iff_exists.mp (h.decided (h.trapped hin))
  have hframe : L.frameOf s i = some (s.m.x sp) := by
    unfold Layout.frameOf
    rw [if_pos (h.created i (.inl hi)), if_pos (h.current_eq_tcb.mpr hi), hhandler]
  rcases h.keeps hframe with ⟨c, hc, hkeeps⟩
  rcases handleFrame_holds L.bytes_pos hkeeps.2 hmem with ⟨c', hc', hholds, hrest⟩
  -- the handler changes the frame of the task that trapped
  rcases h.setFrame (s.setMem mem) hi hhandler rfl ⟨hkeeps.1, hholds⟩ hrest with
    ⟨hhandled, hkept⟩
  -- the next task becomes the running one
  obtain ⟨x, hexec, hx⟩ := exec_trapSwitch (trapExit L.bytes) (s.setMem mem).m
    L.current_lt L.next_lt (hhandled.current ▸ Layout.tcbPtr_lt) (hhandled.next ▸ Layout.tcbPtr_lt)
  rcases hhandled.switch { s.setMem mem with
      m := { s.m with x := x, mem := switchMem L.current L.next (s.m.x sp) mem }
      handler := some (x sp) } hi hj hhandler hx rfl rfl rfl with ⟨hswitched, hkept'⟩
  -- and is resumed
  obtain ⟨a', ha', hmatches, hmem'⟩ := hswitched.exit rfl rfl
  have hreturned : s.returned (exec L.bytes 0 (trapSwitch L.current L.next ++ trapExit L.bytes)
      { s.m with mem := mem }) = s.returned (exec L.bytes 0 (trapExit L.bytes)
        { s.m with x := x, mem := switchMem L.current L.next (s.m.x sp) mem }) :=
    congrArg s.returned hexec
  rw [hreturned]
  refine ⟨a', ?_, hmatches, ?_⟩
  · simp only [Tasks.step, hi, hj, hc, hc', Option.bind_eq_bind, Option.bind_some]
    simpa only [Tasks.resume, hj] using ha'
  · have hkept'' := framesKept_trans hkept hkept' rfl
      (hhandled.current.trans h.current.symm)
    intro k frame hk hf
    dsimp only [Sys.returned]
    rw [hmem']
    exact hkept'' k frame hk hf

theorem start [DecidableEq ι] (h : Matches L s a)
    (hcurrent : s.m.mem L.current = 0) (hnext : s.m.mem L.next ≠ 0) :
    ∃ a', a.step L .start = some a' ∧
      Matches L (s.returned (exec L.bytes 0
        (loadFirstTaskAndStart L.current L.next ++ trapExit L.bytes) s.m)) a' ∧
      L.FramesKept s (s.returned (exec L.bytes 0
        (loadFirstTaskAndStart L.current L.next ++ trapExit L.bytes) s.m)) := by
  have hsome : ∃ j, a.next = some j := by
    rw [← Option.isSome_iff_exists, Option.isSome_iff_ne_none]
    intro hnone
    rw [h.next, hnone] at hnext
    exact hnext rfl
  obtain ⟨j, hj⟩ := hsome
  have htcb : s.m.mem L.next = L.tcb j := by rw [h.next, hj]; rfl
  have hidle : ∀ i, s.m.mem L.current ≠ L.tcb i := by
    intro i
    rw [hcurrent]
    exact (L.tcb_ne_zero i).symm
  obtain ⟨x, hexec, hx⟩ := exec_loadFirstTaskAndStart (trapExit L.bytes) s.m
    L.current_lt L.next_lt (htcb ▸ L.addr_lt (.tcb j))
  rw [htcb, Function.update_of_ne (L.tcb_ne_current j)] at hx
  rw [htcb] at hexec
  generalize hs' : ({ s with
    m := { s.m with x := x, mem := Function.update s.m.mem L.current (L.tcb j) }
    handler := some (x sp) } : Sys ι) = s'
  have hmem : s'.m.mem = Function.update s.m.mem L.current (L.tcb j) := by rw [← hs']
  have htcbs : ∀ i, s'.m.mem (L.tcb i) = s.m.mem (L.tcb i) := by
    intro i
    rw [hmem, Function.update_of_ne (L.tcb_ne_current i)]
  have hcurrent' : s'.m.mem L.current = L.tcb j := by rw [hmem, Function.update_self]
  have hframe : ∀ i, L.frameOf s' i = L.frameOf s i := by
    intro i
    unfold Layout.frameOf
    rw [hcurrent', htcbs, if_neg (hidle i)]
    by_cases hji : L.tcb j = L.tcb i
    · rw [if_pos hji, ← hs', hx, hji]
    · rw [if_neg hji, ← hs']
  rcases h.retarget hj (by rw [← hs']) hframe (by rw [← hs']; rfl) hcurrent'
    (by rw [hmem, Function.update_of_ne L.next_ne_current]) (fun i _ => htcbs i)
    (fun addr haddr => by rw [hmem]; exact Function.update_of_ne (haddr .current).symm ..)
    with ⟨hmatches, hkept⟩
  obtain ⟨a', ha', hreturned, hmem'⟩ := hmatches.exit rfl (by rw [← hs'])
  rw [hexec]
  subst hs'
  refine ⟨a', ?_, hreturned, ?_⟩
  · rw [Tasks.step, hj, Option.bind_some]
    exact ha'
  · intro i frame hi hf
    dsimp only [Sys.returned]
    rw [hmem']
    exact hkept i frame hi hf

/-- Every step of the hart is a step of the tasks, and leaves the frames of the others alone. -/
theorem step [Fintype ι] [DecidableEq ι] (h : Matches L s a) (act : Action ι)
    (hstep : L.step s act = some s') :
    ∃ a', a.step L act = some a' ∧ Matches L s' a' ∧ L.FramesKept s s' := by
  cases act with
  | work x status pc =>
    cases hstep
    exact h.work x status pc
  | write addr v =>
    simp only [Layout.step, Option.ite_none_left_eq_some] at hstep
    obtain ⟨haddr, hs'⟩ := hstep
    cases hs'
    exact ⟨a, rfl, h.write v haddr⟩
  | decide j =>
    simp only [Layout.step, Option.ite_none_right_eq_some] at hstep
    obtain ⟨hj, hs'⟩ := hstep
    cases hs'
    exact ⟨_, rfl, h.decide hj⟩
  | create j =>
    simp only [Layout.step, Option.ite_none_left_eq_some] at hstep
    obtain ⟨hj, hs'⟩ := hstep
    cases hs'
    rcases L.keeps_initTaskStack j s.m.mem with ⟨hkeeps, hmem⟩
    exact ⟨_, rfl, h.create (Bool.eq_false_iff.mpr hj) hkeeps hmem⟩
  | trap status =>
    simp only [Layout.step, Option.ite_none_right_eq_some] at hstep
    obtain ⟨⟨hhandler, -, i, hi, hroom, htop⟩, hs'⟩ := hstep
    cases hs'
    exact h.trap status hhandler (h.current_eq_tcb.mp hi) hroom htop rfl
  | leave t ret =>
    simp only [Layout.step, Option.ite_none_right_eq_some, Option.map_eq_some_iff] at hstep
    obtain ⟨hhandler, mem, hmem, hs'⟩ := hstep
    cases hs'
    exact h.leave hhandler hmem
  | start =>
    simp only [Layout.step, Option.ite_none_right_eq_some] at hstep
    obtain ⟨⟨-, hcurrent, hnext⟩, hs'⟩ := hstep
    cases hs'
    exact h.start hcurrent hnext

theorem boot (L : Layout ι) (m : Machine) (pc : ℕ) : Matches L (L.boot m pc) (.boot m pc) where
  current := by
    simp only [Layout.boot]
    rw [Function.update_of_ne L.next_ne_current.symm, Function.update_self]
    rfl
  next := Function.update_self ..
  created := by simp [Tasks.boot]
  decided := by simp [Tasks.boot]
  handler := rfl
  trapped := by simp [Tasks.boot]
  frames _ := .none
  live _ := ⟨fun _ _ => rfl, rfl, rfl⟩

end Matches

/-- In every run from boot, the hart does what the tasks do with contexts of their own: a task that
is resumed continues with the context it trapped with, as the handler left it, and a new task
starts at its entry. No step changes the frame of a task that is not running. -/
theorem context_switch_refines [Fintype ι] [DecidableEq ι] (L : Layout ι) (m : Machine) (pc : ℕ)
    (acts : List (Action ι)) (s : Sys ι) (hrun : Lib.run L.step (L.boot m pc) acts = some s) :
    (∃ a, Lib.run (Tasks.step L) (.boot m pc) acts = some a ∧ Matches L s a) ∧
      ∀ act s', L.step s act = some s' → L.FramesKept s s' := by
  have hsim : ∃ a, Lib.run (Tasks.step L) (.boot m pc) acts = some a ∧ Matches L s a := by
    refine Lib.run_simulates ?_ (Matches.boot L m pc) hrun
    intro s a act s' h hstep
    obtain ⟨a', ha', h', -⟩ := h.step act hstep
    exact ⟨a', ha', h'⟩
  refine ⟨hsim, ?_⟩
  intro act s' hstep
  obtain ⟨a, -, h⟩ := hsim
  obtain ⟨a', -, -, hkept⟩ := h.step act hstep
  exact hkept

def twoTasksAddr : Cell (Fin 2) → ℕ
  | .current => 16
  | .next => 24
  | .tcb i => 32 + 8 * i

theorem twoTasksAddr_injective : Function.Injective twoTasksAddr := by
  rintro (_ | _ | i) (_ | _ | j) h <;> simp only [twoTasksAddr] at h
  all_goals first | rfl | omega | exact congrArg Cell.tcb (Fin.ext (by omega))

theorem twoTasksAddr_le (c : Cell (Fin 2)) : twoTasksAddr c ≤ 40 := by
  rcases c with _ | _ | i <;> simp only [twoTasksAddr] <;> omega

theorem twoTasksAddr_aligned (c : Cell (Fin 2)) : twoTasksAddr c % 8 = 0 := by
  rcases c with _ | _ | i
  · rfl
  · rfl
  · simp only [twoTasksAddr]
    omega

def twoTasks : Layout (Fin 2) where
  bytes := 8
  mode := .machine
  code _ := 0x9002
  addr := twoTasksAddr
  stack i := 4096 + 4096 * i
  len _ := 64
  entry i := 1024 + 512 * i
  bytes_eq := .inr rfl
  addr_injective := twoTasksAddr_injective
  addr_lt c := (twoTasksAddr_le c).trans_lt (by decide)
  addr_aligned := twoTasksAddr_aligned
  tcb_ne_zero i := by simp [twoTasksAddr]
  addr_outside c i := by
    have := twoTasksAddr_le c
    omega
  stack_aligned i := by omega
  stack_lt i := by omega
  disjoint i j hij := by omega
  room i := by omega

/-- The first task yields to the second, which is interrupted by the timer in favour of the
first. -/
def yieldAndReturn (i j : Fin 2) : List (Action (Fin 2)) :=
  [.create i, .create j, .decide i, .start, .work (fun _ => 4400) 0x1888 1030, .trap 0x1880,
    .decide j, .leave ⟨false, true, false, false⟩ 0, .work (fun _ => 8504) 0x1888 1600,
    .write 8400 7, .trap 0x1880, .decide i, .leave ⟨true, false, false, false⟩ 0]

theorem yieldAndReturn_refines :
    ∃ s, Lib.run twoTasks.step (twoTasks.boot ⟨fun _ => 0, fun _ => 0, 0, 0⟩ 0) (yieldAndReturn 0 1) =
        some s ∧
      ((∃ a, Lib.run (Tasks.step twoTasks) (.boot ⟨fun _ => 0, fun _ => 0, 0, 0⟩ 0)
          (yieldAndReturn 0 1) = some a ∧ Matches twoTasks s a) ∧
        ∀ act s', twoTasks.step s act = some s' → twoTasks.FramesKept s s') := by
  have hsome : (Lib.run twoTasks.step (twoTasks.boot ⟨fun _ => 0, fun _ => 0, 0, 0⟩ 0)
      (yieldAndReturn 0 1)).isSome = true := by decide +kernel
  obtain ⟨s, hs⟩ := Option.isSome_iff_exists.mp hsome
  exact ⟨s, hs, context_switch_refines twoTasks _ _ _ s hs⟩

end OpenIon.Arch.Riscv
