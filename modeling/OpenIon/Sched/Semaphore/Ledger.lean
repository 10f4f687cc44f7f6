import OpenIon.Sched.Parked
import OpenIon.Sched.Semaphore.Machine

/-! # The semaphore without the scheduler

A `Ledger` keeps what a semaphore is about: the permits, the waiting tasks in
order of arrival, and how far every `release_many` has come. The steps of the
machine are moves of the ledger: a waiter at the head of the queue is always
blocked, so it is always woken.
-/
namespace OpenIon.Sched.Semaphore
open Lib

structure Ledger where
  permits : ℕ
  waiting : List TaskPtr
  pc : TaskPtr → Pc
  granted : ℕ
  released : ℕ

def World.ledger {N : ℕ} (w : World N) (l : List TaskPtr) : Ledger :=
  ⟨w.permits, l, w.pc, w.granted, w.released⟩

/-- The moves of the ledger. The tasks have numbers below the size of the pool. -/
inductive Move (cfg : Config) : Ledger → Act → Ledger → Prop where
  | stutter (a : Ledger) (act : Act) : Move cfg a act a
  | acquire (a : Ledger) (act : Act) (permit : 0 < a.permits) :
      Move cfg a act { a with permits := a.permits - 1, granted := a.granted + 1 }
  | enqueue (a : Ledger) (c : TaskPtr) (none : a.permits = 0) :
      Move cfg a .wait { a with waiting := a.waiting ++ [c] }
  | start (a : Ledger) (c : TaskPtr) (count : ℕ) (task : c < cfg.taskCap) (idle : a.pc c = .idle)
      (pos : 0 < count) :
      Move cfg a (.releaseMany count) { a with
        pc := Function.update a.pc c (.releasing count 0)
        released := a.released + count }
  | handOver (a : Ledger) (c : TaskPtr) (count woke : ℕ) (p : TaskPtr) (rest : List TaskPtr)
      (task : c < cfg.taskCap) (pc : a.pc c = .releasing count woke)
      (head : a.waiting = p :: rest) :
      Move cfg a .resume { a with
        waiting := rest
        pc := Function.update a.pc c
          (if woke + 1 < count then .releasing count (woke + 1) else .idle)
        granted := a.granted + 1 }
  | miss (a : Ledger) (c : TaskPtr) (count woke : ℕ) (task : c < cfg.taskCap)
      (pc : a.pc c = .releasing count woke) (empty : a.waiting = []) :
      Move cfg a .resume { a with
        pc := Function.update a.pc c (.addingPermits (count - woke)) }
  | add (a : Ledger) (c : TaskPtr) (permits : ℕ) (task : c < cfg.taskCap)
      (pc : a.pc c = .addingPermits permits) :
      Move cfg a .resume { a with
        permits := World.saturatingAdd cfg a.permits permits
        pc := Function.update a.pc c .idle }

variable {N : ℕ} {cfg : Config} {w w' : World N} {l : List TaskPtr} {c : TaskPtr} {act : Act}

theorem Waiting.parked (h : Waiting cfg w l) : Parked cfg w.sched w.waiters l :=
  ⟨h.placed, h.holds, h.blocked⟩

theorem Waiting.caller_lt (h : Waiting cfg w l) (hc : w.sched.caller = some c) : c < cfg.taskCap :=
  h.parked.current_lt (State.caller_eq_some.mp hc).1

theorem Waiting.setPc (h : Waiting cfg w l) {pc : Pc} (hc : c < cfg.taskCap)
    (hpc : pc ≠ .leavingQueue) : Waiting cfg (w.setPc c pc) l := by
  refine ⟨h.placed, h.holds, h.blocked, ?_, ?_⟩
  · intro p
    by_cases hp : p = c
    · simpa [World.setPc, hp] using hpc
    · simpa [World.setPc, hp] using h.stays p
  · intro p hne
    by_cases hp : p = c
    · exact hp ▸ hc
    · exact h.tasks p (by simpa [World.setPc, hp] using hne)

theorem Waiting.tryAcquire (h : Waiting cfg w l) :
    Waiting cfg w.tryAcquire l ∧ Move cfg (w.ledger l) act (w.tryAcquire.ledger l) := by
  rw [World.tryAcquire]
  split
  · exact ⟨⟨h.placed, h.holds, h.blocked, h.stays, h.tasks⟩, .acquire _ _ ‹_›⟩
  · exact ⟨h, .stutter _ _⟩

theorem Waiting.wait (h : Waiting cfg w l) (hc : w.sched.caller = some c) :
    ∃ l', Waiting cfg (w.wait c) l' ∧ Move cfg (w.ledger l) .wait ((w.wait c).ledger l') := by
  rcases State.caller_eq_some.mp hc with ⟨hcur, hr⟩
  rw [World.wait]
  split_ifs with hpermits
  · exact ⟨l, ⟨h.placed, h.holds, h.blocked, h.stays, h.tasks⟩, .acquire _ _ hpermits⟩
  · have hzero : w.permits = 0 := by omega
    rcases h.parked.enqueueCurrent hcur hr with hfull | ⟨s, q, hpush, hblock, hnew⟩
    · simp only [hfull]
      exact ⟨l, h, .stutter _ _⟩
    · simp only [hpush, hblock]
      exact ⟨l ++ [c], ⟨hnew.placed, hnew.holds, hnew.blocked, h.stays, h.tasks⟩,
        .enqueue _ c hzero⟩

theorem Waiting.releaseMany (h : Waiting cfg w l) (hc : w.sched.caller = some c) (hpc : w.pc c = .idle)
    (count : ℕ) :
    Waiting cfg (w.releaseMany c count) l ∧
      Move cfg (w.ledger l) (.releaseMany count) ((w.releaseMany c count).ledger l) := by
  have hreleased : Waiting cfg { w with released := w.released + count } l :=
    ⟨h.placed, h.holds, h.blocked, h.stays, h.tasks⟩
  rw [World.releaseMany]
  split_ifs with hzero
  · exact ⟨h, .stutter _ _⟩
  · refine ⟨hreleased.setPc (h.caller_lt hc) ?_, .start _ c count (h.caller_lt hc) hpc (by omega)⟩
    simp

/-- Every section of a call in progress is a move. -/
theorem Waiting.resume (h : Waiting cfg w l) (hcpu : cfg.maxCpus = 1) (hc : w.sched.caller = some c)
    (hpc : w.pc c ≠ .idle) :
    ∃ l', Waiting cfg (w.resume cfg c) l' ∧
      Move cfg (w.ledger l) .resume ((w.resume cfg c).ledger l') := by
  have hlt := h.caller_lt hc
  cases hrel : w.pc c with
  | idle => exact absurd hrel hpc
  | releasing count woke =>
    cases l with
    | nil =>
      simp only [World.resume, hrel, World.releaseTurn, h.parked.wakeOne_nil]
      refine ⟨[], h.setPc hlt ?_, .miss _ c count woke hlt hrel rfl⟩
      simp
    | cons p l =>
      rcases h.parked.wakeOne_cons hcpu with ⟨s, q, hwake, hnew⟩
      have hwoken : Waiting cfg
          { w with sched := s, waiters := q, granted := w.granted + 1 } l :=
        ⟨hnew.placed, hnew.holds, hnew.blocked, h.stays, h.tasks⟩
      simp only [World.resume, hrel, World.releaseTurn, hwake]
      refine ⟨l, hwoken.setPc hlt ?_, .handOver _ c count woke p l hlt hrel rfl⟩
      split_ifs <;> simp
  | addingPermits permits =>
    have hadded : Waiting cfg
        { w with permits := World.saturatingAdd cfg w.permits permits } l :=
      ⟨h.placed, h.holds, h.blocked, h.stays, h.tasks⟩
    simp only [World.resume, hrel]
    refine ⟨l, hadded.setPc hlt ?_, .add _ c permits hlt hrel⟩
    simp
  | leavingQueue => exact absurd hrel (h.stays c)

theorem Waiting.sched {op : Op} {s : State} (h : Waiting cfg w l) (hcpu : cfg.maxCpus = 1)
    (hop : w.admits op = true) (hs : Riscv.step cfg w.sched op = some s) :
    Waiting cfg { w with sched := s } l := by
  have hop' : ∀ p ∈ l, op ≠ .wake (some p) := by
    rintro p hp rfl
    simp [World.admits, h.holds.contains_iff.mpr hp] at hop
  have hnew := h.parked.sched hcpu hop' hs
  exact ⟨hnew.placed, hnew.holds, hnew.blocked, h.stays, h.tasks⟩

/-- The machine refines the ledger. -/
theorem Waiting.step (h : Waiting cfg w l) (hcpu : cfg.maxCpus = 1)
    (hstep : step cfg w act = some w') :
    ∃ l', Waiting cfg w' l' ∧ Move cfg (w.ledger l) act (w'.ledger l') := by
  cases act with
  | tryAcquire =>
    rcases Option.map_eq_some_iff.mp hstep with ⟨c, -, rfl⟩
    exact ⟨l, h.tryAcquire⟩
  | wait =>
    rcases Option.map_eq_some_iff.mp hstep with ⟨c, hc, rfl⟩
    exact h.wait (Option.filter_eq_some_iff.mp hc).1
  | releaseMany count =>
    rcases Option.map_eq_some_iff.mp hstep with ⟨c, hc, rfl⟩
    rcases Option.filter_eq_some_iff.mp hc with ⟨hc, hpc⟩
    exact ⟨l, h.releaseMany hc (by simpa using hpc) count⟩
  | resume =>
    rcases Option.map_eq_some_iff.mp hstep with ⟨c, hc, rfl⟩
    rcases Option.filter_eq_some_iff.mp hc with ⟨hc, hpc⟩
    exact h.resume hcpu hc (by simpa using hpc)
  | sched op =>
    simp only [Semaphore.step, Option.ite_none_right_eq_some] at hstep
    rcases Option.map_eq_some_iff.mp hstep.2 with ⟨s, hs, rfl⟩
    exact ⟨l, h.sched hcpu hstep.1 hs, .stutter _ _⟩

theorem Waiting.new {idle root : TaskArgs} {uninit : Heap} {s : State} (hcpu : cfg.maxCpus = 1)
    (hs : initSystemTasks cfg idle root (init cfg uninit) = some s) (permits : ℕ) :
    Waiting cfg (World.new N s permits) [] := by
  have hnew := Parked.new (N := N) hcpu hs
  exact ⟨hnew.placed, hnew.holds, hnew.blocked, (by rintro _ ⟨⟩), fun _ hne => absurd rfl hne⟩

end OpenIon.Sched.Semaphore
