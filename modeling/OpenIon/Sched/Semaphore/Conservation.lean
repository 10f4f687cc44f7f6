import OpenIon.Sched.Semaphore.Ledger
import OpenIon.Lib.Sum

/-! # Conservation of permits

A permit that is released is handed to a waiter, stored, or still held by the
`release_many` that released it. The sum of what the tasks hold back, the stored
permits and the grants is therefore what was there at the start and released
since.
-/
namespace OpenIon.Sched.Semaphore
open Lib

variable {N : ℕ} {cfg : Config} {w w' : World N} {l : List TaskPtr} {act : Act} {a b : Ledger}

/-- The permits that a task has released but neither handed over nor stored. -/
def Pc.outstanding : Pc → ℕ
  | releasing count woke => count - woke
  | addingPermits permits => permits
  | _ => 0

def outstanding (cfg : Config) (pc : TaskPtr → Pc) : ℕ :=
  ∑ p ∈ Finset.range cfg.taskCap, (pc p).outstanding

theorem outstanding_update {c : TaskPtr} (hc : c < cfg.taskCap) (pc : TaskPtr → Pc) (x : Pc) :
    outstanding cfg (Function.update pc c x) + (pc c).outstanding =
      outstanding cfg pc + x.outstanding := by
  exact sum_range_update Pc.outstanding hc pc x

/-- The balance of the ledger, as long as the permits cannot overflow. -/
structure Ledger.Balanced (cfg : Config) (start : ℕ) (a : Ledger) : Prop where
  woke : ∀ c count woke, a.pc c = .releasing count woke → woke < count
  sum : start + a.released ≤ 2 ^ cfg.usizeBits - 1 →
    a.granted + a.permits + outstanding cfg a.pc = start + a.released

/-- One caller goes on, to a place where it has woken fewer tasks than it should if it still
releases. -/
theorem Ledger.Balanced.woke_update {start : ℕ} (h : a.Balanced cfg start) (c : TaskPtr) {x : Pc}
    (hx : ∀ count woke, x = .releasing count woke → woke < count) :
    ∀ p count woke, Function.update a.pc c x p = .releasing count woke → woke < count := by
  intro p count woke hp
  by_cases hpc : p = c
  · rw [hpc, Function.update_self] at hp
    exact hx count woke hp
  · rw [Function.update_of_ne hpc] at hp
    exact h.woke p count woke hp

theorem Ledger.Balanced.move {start : ℕ} (h : a.Balanced cfg start) (hmove : Move cfg a act b) :
    b.Balanced cfg start := by
  cases hmove with
  | stutter => exact h
  | acquire _ hpermit =>
    refine ⟨h.woke, fun hmax => ?_⟩
    have hsum := h.sum hmax
    simp only
    omega
  | enqueue c hnone => exact ⟨h.woke, h.sum⟩
  | start c count hc hidle hpos =>
    constructor
    · refine h.woke_update c fun n k hx => ?_
      rw [Pc.releasing.injEq] at hx
      omega
    · intro hmax
      simp only at hmax ⊢
      have hsum := h.sum (by omega)
      have hupd := outstanding_update hc a.pc (.releasing count 0)
      simp only [hidle, Pc.outstanding] at hupd
      omega
  | handOver c count woke q rest hc hpc hhead =>
    have hlt := h.woke c count woke hpc
    constructor
    · refine h.woke_update c fun n k hx => ?_
      split_ifs at hx with hmore
      rw [Pc.releasing.injEq] at hx
      omega
    · intro hmax
      have hsum := h.sum hmax
      have hupd := outstanding_update hc a.pc
        (if woke + 1 < count then .releasing count (woke + 1) else .idle)
      have hnext : (if woke + 1 < count then Pc.releasing count (woke + 1) else .idle).outstanding =
          count - (woke + 1) := by
        split_ifs with hmore
        · rfl
        · simp only [Pc.outstanding]
          omega
      rw [hnext, hpc] at hupd
      simp only [Pc.outstanding] at hupd ⊢
      omega
  | miss c count woke hc hpc hempty =>
    constructor
    · refine h.woke_update c fun n k hx => ?_
      cases hx
    · intro hmax
      have hsum := h.sum hmax
      have hupd := outstanding_update hc a.pc (.addingPermits (count - woke))
      rw [hpc] at hupd
      simp only [Pc.outstanding] at hupd ⊢
      omega
  | add c permits hc hpc =>
    constructor
    · refine h.woke_update c fun n k hx => ?_
      cases hx
    · intro hmax
      change start + a.released ≤ 2 ^ cfg.usizeBits - 1 at hmax
      have hsum := h.sum hmax
      have hupd := outstanding_update hc a.pc .idle
      rw [hpc] at hupd
      simp only [Pc.outstanding] at hupd
      -- what is stored is part of the sum, so the addition does not saturate
      have hadd : World.saturatingAdd cfg a.permits permits = a.permits + permits := by
        rw [World.saturatingAdd]
        apply Nat.min_eq_left
        omega
      simp only [hadd]
      omega

theorem Pc.outstanding_of_not_inRelease {pc : Pc} (h : pc.inRelease = false) :
    pc.outstanding = 0 := by
  cases pc with
  | idle | leavingQueue => rfl
  | releasing | addingPermits => simp [Pc.inRelease] at h

/-- In every reachable state the grants and the stored permits do not exceed the permits there
were at the start and those released since, and are equal to them while no `release_many` is in
progress. -/
theorem permits_conserved (N : ℕ) (cfg : Config) (hcpu : cfg.maxCpus = 1) (idle root : TaskArgs)
    (uninit : Heap) (s : State)
    (hs : initSystemTasks cfg idle root (init cfg uninit) = some s) (permits : ℕ) (acts : List Act)
    (w : World N) (hrun : run (step cfg) (World.new N s permits) acts = some w)
    (hmax : permits + w.released ≤ 2 ^ cfg.usizeBits - 1) :
    w.granted + w.permits ≤ permits + w.released ∧
      ((∀ p < cfg.taskCap, (w.pc p).inRelease = false) →
        w.granted + w.permits = permits + w.released) := by
  have hinv : ∃ l, Waiting cfg w l ∧ (w.ledger l).Balanced cfg permits := by
    apply run_preserves _ _ hrun
    · rintro w act w' ⟨l, hw, hl⟩ hstep
      rcases hw.step hcpu hstep with ⟨l', hw', hmove⟩
      exact ⟨l', hw', hl.move hmove⟩
    · refine ⟨[], .new hcpu hs permits, (by rintro _ _ _ ⟨⟩), fun _ => ?_⟩
      simp [World.ledger, World.new, outstanding, Pc.outstanding]
  rcases hinv with ⟨l, -, hl⟩
  have hsum : w.granted + w.permits + outstanding cfg w.pc = permits + w.released := hl.sum hmax
  refine ⟨by omega, fun hquiet => ?_⟩
  have hzero : outstanding cfg w.pc = 0 := by
    apply Finset.sum_eq_zero
    intro p hp
    exact Pc.outstanding_of_not_inRelease (hquiet p (Finset.mem_range.mp hp))
  omega

theorem release_two_conserved :
    ∃ s w, initSystemTasks .small (.ofPriority 0) (.ofPriority 1) (init .small .blank) = some s ∧
      run (step .small) (World.new 2 s 0) [.sched .schedule, .sched (.createTask (.ofPriority 1)),
        .sched .schedule, .wait, .sched .schedule, .releaseMany 2, .resume, .resume, .resume] =
        some w ∧ w.granted = 1 ∧ w.permits = 1 ∧ w.granted + w.permits = 0 + w.released := by
  have htest : ((initSystemTasks .small (.ofPriority 0) (.ofPriority 1) (init .small .blank)).bind
      fun s => run (step .small) (World.new 2 s 0) [.sched .schedule,
        .sched (.createTask (.ofPriority 1)), .sched .schedule, .wait, .sched .schedule,
        .releaseMany 2, .resume, .resume, .resume]).any (fun w => decide
          (w.granted = 1 ∧ w.permits = 1 ∧ w.released = 2 ∧
            ∀ p < Config.small.taskCap, (w.pc p).inRelease = false)) = true := by
    decide +kernel
  rcases (Option.any_eq_true _ _).mp htest with ⟨w, hw, hfacts⟩
  rcases Option.bind_eq_some_iff.mp hw with ⟨s, hs, hrun⟩
  rcases of_decide_eq_true hfacts with ⟨hgranted, hpermits, hreleased, hquiet⟩
  have hmax : 0 + w.released ≤ 2 ^ Config.small.usizeBits - 1 := by
    rw [hreleased]
    decide
  exact ⟨s, w, hs, hrun, hgranted, hpermits,
    (permits_conserved 2 .small rfl _ _ _ s hs 0 _ w hrun hmax).2 hquiet⟩

end OpenIon.Sched.Semaphore
