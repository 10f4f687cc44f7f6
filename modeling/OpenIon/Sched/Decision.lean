import Mathlib.Data.List.Rotate
import OpenIon.Sched.Riscv.Places

/-! # What a scheduling decision selects

On one CPU, with a consistent ready queue that has room for a running task, `schedule` keeps a
running task that is above all ready ones, and otherwise takes the oldest ready task of the
highest priority and puts the running one at the end of its list. So the tasks of the
highest priority take turns.
-/
namespace OpenIon.Sched
open Lib

/-- A consistent ready queue, with room for a running current task, which is not in it. -/
structure Consistent (cfg : Config) (s : State) (rq : ℕ → List TaskPtr) : Prop where
  single : cfg.maxCpus = 1
  queue : (s.cpuScheds 0).readyQueue.Wf s.heap rq
  room : s.currentRunning = true → (members rq).length < cfg.taskCap
  current : ∀ c, s.currentTcb = some c → (s.heap c).state = .running →
    (s.heap c).queued = false ∧ (s.heap c).next = none ∧ (s.heap c).priority < maxPriorities

def Candidate (s : State) (rq : ℕ → List TaskPtr) (a : TaskPtr) : Prop :=
  a ∈ members rq ∨ s.currentTcb = some a ∧ (s.heap a).state = .running

/-- From `s` to `s'` a decision took `p` from the front of the list of priority `i`, with a running
current task put back. -/
structure Selected (s s' : State) (rq : ℕ → List TaskPtr) (i : ℕ) (p : TaskPtr) : Prop where
  nextTcb : s'.nextTcb = some p
  currentTcb : s'.currentTcb = s.currentTcb
  queue : (s'.cpuScheds 0).readyQueue.Wf s'.heap
    (Function.update (requeued s rq) i (requeued s rq i).tail)
  priority : ∀ a, (s'.heap a).priority = (s.heap a).priority
  running : (s'.heap p).state = .running ∧ (s'.heap p).queued = false ∧ (s'.heap p).next = none
  ready : ∀ c, s.currentTcb = some c → (s.heap c).state = .running → (s'.heap c).state = .ready

variable {cfg : Config} {s s' m : State} {rq : ℕ → List TaskPtr} {p : TaskPtr}

theorem Placed.consistent {sl fl : List TaskPtr} (h : Placed cfg s s.currentTcb rq sl fl none)
    (hcpu : cfg.maxCpus = 1) : Consistent cfg s rq := by
  refine ⟨hcpu, h.ready, ?_, ?_⟩
  · intro hrun
    rcases State.currentRunning_iff.mp hrun with ⟨c, hc, hr⟩
    rw [← h.ready.count]
    exact (h.takeRunning hc hr).2.2.room
  · intro c hc hr
    rcases h.takeRunning hc hr with ⟨-, hnext, hout⟩
    exact ⟨(hout.taken c rfl).2, hnext, h.priority c (h.current_task c hc)⟩

namespace Consistent

theorem current_not_mem (h : Consistent cfg s rq) (c : TaskPtr) (hc : s.currentTcb = some c)
    (hr : (s.heap c).state = .running) : c ∉ members rq := by
  intro hmem
  have hqueued := h.queue.queued_of_mem hmem
  simp [(h.current c hc hr).1] at hqueued

theorem priority (h : Consistent cfg s rq) (c : TaskPtr) (hc : s.currentTcb = some c)
    (hr : (s.heap c).state = .running) : (s.heap c).priority < maxPriorities :=
  (h.current c hc hr).2.2

theorem requeueCurrent (h : Consistent cfg s rq) :
    ∃ m, Sched.requeueCurrent cfg s 0 = (true, m) ∧
      (m.cpuScheds 0).readyQueue.Wf m.heap (requeued s rq) ∧ m.currentTcb = s.currentTcb ∧
      (∀ a, (m.heap a).priority = (s.heap a).priority) ∧
      ∀ c, s.currentTcb = some c → (s.heap c).state = .running → (m.heap c).state = .ready := by
  by_cases hstop : ∀ a, s.currentTcb = some a → (s.heap a).state ≠ .running
  · refine ⟨s, requeueCurrent_of_stopped hstop 0, ?_, rfl, fun _ => rfl, ?_⟩
    · rw [requeued_of_stopped hstop]
      exact h.queue
    · exact fun c hc hr => absurd hr (hstop c hc)
  · push Not at hstop
    rcases hstop with ⟨c, hc, hr⟩
    rcases h.current c hc hr with ⟨hqueued, hnext, hprio⟩
    have hwf := h.queue.set (h.current_not_mem c hc hr) { s.heap c with state := .ready }
    have hacc : ReadyQueue.Accepts cfg.taskCap (s.cpuScheds 0).readyQueue
        (s.heap.set c { s.heap c with state := .ready }) c := by
      constructor
      · simpa using hqueued
      · simp
      · simpa using hnext
      · rw [h.queue.count]
        exact h.room (State.currentRunning_iff.mpr ⟨c, hc, hr⟩)
      · simpa using hprio
    have hpush := ReadyQueue.push_of_accepts hacc
    rcases hwf.push hacc hpush with ⟨hwf', hframe⟩
    refine ⟨_, requeueCurrent_of_running hc hr hpush, ?_, rfl, ?_, ?_⟩
    · rw [requeued_of_running hc hr]
      simpa [pushed] using hwf'
    · intro a
      rw [State.heap_setReadyQueue]
      by_cases hac : a = c
      · rw [hac, hframe.self]
        simp
      · rw [hframe.other a hac, Heap.set_of_ne hac]
    · intro a ha _
      rw [← Option.some.inj (hc.symm.trans ha), State.heap_setReadyQueue, hframe.self]
      simp

theorem select (cfg : Config) (w : (m.cpuScheds 0).readyQueue.Wf m.heap rq) (hne : members rq ≠ [])
    (currentPriority : Option ℕ) :
    ∃ i p l, i < maxPriorities ∧ rq i = p :: l ∧ (∀ a ∈ members rq, (m.heap a).priority ≤ i) ∧
      ∃ b s', dispatchNext (takeNext cfg m 0).2 0 currentPriority (takeNext cfg m 0).1 = (b, s') ∧
        s'.nextTcb = some p ∧ s'.currentTcb = m.currentTcb ∧
        (s'.cpuScheds 0).readyQueue.Wf s'.heap (Function.update rq i l) ∧
        s'.heap = m.heap.set p { m.heap p with
          state := .running, cpuId := UInt32.ofNat 0, next := none, queued := false } := by
  rcases w.popHighest hne with ⟨i, p, l, q, hi, hl, hmax, -, hpop, hwf⟩
  have htake : takeNext cfg m 0 = (some p, m.setReadyQueue 0 q
      (m.heap.set p { m.heap p with next := none, queued := false })) := by
    simp only [takeNext, hpop]
  have hp : p ∉ members (Function.update rq i l) := by
    rw [w.mem_members_pop hi hl]
    exact fun h => h.2 rfl
  obtain ⟨cpuScheds, hdisp, hcpus⟩ := dispatchNext_some (m.setReadyQueue 0 q
    (m.heap.set p { m.heap p with next := none, queued := false })) 0 currentPriority p
  rw [htake]
  refine ⟨i, p, l, hi, hl, hmax, _, _, hdisp, rfl, rfl, ?_, ?_⟩
  · change (cpuScheds 0).readyQueue.Wf _ _
    rw [(hcpus 0).1, State.readyQueue_setReadyQueue]
    exact hwf.set hp _
  · change Heap.set _ p _ = _
    simp

/-- A requeued task stands behind the ready ones. -/
theorem requeued_append (s : State) (rq : ℕ → List TaskPtr) (i : ℕ) :
    ∃ l, requeued s rq i = rq i ++ l := by
  by_cases hstop : ∀ a, s.currentTcb = some a → (s.heap a).state ≠ .running
  · exact ⟨[], by simp [requeued_of_stopped hstop]⟩
  · push Not at hstop
    rcases hstop with ⟨c, hc, hr⟩
    rw [requeued_of_running hc hr, pushed]
    by_cases hi : i = (s.heap c).priority
    · exact ⟨[c], by simp [hi]⟩
    · exact ⟨[], by simp [Function.update_of_ne hi]⟩

/-- Where the current task does not stay, the highest list has a task besides the requeued one. -/
theorem list_ne_nil (h : Consistent cfg s rq) (hexit : ¬ OnTop s rq) {i : ℕ} {p : TaskPtr}
    (hp : p ∈ members (requeued s rq)) (hpi : (s.heap p).priority = i)
    (hmax : ∀ a ∈ members (requeued s rq), (s.heap a).priority ≤ i) : rq i ≠ [] := by
  have hmem (a : TaskPtr) : a ∈ members (requeued s rq) ↔
      a ∈ members rq ∨ s.currentTcb = some a ∧ (s.heap a).state = .running :=
    mem_members_requeued h.priority
  rcases (hmem p).mp hp with hp | ⟨hc, hr⟩
  · exact List.ne_nil_of_mem (hpi ▸ (h.queue.mem_iff.mp hp).2)
  · unfold OnTop at hexit
    push Not at hexit
    rcases hexit p hc hr with ⟨a, ha, hle⟩
    have hai : (s.heap a).priority = i :=
      le_antisymm (hmax a ((hmem a).mpr (.inl ha))) (hpi ▸ hle)
    exact List.ne_nil_of_mem (hai ▸ (h.queue.mem_iff.mp ha).2)

/-- What a decision does: it keeps a running task that is above all ready ones, or has no task to
choose, or selects the oldest ready task of the highest priority. -/
theorem schedule (h : Consistent cfg s rq) :
    (OnTop s rq ∧ Kept s (Sched.schedule cfg s).2) ∨
    (members (requeued s rq) = [] ∧ Kept s (Sched.schedule cfg s).2) ∨
    ∃ i p l, i < maxPriorities ∧ rq i = p :: l ∧
      (∀ a ∈ members (requeued s rq), (s.heap a).priority ≤ i) ∧
      Selected s (Sched.schedule cfg s).2 rq i p := by
  rw [Sched.schedule, currentSchedulerCpuId_single h.single]
  rcases h.queue.schedule_cases h.single h.priority with
    ⟨s', heq, hkept, htop | ⟨hnil, -⟩⟩ | ⟨hexit, hne, hsched⟩
  · exact .inl ⟨htop, heq ▸ hkept⟩
  · exact .inr (.inl ⟨hnil, heq ▸ hkept⟩)
  · have hconsistent : Consistent cfg (s.setPreemptPending 0 false) rq :=
      ⟨h.single, by simpa using h.queue, h.room, h.current⟩
    rcases hconsistent.requeueCurrent with ⟨m, hreq, hwf, hcur, hprio, hready⟩
    have hrequeued : requeued (s.setPreemptPending 0 false) rq = requeued s rq := rfl
    rw [hrequeued] at hwf
    rcases select cfg hwf hne (currentRunningPriority s) with
      ⟨i, p, l, hi, hl, hmax, v, s', hdisp, hnext, hcur', hq, hheap⟩
    have hmax' : ∀ a ∈ members (requeued s rq), (s.heap a).priority ≤ i := fun a ha =>
      (hprio a) ▸ hmax a ha
    have hlist : rq i ≠ [] := by
      have hp : p ∈ requeued s rq i := hl ▸ List.mem_cons_self
      exact h.list_ne_nil hexit (mem_members.mpr ⟨i, hi, hp⟩)
        ((hprio p).symm.trans (hwf.priority i hi p hp)) hmax'
    rcases requeued_append s rq i with ⟨rest, hrest⟩
    rcases List.exists_cons_of_ne_nil hlist with ⟨p', l', hl'⟩
    obtain rfl : p = p' := by
      rw [hl, hl', List.cons_append] at hrest
      exact (List.cons.inj hrest).1
    rw [hsched m hreq, hdisp]
    refine .inr (.inr ⟨i, p, l', hi, hl', hmax', ⟨hnext, hcur'.trans hcur, ?_, ?_, ?_, ?_⟩⟩)
    · rw [hl]
      exact hq
    · intro a
      rw [hheap]
      refine Eq.trans ?_ (hprio a)
      by_cases hap : a = p
      · simp [hap]
      · rw [Heap.set_of_ne hap]
    · simp [hheap]
    · intro c hc hr
      have hp : p ∈ members rq := mem_members.mpr ⟨i, hi, hl' ▸ List.mem_cons_self⟩
      have hcp : c ≠ p := fun heq => h.current_not_mem c hc hr (heq ▸ hp)
      rw [hheap, Heap.set_of_ne hcp]
      exact hready c hc hr

end Consistent

/-- The current task of `s` runs, no ready task is above it, and the tasks of its priority are,
from the running one on, those of `l`. -/
def Ring (cfg : Config) (s : State) (l : List TaskPtr) : Prop :=
  ∃ rq c, Consistent cfg s rq ∧ s.currentTcb = some c ∧ (s.heap c).state = .running ∧
    (∀ a ∈ members rq, (s.heap a).priority ≤ (s.heap c).priority) ∧ l = c :: rq (s.heap c).priority

/-- A decision and the switch to the task that it chose. -/
def decision (cfg : Config) (s : State) : State := switchContext (schedule cfg s).2

def selections (cfg : Config) (s : State) (k n : ℕ) : List (Option TaskPtr) :=
  (List.range n).map fun j => (schedule cfg ((decision cfg)^[k + j] s)).2.nextTcb

theorem currentTcb_decision : (decision cfg s).currentTcb = (schedule cfg s).2.nextTcb := rfl

theorem length_members_selected {i : ℕ} {c : TaskPtr} (hc : s.currentTcb = some c)
    (hr : (s.heap c).state = .running) (hprio : (s.heap c).priority < maxPriorities)
    (hi : i < maxPriorities) (hne : requeued s rq i ≠ []) :
    (members (Function.update (requeued s rq) i (requeued s rq i).tail)).length =
      (members rq).length := by
  have hpush : (members (requeued s rq)).length = (members rq).length + 1 := by
    have hlen := members_update_length rq (rq (s.heap c).priority ++ [c]) hprio
    simp only [List.length_append, List.length_singleton] at hlen
    rw [requeued_of_running hc hr, pushed]
    omega
  have hpop := members_update_length (requeued s rq) (requeued s rq i).tail hi
  have hpos := List.length_pos_of_ne_nil hne
  rw [List.length_tail] at hpop
  omega

/-- A decision passes the turn to the next task of the ring. -/
theorem Ring.decision {l : List TaskPtr} (h : Ring cfg s l) :
    Ring cfg (decision cfg s) (l.rotate 1) := by
  rcases h with ⟨rq, c, h, hc, hr, htop, rfl⟩
  have hprio := h.priority c hc hr
  rcases h.schedule with ⟨⟨a, ha, -, habove⟩, hkept⟩ | ⟨hnil, -⟩ | ⟨i, p, l, hi, hl, hmax, hsel⟩
  · obtain rfl : c = a := Option.some.inj (hc.symm.trans ha)
    have halone : rq (s.heap c).priority = [] := by
      by_contra hne
      rcases List.exists_mem_of_ne_nil _ hne with ⟨b, hb⟩
      have hlt := habove b (mem_members.mpr ⟨_, hprio, hb⟩)
      rw [h.queue.priority _ hprio b hb] at hlt
      omega
    have hheap : (Sched.decision cfg s).heap = s.heap := by
      simp only [Sched.decision, switchContext, State.heap, hkept.pool]
    have hcur : (Sched.decision cfg s).currentTcb = some c := hkept.nextTcb.trans hc
    have hqueue : ((Sched.decision cfg s).cpuScheds 0).readyQueue = (s.cpuScheds 0).readyQueue :=
      hkept.readyQueue
    have hroom := h.room (State.currentRunning_iff.mpr ⟨c, hc, hr⟩)
    refine ⟨rq, c, ⟨h.single, ?_, fun _ => hroom, ?_⟩, hcur, ?_, ?_, ?_⟩
    · rw [hqueue, hheap]
      exact h.queue
    · intro a ha
      rw [hheap]
      exact h.current a (hc.trans (hcur.symm.trans ha))
    · rw [hheap]
      exact hr
    · rw [hheap]
      exact htop
    · rw [hheap, halone, List.rotate_singleton]
  · have hmem : c ∈ members (requeued s rq) :=
      (mem_members_requeued h.priority).mpr (.inr ⟨hc, hr⟩)
    simp [hnil] at hmem
  · have hp : p ∈ members rq := mem_members.mpr ⟨i, hi, hl ▸ List.mem_cons_self⟩
    have hpi : (s.heap p).priority = i := h.queue.priority i hi p (hl ▸ List.mem_cons_self)
    -- the list of the current task is the highest one
    obtain rfl : (s.heap c).priority = i :=
      le_antisymm (hmax c ((mem_members_requeued h.priority).mpr (.inr ⟨hc, hr⟩))) (hpi ▸ htop p hp)
    have hlist : requeued s rq (s.heap c).priority = p :: (l ++ [c]) := by
      simp [requeued_of_running hc hr, pushed, hl]
    have hcur : (Sched.decision cfg s).currentTcb = some p := hsel.nextTcb
    have hprio' (a : TaskPtr) : ((Sched.decision cfg s).heap a).priority = (s.heap a).priority :=
      hsel.priority a
    refine ⟨_, p, ⟨h.single, hsel.queue, ?_, ?_⟩, hcur, hsel.running.1, ?_, ?_⟩
    · intro _
      rw [length_members_selected hc hr hprio hi (hlist ▸ List.cons_ne_nil _ _)]
      exact h.room (State.currentRunning_iff.mpr ⟨c, hc, hr⟩)
    · intro a ha _
      obtain rfl : p = a := Option.some.inj (hcur.symm.trans ha)
      refine ⟨hsel.running.2.1, hsel.running.2.2, ?_⟩
      rw [hprio', hpi]
      exact hi
    · intro a ha
      rw [hprio', hprio', hpi]
      refine hmax a ?_
      rcases mem_members.mp ha with ⟨j, hj, haj⟩
      by_cases hji : j = (s.heap c).priority
      · rw [hji, Function.update_self] at haj
        exact mem_members.mpr ⟨_, hi, List.mem_of_mem_tail haj⟩
      · rw [Function.update_of_ne hji] at haj
        exact mem_members.mpr ⟨j, hj, haj⟩
    · rw [hprio', hpi, Function.update_self, hlist, hl]
      rfl

theorem Ring.iterate {l : List TaskPtr} (h : Ring cfg s l) (k : ℕ) :
    Ring cfg ((Sched.decision cfg)^[k] s) (l.rotate k) := by
  induction k with
  | zero => simpa using h
  | succ k ih =>
    rw [Function.iterate_succ_apply', ← List.rotate_rotate]
    exact ih.decision

theorem Ring.currentTcb {l : List TaskPtr} (h : Ring cfg s l) : s.currentTcb = l.head? := by
  rcases h with ⟨rq, c, -, hc, -, -, rfl⟩
  exact hc

/-- In as many decisions as the ring has tasks, each of them has its turn. -/
theorem Ring.selections {l : List TaskPtr} (h : Ring cfg s l) (k : ℕ) :
    selections cfg s k l.length = (l.rotate (k + 1)).map some := by
  refine List.ext_getElem? fun j => ?_
  by_cases hj : j < l.length
  · have hturn := (h.iterate (k + j + 1)).currentTcb
    rw [Function.iterate_succ_apply', currentTcb_decision, Nat.add_right_comm, ← List.rotate_rotate,
      List.head?_rotate (by simpa using hj)] at hturn
    simp [Sched.selections, hj, hturn]
  · have hlen : l.length ≤ j := not_lt.mp hj
    simp [Sched.selections, hlen]

namespace Consistent

/-- A running task is chosen again exactly when it is above all ready ones. -/
theorem keeps_iff (h : Consistent cfg s rq) {c : TaskPtr} (hc : s.currentTcb = some c)
    (hr : (s.heap c).state = .running) :
    ((Sched.schedule cfg s).2.nextTcb = some c ↔
      ∀ a ∈ members rq, (s.heap a).priority < (s.heap c).priority) ∧
    ((Sched.schedule cfg s).2.nextTcb = some c → Kept s (Sched.schedule cfg s).2) := by
  rcases h.schedule with ⟨⟨a, ha, -, habove⟩, hkept⟩ | ⟨hnil, -⟩ | ⟨i, p, l, hi, hl, hmax, hsel⟩
  · obtain rfl : c = a := Option.some.inj (hc.symm.trans ha)
    exact ⟨⟨fun _ => habove, fun _ => hkept.nextTcb.trans hc⟩, fun _ => hkept⟩
  · have hmem : c ∈ members (requeued s rq) :=
      (mem_members_requeued h.priority).mpr (.inr ⟨hc, hr⟩)
    simp [hnil] at hmem
  · have hp : p ∈ members rq := mem_members.mpr ⟨i, hi, hl ▸ List.mem_cons_self⟩
    have hpi : (s.heap p).priority = i := h.queue.priority i hi p (hl ▸ List.mem_cons_self)
    have hne : (Sched.schedule cfg s).2.nextTcb ≠ some c := by
      rw [hsel.nextTcb]
      exact fun heq => h.current_not_mem c hc hr (Option.some.inj heq ▸ hp)
    refine ⟨⟨fun heq => absurd heq hne, fun habove => ?_⟩, fun heq => absurd heq hne⟩
    have hle := hmax c ((mem_members_requeued h.priority).mpr (.inr ⟨hc, hr⟩))
    have hlt := habove p hp
    omega

theorem highest (h : Consistent cfg s rq) {a : TaskPtr} (ha : Candidate s rq a) :
    ∃ p, (Sched.schedule cfg s).2.nextTcb = some p ∧ Candidate s rq p ∧
      ∀ b, Candidate s rq b → (s.heap b).priority ≤ (s.heap p).priority := by
  rcases h.schedule with ⟨⟨c, hc, hr, habove⟩, hkept⟩ | ⟨hnil, -⟩ | ⟨i, p, l, hi, hl, hmax, hsel⟩
  · refine ⟨c, hkept.nextTcb.trans hc, .inr ⟨hc, hr⟩, ?_⟩
    rintro b (hb | ⟨hb, -⟩)
    · exact (habove b hb).le
    · rw [Option.some.inj (hc.symm.trans hb)]
  · have hmem : a ∈ members (requeued s rq) := (mem_members_requeued h.priority).mpr ha
    simp [hnil] at hmem
  · refine ⟨p, hsel.nextTcb, .inl (mem_members.mpr ⟨i, hi, hl ▸ List.mem_cons_self⟩), ?_⟩
    intro b hb
    rw [h.queue.priority i hi p (hl ▸ List.mem_cons_self)]
    exact hmax b ((mem_members_requeued h.priority).mpr hb)

theorem selected (h : Consistent cfg s rq)
    (hready : ∃ a ∈ members rq, ∀ c, s.currentTcb = some c → (s.heap c).state = .running →
      (s.heap c).priority ≤ (s.heap a).priority) :
    ∃ i p l, i < maxPriorities ∧ rq i = p :: l ∧ (∀ a ∈ members rq, (s.heap a).priority ≤ i) ∧
      Selected s (Sched.schedule cfg s).2 rq i p := by
  rcases hready with ⟨a, ha, hle⟩
  rcases h.schedule with ⟨⟨c, hc, hr, habove⟩, -⟩ | ⟨hnil, -⟩ | ⟨i, p, l, hi, hl, hmax, hsel⟩
  · exact absurd (habove a ha) (not_lt.mpr (hle c hc hr))
  · have hmem : a ∈ members (requeued s rq) := (mem_members_requeued h.priority).mpr (.inl ha)
    simp [hnil] at hmem
  · exact ⟨i, p, l, hi, hl, fun b hb => hmax b ((mem_members_requeued h.priority).mpr (.inl hb)),
      hsel⟩

end Consistent

/-- A decision chooses a candidate of the highest priority. It keeps a running task exactly when no
task is ready or all ready ones are below it, and changes nothing then. Otherwise it takes the
oldest ready task of the highest priority, and a running task goes, ready, to the end of its list.
So a running task and the ready ones of its priority, when none is above them, are each chosen
once in as many decisions as they are. -/
theorem schedule_decides (cfg : Config) (s : State) (rq : ℕ → List TaskPtr)
    (h : Consistent cfg s rq) :
    (∀ a, Candidate s rq a → ∃ p, (schedule cfg s).2.nextTcb = some p ∧ Candidate s rq p ∧
      ∀ b, Candidate s rq b → (s.heap b).priority ≤ (s.heap p).priority) ∧
    (∀ c, s.currentTcb = some c → (s.heap c).state = .running →
      ((schedule cfg s).2.nextTcb = some c ↔ members rq = [] ∨
        ∀ a ∈ members rq, (s.heap a).priority < (s.heap c).priority) ∧
      ((schedule cfg s).2.nextTcb = some c → Kept s (schedule cfg s).2)) ∧
    ((∃ a ∈ members rq, ∀ c, s.currentTcb = some c → (s.heap c).state = .running →
        (s.heap c).priority ≤ (s.heap a).priority) →
      ∃ i p l, i < maxPriorities ∧ rq i = p :: l ∧ (∀ a ∈ members rq, (s.heap a).priority ≤ i) ∧
        Selected s (schedule cfg s).2 rq i p) ∧
    ∀ c, s.currentTcb = some c → (s.heap c).state = .running →
      (∀ a ∈ members rq, (s.heap a).priority ≤ (s.heap c).priority) →
      (c :: rq (s.heap c).priority).Nodup ∧
      ∀ k, (selections cfg s k (c :: rq (s.heap c).priority).length).Perm
        ((c :: rq (s.heap c).priority).map some) := by
  refine ⟨fun a ha => h.highest ha, ?_, h.selected, ?_⟩
  · intro c hc hr
    refine ⟨(h.keeps_iff hc hr).1.trans ⟨.inr, ?_⟩, (h.keeps_iff hc hr).2⟩
    rintro (hnil | habove)
    · simp [hnil]
    · exact habove
  · intro c hc hr htop
    have hprio := h.priority c hc hr
    have hring : Ring cfg s (c :: rq (s.heap c).priority) := ⟨rq, c, h, hc, hr, htop, rfl⟩
    refine ⟨List.nodup_cons.mpr ⟨?_, (h.queue.chain _ hprio).nodup⟩, ?_⟩
    · exact fun hmem => h.current_not_mem c hc hr (mem_members.mpr ⟨_, hprio, hmem⟩)
    · intro k
      rw [hring.selections k]
      exact (List.rotate_perm _ _).map some

/-- The root task and two tasks of its priority take turns. -/
theorem three_tasks_take_turns :
    ∃ s, Riscv.system .small (.ofPriority 0) (.ofPriority 1) .blank
        [.schedule, .createTask (.ofPriority 1), .createTask (.ofPriority 1)] = some s ∧
      ∀ k, (selections .small s k 3).Perm [some 1, some 2, some 3] := by
  have htest : (Riscv.system .small (.ofPriority 0) (.ofPriority 1) .blank
      [.schedule, .createTask (.ofPriority 1), .createTask (.ofPriority 1)]).any (fun s =>
        decide (s.currentTcb = some 1 ∧ (s.heap 1).state = .running ∧ (s.heap 1).priority = 1 ∧
          ((s.cpuScheds 0).readyQueue.queues 1).head = some 2 ∧ (s.heap 2).next = some 3 ∧
          (s.heap 3).next = none ∧ (s.cpuScheds 0).readyQueue.peekHighestPriority = 1)) = true := by
    decide +kernel
  rcases (Option.any_eq_true _ _).mp htest with ⟨s, hs, hfacts⟩
  rcases of_decide_eq_true hfacts with ⟨hc, hr, hprio, hhead, hnext, hlast, hpeek⟩
  have hreach : Riscv.Reachable .small s := ⟨_, _, _, _, hs⟩
  rcases hreach.allPlaced rfl with ⟨rq, sl, fl, hplaced⟩
  have hchain : Chain s.heap.next ((s.cpuScheds 0).readyQueue.queues 1).head [2, 3] :=
    ⟨hhead, hnext, hlast⟩
  have hlist : rq 1 = [2, 3] := (hplaced.ready.chain 1 (by decide)).unique hchain
  have hne : members rq ≠ [] :=
    List.ne_nil_of_mem (mem_members.mpr ⟨1, by decide, hlist ▸ List.mem_cons_self⟩)
  rcases hplaced.ready.popHighest hne with ⟨i, p, l, q, -, -, hmax, hi, -⟩
  obtain rfl : i = 1 := hi.symm.trans hpeek
  have hdecides := schedule_decides .small s rq (hplaced.consistent rfl)
  have hturns := (hdecides.2.2.2 1 hc hr (by rw [hprio]; exact hmax)).2
  rw [hprio, hlist] at hturns
  exact ⟨s, hs, hturns⟩

end OpenIon.Sched
