import OpenIon.Sched.Scheduler
import OpenIon.Sched.ReadyQueue.Push
import OpenIon.Sched.ReadyQueue.Pop

/-! # Work stealing

`try_steal_task` goes over the other CPUs, takes the oldest task of the lowest priority from one
that has at least two, and puts it back if it may not run on the stealing CPU. With any number of
CPUs no task is lost or moved in a refused attempt.
-/
namespace OpenIon.Sched
open Lib

/-- The ready queues of all CPUs hold the listed tasks: `rq` gives the list of a CPU and a
priority. A queue never takes more tasks than its capacity, and no task is in two queues. -/
structure RunQueues (cfg : Config) (s : State) (rq : ℕ → ℕ → List TaskPtr) : Prop where
  wf : ∀ d < cfg.maxCpus, (s.cpuScheds d).readyQueue.Wf s.heap (rq d)
  ready : ∀ d < cfg.maxCpus, ∀ p ∈ members (rq d), (s.heap p).state = .ready
  cap : ∀ d < cfg.maxCpus, (members (rq d)).length ≤ cfg.taskCap
  apart : ∀ d < cfg.maxCpus, ∀ e < cfg.maxCpus, ∀ p ∈ members (rq d), p ∈ members (rq e) → d = e

/-- The first member of a queue is the oldest task of its lowest priority. -/
theorem members_eq_cons {rq : ℕ → List TaskPtr} {i : ℕ} {p : TaskPtr} {l : List TaskPtr}
    (hi : i < maxPriorities) (hl : rq i = p :: l) (hlow : ∀ j < i, rq j = []) :
    members rq = p :: members (Function.update rq i l) := by
  unfold members
  generalize maxPriorities = n at hi
  induction n with
  | zero => exact absurd hi (Nat.not_lt_zero i)
  | succ n ih =>
    rw [List.range_succ, List.flatMap_append, List.flatMap_append, List.flatMap_singleton,
      List.flatMap_singleton]
    obtain hlt | rfl := Nat.lt_succ_iff_lt_or_eq.mp hi
    · rw [ih hlt, Function.update_of_ne (Nat.ne_of_gt hlt), List.cons_append]
    · have hbelow : (List.range i).flatMap rq = [] :=
        List.flatMap_eq_nil_iff.mpr fun j hj => hlow j (List.mem_range.mp hj)
      have hbelow' : (List.range i).flatMap (Function.update rq i l) = [] := by
        refine List.flatMap_eq_nil_iff.mpr fun j hj => ?_
        have hlt := List.mem_range.mp hj
        rw [Function.update_of_ne (Nat.ne_of_lt hlt), hlow j hlt]
      rw [hbelow, hbelow', Function.update_self, hl]
      rfl

theorem ReadyQueue.Wf.popLowestRaw {q : ReadyQueue} {h : Heap} {rq : ℕ → List TaskPtr}
    (w : q.Wf h rq) {p : TaskPtr} {rest : List TaskPtr} (hm : members rq = p :: rest) :
    ∃ q' rq', q.popLowestRaw h = (some p, q', h.set p { h p with next := none, queued := false }) ∧
      q'.Wf (h.set p { h p with next := none, queued := false }) rq' ∧ members rq' = rest := by
  obtain ⟨i, p', l, q', hi, hl, hlow, hpop, hw⟩ :=
    w.popLowest (by rw [hm]; exact List.cons_ne_nil p rest)
  have hcons := members_eq_cons hi hl hlow
  rw [hm, List.cons.injEq] at hcons
  obtain ⟨rfl, hrest⟩ := hcons
  exact ⟨q', Function.update rq i l, hpop, hw, hrest.symm⟩

section

variable {cfg : Config} {s : State} {rq : ℕ → ℕ → List TaskPtr} {v d : ℕ} {t : TaskPtr}
  {rest : List TaskPtr}

theorem readyQueue_setReadyQueue_of_ne (hne : d ≠ v) (q : ReadyQueue) (h : Heap) :
    ((s.setReadyQueue v q h).cpuScheds d).readyQueue = (s.cpuScheds d).readyQueue := by
  simp [State.setReadyQueue, State.setCpu, State.setHeap, Function.update_of_ne hne]

/-- One queue is replaced, and of the tasks of the others nothing but data outside the queues has
changed. -/
theorem RunQueues.replace (h : RunQueues cfg s rq) {q : ReadyQueue} {heap : Heap}
    {l : ℕ → List TaskPtr} (hwf : q.Wf heap l) (hready : ∀ p ∈ members l, (heap p).state = .ready)
    (hcap : (members l).length ≤ cfg.taskCap)
    (hsame : ∀ d < cfg.maxCpus, d ≠ v → ∀ p ∈ members (rq d), heap p = s.heap p)
    (hapart : ∀ d < cfg.maxCpus, d ≠ v → ∀ p ∈ members (rq d), p ∉ members l) :
    RunQueues cfg (s.setReadyQueue v q heap) (Function.update rq v l) := by
  constructor
  · intro d hd
    by_cases hdv : d = v
    · subst hdv
      rw [Function.update_self, State.readyQueue_setReadyQueue]
      exact hwf
    · rw [Function.update_of_ne hdv, readyQueue_setReadyQueue_of_ne hdv]
      exact (h.wf d hd).of_same (hsame d hd hdv)
  · intro d hd p hp
    by_cases hdv : d = v
    · rw [hdv, Function.update_self] at hp
      exact hready p hp
    · rw [Function.update_of_ne hdv] at hp
      rw [State.heap_setReadyQueue, hsame d hd hdv p hp]
      exact h.ready d hd p hp
  · intro d hd
    by_cases hdv : d = v
    · rw [hdv, Function.update_self]
      exact hcap
    · rw [Function.update_of_ne hdv]
      exact h.cap d hd
  · intro d hd e he p hpd hpe
    by_cases hdv : d = v
    · by_cases hev : e = v
      · rw [hdv, hev]
      · rw [hdv, Function.update_self] at hpd
        rw [Function.update_of_ne hev] at hpe
        exact absurd hpd (hapart e he hev p hpe)
    · rw [Function.update_of_ne hdv] at hpd
      by_cases hev : e = v
      · rw [hev, Function.update_self] at hpe
        exact absurd hpe (hapart d hd hdv p hpd)
      · rw [Function.update_of_ne hev] at hpe
        exact h.apart d hd e he p hpd hpe

theorem RunQueues.pop (h : RunQueues cfg s rq) (hv : v < cfg.maxCpus)
    (hm : members (rq v) = t :: rest) :
    ∃ q heap l, (s.cpuScheds v).readyQueue.popLowestRaw s.heap = (some t, q, heap) ∧
      heap = s.heap.set t { s.heap t with next := none, queued := false } ∧ members l = rest ∧
      (∀ d < cfg.maxCpus, t ∉ members (Function.update rq v l d)) ∧
      RunQueues cfg (s.setReadyQueue v q heap) (Function.update rq v l) := by
  have ht : t ∈ members (rq v) := hm ▸ List.mem_cons_self
  have hnodup := (h.wf v hv).nodup
  rw [hm, List.nodup_cons] at hnodup
  have hrest : ∀ p ∈ rest, p ∈ members (rq v) := fun p hp => hm ▸ List.mem_cons_of_mem t hp
  obtain ⟨q, l, hpop, hwf, hl⟩ := (h.wf v hv).popLowestRaw hm
  refine ⟨q, _, l, hpop, rfl, hl, ?_, h.replace hwf ?_ ?_ ?_ ?_⟩
  · intro d hd htd
    by_cases hdv : d = v
    · rw [hdv, Function.update_self, hl] at htd
      exact hnodup.1 htd
    · rw [Function.update_of_ne hdv] at htd
      exact hdv (h.apart d hd v hv t htd ht)
  · intro p hp
    rw [hl] at hp
    have hne : p ≠ t := fun heq => hnodup.1 (heq ▸ hp)
    rw [Heap.set_of_ne hne]
    exact h.ready v hv p (hrest p hp)
  · have hcap := h.cap v hv
    rw [hm, List.length_cons] at hcap
    rw [hl]
    omega
  · intro d hd hne p hp
    exact Heap.set_of_ne fun heq => hne (h.apart d hd v hv p hp (heq ▸ ht))
  · intro d hd hne p hp hpl
    exact hne (h.apart d hd v hv p hp (hrest p (hl ▸ hpl)))

theorem RunQueues.putBack (h : RunQueues cfg s rq) (hv : v < cfg.maxCpus)
    (hout : ∀ d < cfg.maxCpus, t ∉ members (rq d))
    (ha : ReadyQueue.Accepts cfg.taskCap (s.cpuScheds v).readyQueue s.heap t) :
    ∃ q heap l, (s.cpuScheds v).readyQueue.pushRaw cfg.taskCap s.heap (some t) = (true, q, heap) ∧
      (∀ a, a ∈ members l ↔ a ∈ members (rq v) ∨ a = t) ∧
      (∀ a, (heap a).affinity = (s.heap a).affinity) ∧
      RunQueues cfg (s.setReadyQueue v q heap) (Function.update rq v l) := by
  have hpush := ReadyQueue.push_of_accepts ha
  obtain ⟨hwf, hframe⟩ := (h.wf v hv).push ha hpush
  have hmem := mem_members_append (rq v) ha.priority t
  refine ⟨_, _, _, hpush, hmem, ?_, h.replace hwf ?_ ?_ (fun d hd hne a hap => ?_) ?_⟩
  · intro a
    by_cases hat : a = t
    · rw [hat, hframe.self]
    · rw [hframe.other a hat]
  · intro a hap
    obtain hav | rfl := (hmem a).mp hap
    · rw [hframe.other a fun heq => hout v hv (heq ▸ hav)]
      exact h.ready v hv a hav
    · rw [hframe.self]
      exact ha.ready
  · have hlen := members_update_length (rq v) (rq v (s.heap t).priority ++ [t]) ha.priority
    have hroom := ha.room
    rw [(h.wf v hv).count] at hroom
    rw [List.length_append, List.length_singleton] at hlen
    omega
  · exact hframe.outside a (fun heq => hout d hd (heq ▸ hap))
      fun hav => hne (h.apart d hd v hv a hap hav)
  · intro d hd hne a hap hal
    obtain hav | rfl := (hmem a).mp hal
    · exact hne (h.apart d hd v hv a hap hav)
    · exact hout d hd hap

/-! ## The loop over the victims -/

variable {c : ℕ} {offset : ℕ} {offsets : List ℕ}

theorem canRunOn_congr {a b : TaskControlBlock} (h : a.affinity = b.affinity) (cpu : UInt32) :
    a.canRunOn cpu = b.canRunOn cpu := by
  unfold TaskControlBlock.canRunOn
  rw [h]

/-- A CPU that is not active, or has less than two tasks, is passed over. -/
theorem stealFrom_skip (h : RunQueues cfg s rq) (hv : (c + offset) % cfg.maxCpus < cfg.maxCpus)
    (hskip : cfg.isCpuActive ((c + offset) % cfg.maxCpus) = true →
      (members (rq ((c + offset) % cfg.maxCpus))).length ≤ 1) :
    stealFrom cfg c (offset :: offsets) s = stealFrom cfg c offsets s := by
  rw [stealFrom]
  cases hactive : cfg.isCpuActive ((c + offset) % cfg.maxCpus) with
  | false => rfl
  | true =>
    have hlen := hskip hactive
    rw [← (h.wf _ hv).count] at hlen
    simp only [Bool.not_true, Bool.false_eq_true, if_false]
    exact if_pos hlen

theorem RunQueues.setCpu (h : RunQueues cfg s rq) {cpu : CpuScheduler}
    (hq : cpu.readyQueue = (s.cpuScheds c).readyQueue) : RunQueues cfg (s.setCpu c cpu) rq := by
  refine ⟨fun d hd => ?_, h.ready, h.cap, h.apart⟩
  have hsame : ((s.setCpu c cpu).cpuScheds d).readyQueue = (s.cpuScheds d).readyQueue := by
    by_cases hdc : d = c
    · simp [State.setCpu, hdc, hq]
    · simp [State.setCpu, Function.update_of_ne hdc]
  rw [hsame]
  exact h.wf d hd

/-! At a victim that has a task to spare. -/

section

variable (h : RunQueues cfg s rq) (hv : v < cfg.maxCpus) (hoffset : (c + offset) % cfg.maxCpus = v)
  (hactive : cfg.isCpuActive v = true) (hm : members (rq v) = t :: rest) (hrest : rest ≠ [])
  (offsets : List ℕ)

include h hv hoffset hactive hm hrest

/-- What happens once its first task has been taken out. -/
theorem stealFrom_try {q : ReadyQueue} {heap : Heap}
    (hpop : (s.cpuScheds v).readyQueue.popLowestRaw s.heap = (some t, q, heap)) :
    stealFrom cfg c (offset :: offsets) s =
      if (heap t).canRunOn (UInt32.ofNat c) then
        (some t, (s.setReadyQueue v q heap).setCpu c
          { (s.setReadyQueue v q heap).cpuScheds c with
            stealSuccesses := ((s.setReadyQueue v q heap).cpuScheds c).stealSuccesses + 1 })
      else
        stealFrom cfg c offsets ((s.setReadyQueue v q heap).setReadyQueue v
          (((s.setReadyQueue v q heap).cpuScheds v).readyQueue.pushRaw cfg.taskCap heap
            (some t)).2.1
          (((s.setReadyQueue v q heap).cpuScheds v).readyQueue.pushRaw cfg.taskCap heap
            (some t)).2.2) := by
  have hlen : ¬(s.cpuScheds v).readyQueue.len ≤ 1 := by
    have hpos := List.length_pos_iff.mpr hrest
    rw [ReadyQueue.len, (h.wf v hv).count, hm, List.length_cons]
    omega
  rw [stealFrom]
  simp only [hoffset, hactive, Bool.not_true, Bool.false_eq_true, if_false, hlen, hpop,
    State.heap_setReadyQueue]

theorem stealFrom_take (hrun : (s.heap t).canRunOn (UInt32.ofNat c) = true) :
    ∃ s' l, stealFrom cfg c (offset :: offsets) s = (some t, s') ∧ members l = rest ∧
      (∀ d < cfg.maxCpus, t ∉ members (Function.update rq v l d)) ∧
      RunQueues cfg s' (Function.update rq v l) := by
  obtain ⟨q, heap, l, hpop, hheap, hl, hout, hq⟩ := h.pop hv hm
  have hrun' : (heap t).canRunOn (UInt32.ofNat c) = true := by
    rw [hheap, Heap.set_self]
    exact hrun
  have htry := stealFrom_try h hv hoffset hactive hm hrest offsets hpop
  rw [if_pos hrun'] at htry
  exact ⟨_, l, htry, hl, hout, hq.setCpu rfl⟩

theorem stealFrom_refuse (hrun : (s.heap t).canRunOn (UInt32.ofNat c) = false) :
    ∃ s' l, stealFrom cfg c (offset :: offsets) s = stealFrom cfg c offsets s' ∧
      (∀ a, a ∈ members l ↔ a ∈ members (rq v)) ∧
      (∀ a, (s'.heap a).affinity = (s.heap a).affinity) ∧
      RunQueues cfg s' (Function.update rq v l) := by
  obtain ⟨q, heap, l, hpop, hheap, hl, hout, hq⟩ := h.pop hv hm
  have ht : t ∈ members (rq v) := hm ▸ List.mem_cons_self
  have htask : heap t = { s.heap t with next := none, queued := false } := by
    rw [hheap, Heap.set_self]
  have hwf := hq.wf v hv
  rw [Function.update_self, State.readyQueue_setReadyQueue, State.heap_setReadyQueue] at hwf
  have haccepts : ReadyQueue.Accepts cfg.taskCap
      ((s.setReadyQueue v q heap).cpuScheds v).readyQueue (s.setReadyQueue v q heap).heap t := by
    rw [State.readyQueue_setReadyQueue, State.heap_setReadyQueue]
    have hcap := h.cap v hv
    rw [hm, List.length_cons] at hcap
    constructor
    · rw [htask]
    · rw [htask]
      exact h.ready v hv t ht
    · rw [htask]
    · rw [hwf.count, hl]
      omega
    · rw [htask]
      exact ((h.wf v hv).mem_iff.mp ht).1
  obtain ⟨q', heap', l', hpush, hmem, haffinity, hq'⟩ := hq.putBack hv hout haccepts
  have hrun' : ¬(heap t).canRunOn (UInt32.ofNat c) = true := by
    rw [htask]
    exact Bool.eq_false_iff.mp hrun
  have htry := stealFrom_try h hv hoffset hactive hm hrest offsets hpop
  rw [State.heap_setReadyQueue] at hpush
  rw [if_neg hrun', hpush] at htry
  rw [Function.update_idem] at hq'
  refine ⟨_, l', htry, fun a => ?_, fun a => ?_, hq'⟩
  · rw [hmem a, Function.update_self, hl, hm, List.mem_cons, or_comm]
  · refine (haffinity a).trans ?_
    rw [State.heap_setReadyQueue, hheap]
    by_cases hat : a = t
    · rw [hat, Heap.set_self]
    · rw [Heap.set_of_ne hat]

end

/-- The first task of this CPU can be stolen: the CPU is active and has another one. -/
structure Stealable (cfg : Config) (s : State) (rq : ℕ → ℕ → List TaskPtr) (c v : ℕ) (t : TaskPtr) :
    Prop where
  active : cfg.isCpuActive v = true
  first : (members (rq v)).head? = some t
  two : 1 < (members (rq v)).length
  canRun : (s.heap t).canRunOn (UInt32.ofNat c) = true

theorem Stealable.exists_cons (h : Stealable cfg s rq c v t) :
    ∃ rest, members (rq v) = t :: rest ∧ rest ≠ [] := by
  obtain ⟨rest, hrest⟩ := List.head?_eq_some_iff.mp h.first
  refine ⟨rest, hrest, fun hnil => ?_⟩
  have htwo := h.two
  rw [hrest, hnil] at htwo
  exact Nat.lt_irrefl 1 htwo

theorem stealable_congr {s' : State} {rq' : ℕ → ℕ → List TaskPtr}
    (haffinity : ∀ a, (s'.heap a).affinity = (s.heap a).affinity) (hrq : rq' v = rq v) :
    Stealable cfg s' rq' c v t ↔ Stealable cfg s rq c v t := by
  have hrun := canRunOn_congr (haffinity t) (UInt32.ofNat c)
  constructor
  · rintro ⟨hactive, hfirst, htwo, hcan⟩
    exact ⟨hactive, hrq ▸ hfirst, hrq ▸ htwo, hrun ▸ hcan⟩
  · rintro ⟨hactive, hfirst, htwo, hcan⟩
    exact ⟨hactive, hrq ▸ hfirst, hrq ▸ htwo, hrun ▸ hcan⟩

def victims (cfg : Config) (c : ℕ) (offsets : List ℕ) : List ℕ :=
  offsets.map fun offset => (c + offset) % cfg.maxCpus

/-- The result is a candidate, which leaves its queue while nothing else moves, or there is no
candidate and nothing moves. -/
def Takes (cfg : Config) (rq rq' : ℕ → ℕ → List TaskPtr) (candidate : ℕ → TaskPtr → Prop)
    (r : Option TaskPtr) : Prop :=
  (∃ t v, r = some t ∧ candidate v t ∧
      ∀ d < cfg.maxCpus, ∀ p, p ∈ members (rq' d) ↔ p ∈ members (rq d) ∧ p ≠ t) ∨
    r = none ∧ (∀ v t, ¬candidate v t) ∧
      ∀ d < cfg.maxCpus, ∀ p, p ∈ members (rq' d) ↔ p ∈ members (rq d)

theorem Takes.congr {rq₁ rq' : ℕ → ℕ → List TaskPtr} {candidate₁ candidate : ℕ → TaskPtr → Prop}
    {r : Option TaskPtr} (h : Takes cfg rq₁ rq' candidate₁ r)
    (hcandidate : ∀ v t, candidate₁ v t ↔ candidate v t)
    (hsame : ∀ d p, p ∈ members (rq₁ d) ↔ p ∈ members (rq d)) :
    Takes cfg rq rq' candidate r := by
  obtain ⟨t, v, hr, hv, hmem⟩ | ⟨hr, hno, hmem⟩ := h
  · refine .inl ⟨t, v, hr, (hcandidate v t).mp hv, fun d hd p => ?_⟩
    exact (hmem d hd p).trans (and_congr_left fun _ => hsame d p)
  · refine .inr ⟨hr, fun v t hv => hno v t ((hcandidate v t).mpr hv), fun d hd p => ?_⟩
    exact (hmem d hd p).trans (hsame d p)

/-- A CPU without a task to steal adds no candidate to those behind it. -/
theorem candidate_cons_iff {s₁ : State} {rq₁ : ℕ → ℕ → List TaskPtr} {vs : List ℕ}
    (hno : ∀ t, ¬Stealable cfg s rq c v t)
    (hsteal : ∀ u ∈ vs, ∀ t, Stealable cfg s₁ rq₁ c u t ↔ Stealable cfg s rq c u t) (u : ℕ)
    (t : TaskPtr) :
    u ∈ vs ∧ Stealable cfg s₁ rq₁ c u t ↔ u ∈ v :: vs ∧ Stealable cfg s rq c u t := by
  constructor
  · rintro ⟨hu, ht⟩
    exact ⟨List.mem_cons_of_mem v hu, (hsteal u hu t).mp ht⟩
  · rintro ⟨hu, ht⟩
    rcases List.mem_cons.mp hu with rfl | hu
    · exact absurd ht (hno t)
    · exact ⟨hu, (hsteal u hu t).mpr ht⟩

theorem mem_update_iff {l : ℕ → List TaskPtr} (hm : members (rq v) = t :: rest)
    (hl : members l = rest) (hout : t ∉ members (Function.update rq v l d)) (p : TaskPtr) :
    p ∈ members (Function.update rq v l d) ↔ p ∈ members (rq d) ∧ p ≠ t := by
  have hne : p ∈ members (Function.update rq v l d) → p ≠ t := by
    rintro hp rfl
    exact hout hp
  by_cases hdv : d = v
  · rw [hdv, Function.update_self, hl] at hne ⊢
    rw [hm, List.mem_cons]
    exact ⟨fun hp => ⟨.inr hp, hne hp⟩, fun hp => hp.1.resolve_left hp.2⟩
  · rw [Function.update_of_ne hdv] at hne ⊢
    exact ⟨fun hp => ⟨hp, hne hp⟩, fun hp => hp.1⟩

/-- The loop steals from one of the victims, or none of them has a task to steal. -/
theorem stealFrom_spec (h : RunQueues cfg s rq) (offsets : List ℕ)
    (hnodup : (victims cfg c offsets).Nodup) :
    ∃ rq', RunQueues cfg (stealFrom cfg c offsets s).2 rq' ∧
      Takes cfg rq rq' (fun v t => v ∈ victims cfg c offsets ∧ Stealable cfg s rq c v t)
        (stealFrom cfg c offsets s).1 := by
  induction offsets generalizing s rq with
  | nil => exact ⟨rq, h, .inr ⟨rfl, fun v t hv => (by cases hv.1), fun d _ p => Iff.rfl⟩⟩
  | cons offset offsets ih =>
    have hlt : (c + offset) % cfg.maxCpus < cfg.maxCpus := Nat.mod_lt _ cfg.maxCpus_pos
    obtain ⟨hnew, hnodup⟩ := List.nodup_cons.mp hnodup
    change (c + offset) % cfg.maxCpus ∉ victims cfg c offsets at hnew
    generalize hv : (c + offset) % cfg.maxCpus = v at hlt hnew
    have hvictims : victims cfg c (offset :: offsets) = v :: victims cfg c offsets := by
      rw [← hv]
      rfl
    rw [hvictims]
    by_cases hskip : cfg.isCpuActive v = true → (members (rq v)).length ≤ 1
    · have hno : ∀ t, ¬Stealable cfg s rq c v t := fun t hsteal =>
        Nat.not_lt.mpr (hskip hsteal.active) hsteal.two
      rw [stealFrom_skip h (by rwa [hv]) (by rwa [hv])]
      obtain ⟨rq', hq, htakes⟩ := ih h hnodup
      exact ⟨rq', hq, htakes.congr (candidate_cons_iff hno fun _ _ _ => Iff.rfl)
        fun _ _ => Iff.rfl⟩
    · push Not at hskip
      obtain ⟨hactive, htwo⟩ := hskip
      obtain ⟨t, rest, hm⟩ := List.exists_cons_of_length_pos (Nat.zero_lt_of_lt htwo)
      have hrest : rest ≠ [] := by
        rintro rfl
        rw [hm] at htwo
        exact Nat.lt_irrefl 1 htwo
      have hfirst : (members (rq v)).head? = some t := by
        rw [hm]
        rfl
      cases hrun : (s.heap t).canRunOn (UInt32.ofNat c) with
      | true =>
        obtain ⟨s', l, hstep, hl, hout, hq⟩ :=
          stealFrom_take h hlt hv hactive hm hrest offsets hrun
        rw [hstep]
        refine ⟨_, hq, .inl ⟨t, v, rfl, ⟨List.mem_cons_self, hactive, hfirst, htwo, hrun⟩, ?_⟩⟩
        exact fun d hd p => mem_update_iff hm hl (hout d hd) p
      | false =>
        obtain ⟨s', l, hstep, hl, haffinity, hq⟩ :=
          stealFrom_refuse h hlt hv hactive hm hrest offsets hrun
        have hno : ∀ a, ¬Stealable cfg s rq c v a := by
          intro a hsteal
          have hcan := hsteal.canRun
          rw [← Option.some.inj (hfirst.symm.trans hsteal.first), hrun] at hcan
          cases hcan
        have hsteal : ∀ u ∈ victims cfg c offsets, ∀ a,
            Stealable cfg s' (Function.update rq v l) c u a ↔ Stealable cfg s rq c u a := by
          intro u hu a
          have hne : u ≠ v := by
            rintro rfl
            exact hnew hu
          exact stealable_congr haffinity (Function.update_of_ne hne _ _)
        have hsame : ∀ d p, p ∈ members (Function.update rq v l d) ↔ p ∈ members (rq d) := by
          intro d p
          by_cases hdv : d = v
          · rw [hdv, Function.update_self]
            exact hl p
          · rw [Function.update_of_ne hdv]
        rw [hstep]
        obtain ⟨rq', hq', htakes⟩ := ih hq hnodup
        exact ⟨rq', hq', htakes.congr (candidate_cons_iff hno hsteal) hsame⟩

/-- The victims of `try_steal_task` are the other CPUs, each of them once. -/
theorem victims_range (hc : c < cfg.maxCpus) :
    (victims cfg c (List.range cfg.maxCpus).tail).Nodup ∧
      ∀ v, v ∈ victims cfg c (List.range cfg.maxCpus).tail ↔ v < cfg.maxCpus ∧ v ≠ c := by
  have hpos := cfg.maxCpus_pos
  have hmem : ∀ o, o ∈ (List.range cfg.maxCpus).tail ↔ 0 < o ∧ o < cfg.maxCpus := by
    intro o
    rw [List.range_eq_range', List.tail_range', List.mem_range'_1]
    omega
  constructor
  · refine List.Nodup.map_on ?_ (List.nodup_range.sublist (List.tail_sublist _))
    intro o ho o' ho' heq
    have hmod : o % cfg.maxCpus = o' % cfg.maxCpus := Nat.ModEq.add_left_cancel' c heq
    rwa [Nat.mod_eq_of_lt ((hmem o).mp ho).2, Nat.mod_eq_of_lt ((hmem o').mp ho').2] at hmod
  · intro v
    rw [victims, List.mem_map]
    constructor
    · rintro ⟨o, ho, rfl⟩
      obtain ⟨ho, hlt⟩ := (hmem o).mp ho
      refine ⟨Nat.mod_lt _ hpos, fun heq => ?_⟩
      obtain hin | hwrap := Nat.lt_or_ge (c + o) cfg.maxCpus
      · rw [Nat.mod_eq_of_lt hin] at heq
        omega
      · rw [Nat.mod_eq_sub_mod hwrap, Nat.mod_eq_of_lt (by omega)] at heq
        omega
    · rintro ⟨hv, hne⟩
      obtain hlt | hge := Nat.lt_or_ge c v
      · refine ⟨v - c, (hmem _).mpr (by omega), ?_⟩
        rw [show c + (v - c) = v by omega, Nat.mod_eq_of_lt hv]
      · refine ⟨v + cfg.maxCpus - c, (hmem _).mpr (by omega), ?_⟩
        rw [show c + (v + cfg.maxCpus - c) = v + cfg.maxCpus by omega, Nat.add_mod_right,
          Nat.mod_eq_of_lt hv]

/-- What `try_steal_task` does, for any number of CPUs. -/
theorem tryStealTask_spec (h : RunQueues cfg s rq) (hc : c < cfg.maxCpus) :
    ∃ rq', RunQueues cfg (tryStealTask cfg s c).2 rq' ∧
      Takes cfg rq rq' (fun v t => (v < cfg.maxCpus ∧ v ≠ c) ∧ Stealable cfg s rq c v t)
        (tryStealTask cfg s c).1 := by
  obtain ⟨hnodup, hvictims⟩ := victims_range hc
  have hstart : RunQueues cfg (s.setCpu c { s.cpuScheds c with
      stealAttempts := (s.cpuScheds c).stealAttempts + 1 }) rq := h.setCpu rfl
  obtain ⟨rq', hq, htakes⟩ := stealFrom_spec hstart _ hnodup
  refine ⟨rq', hq, htakes.congr (fun v t => ?_) fun _ _ => Iff.rfl⟩
  exact and_congr (hvictims v) (stealable_congr (fun _ => rfl) rfl)

/-- Stealing conserves the tasks and respects affinity: a task that may run on the stealing CPU
leaves a queue that had another one, or nothing moves. No queue becomes empty. -/
theorem steal_conserves (h : RunQueues cfg s rq) (hc : c < cfg.maxCpus) :
    ∃ rq', RunQueues cfg (tryStealTask cfg s c).2 rq' ∧
      (∀ d < cfg.maxCpus, members (rq d) ≠ [] → members (rq' d) ≠ []) ∧
      ((∃ t v, (tryStealTask cfg s c).1 = some t ∧ v < cfg.maxCpus ∧ v ≠ c ∧
          cfg.isCpuActive v = true ∧ 1 < (members (rq v)).length ∧ t ∈ members (rq v) ∧
          (s.heap t).canRunOn (UInt32.ofNat c) = true ∧
          ∀ d < cfg.maxCpus, ∀ p, p ∈ members (rq' d) ↔ p ∈ members (rq d) ∧ p ≠ t) ∨
        (tryStealTask cfg s c).1 = none ∧
          ∀ d < cfg.maxCpus, ∀ p, p ∈ members (rq' d) ↔ p ∈ members (rq d)) := by
  obtain ⟨rq', hq, ⟨t, v, hr, ⟨⟨hv, hne⟩, hsteal⟩, hmem⟩ | ⟨hr, -, hmem⟩⟩ := tryStealTask_spec h hc
  · obtain ⟨rest, hm, hrest⟩ := hsteal.exists_cons
    have ht : t ∈ members (rq v) := hm ▸ List.mem_cons_self
    refine ⟨rq', hq, ?_, .inl ⟨t, v, hr, hv, hne, hsteal.active, hsteal.two, ht, hsteal.canRun,
      hmem⟩⟩
    intro d hd hdne
    -- In the victim's queue the task behind the stolen one remains.
    have hother : ∃ p ∈ members (rq d), p ≠ t := by
      by_cases hdv : d = v
      · obtain ⟨p, hp⟩ := List.exists_mem_of_ne_nil rest hrest
        have hnodup := (h.wf v hv).nodup
        rw [hm, List.nodup_cons] at hnodup
        exact ⟨p, hdv ▸ hm ▸ List.mem_cons_of_mem t hp, fun heq => hnodup.1 (heq ▸ hp)⟩
      · obtain ⟨p, hp⟩ := List.exists_mem_of_ne_nil _ hdne
        exact ⟨p, hp, fun heq => hdv (h.apart d hd v hv p hp (heq ▸ ht))⟩
    obtain ⟨p, hp, hpt⟩ := hother
    exact List.ne_nil_of_mem ((hmem d hd p).mpr ⟨hp, hpt⟩)
  · refine ⟨rq', hq, fun d hd hdne => ?_, .inr ⟨hr, hmem⟩⟩
    obtain ⟨p, hp⟩ := List.exists_mem_of_ne_nil _ hdne
    exact List.ne_nil_of_mem ((hmem d hd p).mpr hp)

end

/-! Two CPUs: the first one has nothing but the current task 0, and tasks 1 and 2 are queued on the
second one. -/

def Config.dual : Config where
  taskCap := 4
  taskCap_lt := Nat.le_of_ble_eq_true rfl
  maxCpus := 2
  maxCpus_pos := Nat.succ_pos 1
  usizeBits := 32
  cpuId := 0
  activeMask := 3

def dualHeap (current : TaskState) : Heap := fun p =>
  { TaskControlBlock.new (UInt32.ofNat p) 0 0 0 (min p 1) "" with
    state := if p = 0 then current else .ready }

def dualState (current : TaskState) : State :=
  [1, 2].foldl (fun s p => (enqueueOn .dual s 1 p).2)
    { pool := .new 4 (dualHeap current)
      cpuScheds := fun _ => { CpuScheduler.new with idleTask := some 0 }
      taskIdCounter := 3
      sleepQueue := none
      currentTcb := some 0
      nextTcb := some 0
      ticks := 0 }

def dualLists (cpu i : ℕ) : List TaskPtr := if cpu = 1 ∧ i = 1 then [1, 2] else []

theorem dualState_runQueues {current : TaskState} (h : current = .running ∨ current = .blocked) :
    RunQueues .dual (dualState current) dualLists := by
  refine ⟨fun d hd => ?_, fun d hd p hp => ?_, by decide, by decide⟩
  · have hcases : d = 0 ∨ d = 1 := by
      have hlt : d < 2 := hd
      omega
    obtain rfl | rfl := h <;> obtain rfl | rfl := hcases <;>
      exact ⟨by decide +kernel, by decide +kernel, by decide +kernel, by decide +kernel,
        by decide +kernel, by decide +kernel⟩
  · have hmem : ∀ d < 2, ∀ p ∈ members (dualLists d), p = 1 ∨ p = 2 := by decide
    obtain rfl | rfl := hmem d hd p hp <;> rfl

theorem steal_conserves_dual :
    RunQueues .dual (dualState .running) dualLists ∧ 0 < Config.dual.maxCpus ∧
      ∃ rq', RunQueues .dual (tryStealTask .dual (dualState .running) 0).2 rq' ∧
        (∀ d < Config.dual.maxCpus, members (dualLists d) ≠ [] → members (rq' d) ≠ []) ∧
        ((∃ t v, (tryStealTask .dual (dualState .running) 0).1 = some t ∧
            v < Config.dual.maxCpus ∧ v ≠ 0 ∧ Config.dual.isCpuActive v = true ∧
            1 < (members (dualLists v)).length ∧ t ∈ members (dualLists v) ∧
            ((dualState .running).heap t).canRunOn (UInt32.ofNat 0) = true ∧
            ∀ d < Config.dual.maxCpus, ∀ p,
              p ∈ members (rq' d) ↔ p ∈ members (dualLists d) ∧ p ≠ t) ∨
          (tryStealTask .dual (dualState .running) 0).1 = none ∧
            ∀ d < Config.dual.maxCpus, ∀ p,
              p ∈ members (rq' d) ↔ p ∈ members (dualLists d)) :=
  ⟨dualState_runQueues (.inl rfl), Nat.succ_pos 1,
    steal_conserves (dualState_runQueues (.inl rfl)) (Nat.succ_pos 1)⟩

end OpenIon.Sched
