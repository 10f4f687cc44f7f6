import OpenIon.Lib.Bitmap
import OpenIon.Lib.Chain
import OpenIon.Sched.ReadyQueue.Operations

/-! # Well-formed ready queues

`Wf q h rq` says that the queue stored in `q` and in the links of `h` is the
family of lists `rq`, indexed by priority, and that the bitmap and the counter
agree with it.
-/
namespace OpenIon.Sched
open Lib

def members (rq : ℕ → List TaskPtr) : List TaskPtr := (List.range maxPriorities).flatMap rq

theorem mem_members {rq : ℕ → List TaskPtr} {p : TaskPtr} :
    p ∈ members rq ↔ ∃ i < maxPriorities, p ∈ rq i := by
  simp [members]

theorem length_le_of_nodup {l : List TaskPtr} {n : ℕ} (hnodup : l.Nodup) (hlt : ∀ a ∈ l, a < n) :
    l.length ≤ n := by
  have hsub : l ⊆ List.range n := fun a ha => List.mem_range.mpr (hlt a ha)
  have hlen := (List.subperm_of_subset hnodup hsub).length_le
  rwa [List.length_range] at hlen

theorem highestPriority_spec (mask : BitVec 8) (h : mask ≠ 0) :
    highestPriority mask < 8 ∧ mask.getLsbD (highestPriority mask) = true ∧
      ∀ j < 8, highestPriority mask < j → mask.getLsbD j = false := by
  revert mask
  decide +kernel

theorem lowestPriority_spec (mask : BitVec 8) (h : mask ≠ 0) :
    lowestPriority mask < 8 ∧ mask.getLsbD (lowestPriority mask) = true ∧
      ∀ j < lowestPriority mask, mask.getLsbD j = false := by
  revert mask
  decide +kernel

namespace ReadyQueue

/-- The stored queue is the family of lists `rq`, indexed by priority. -/
structure Wf (q : ReadyQueue) (h : Heap) (rq : ℕ → List TaskPtr) : Prop where
  chain : ∀ i < maxPriorities, Chain h.next (q.queues i).head (rq i)
  tail : ∀ i < maxPriorities, (q.queues i).tail = (rq i).getLast?
  bits : ∀ i < maxPriorities, (q.nonEmpty.getLsbD i = true ↔ rq i ≠ [])
  count : q.taskCount = (members rq).length
  priority : ∀ i < maxPriorities, ∀ p ∈ rq i, (h p).priority = i
  queued : ∀ i < maxPriorities, ∀ p ∈ rq i, (h p).queued = true

variable {q : ReadyQueue} {h h' : Heap} {rq : ℕ → List TaskPtr} {p : TaskPtr}

theorem new_wf (h : Heap) : new.Wf h (fun _ => []) where
  chain i hi := rfl
  tail i hi := rfl
  bits i hi := by simp [new]
  count := by simp [new, members]
  priority i hi p hp := by simp at hp
  queued i hi p hp := by simp at hp

theorem Wf.mem_iff (w : q.Wf h rq) :
    p ∈ members rq ↔ (h p).priority < maxPriorities ∧ p ∈ rq (h p).priority := by
  rw [mem_members]
  constructor
  · rintro ⟨i, hi, hp⟩
    rw [w.priority i hi p hp]
    exact ⟨hi, hp⟩
  · intro hp
    exact ⟨_, hp⟩

theorem Wf.queued_of_mem (w : q.Wf h rq) (hp : p ∈ members rq) : (h p).queued = true := by
  rcases mem_members.mp hp with ⟨i, hi, hp⟩
  exact w.queued i hi p hp

/-- Lists of different priorities share no task, so no task is listed twice. -/
theorem Wf.nodup (w : q.Wf h rq) : (members rq).Nodup := by
  apply List.nodup_flatMap.mpr
  constructor
  · intro i hi
    exact (w.chain i (List.mem_range.mp hi)).nodup
  · apply List.Nodup.pairwise_of_forall_ne List.nodup_range
    intro i hi j hj hij p hpi hpj
    apply hij
    rw [← w.priority i (List.mem_range.mp hi) p hpi, w.priority j (List.mem_range.mp hj) p hpj]

theorem Wf.room (w : q.Wf h rq) {n : ℕ} (hp : p ∉ members rq) (hlt : p < n)
    (hall : ∀ a ∈ members rq, a < n) : q.taskCount < n := by
  have hlen := length_le_of_nodup (List.nodup_cons.mpr ⟨hp, w.nodup⟩)
    (List.forall_mem_cons.mpr ⟨hlt, hall⟩)
  rw [List.length_cons, ← w.count] at hlen
  exact hlen

theorem Wf.nonEmpty_eq_zero_iff (w : q.Wf h rq) : q.nonEmpty = 0 ↔ members rq = [] := by
  constructor
  · intro hz
    apply List.eq_nil_iff_forall_not_mem.mpr
    intro p hp
    rcases mem_members.mp hp with ⟨i, hi, hpi⟩
    have hbit := (w.bits i hi).mpr (List.ne_nil_of_mem hpi)
    simp [hz] at hbit
  · intro hnil
    by_contra hz
    have hs := highestPriority_spec q.nonEmpty hz
    have hne := (w.bits _ hs.1).mp hs.2.1
    rcases List.exists_mem_of_ne_nil _ hne with ⟨p, hp⟩
    have hmem := mem_members.mpr ⟨_, hs.1, hp⟩
    simp [hnil] at hmem

theorem Wf.isEmpty_iff (w : q.Wf h rq) : q.isEmpty = true ↔ members rq = [] := by
  simp [isEmpty, w.count]

/-- The queue depends only on the link, priority and flag of its own tasks. -/
theorem Wf.congr (w : q.Wf h rq) (hnext : ∀ p ∈ members rq, (h' p).next = (h p).next)
    (hprio : ∀ p ∈ members rq, (h' p).priority = (h p).priority)
    (hqueued : ∀ p ∈ members rq, (h' p).queued = (h p).queued) : q.Wf h' rq where
  chain i hi := (w.chain i hi).congr fun p hp => hnext p (mem_members.mpr ⟨i, hi, hp⟩)
  tail := w.tail
  bits := w.bits
  count := w.count
  priority i hi p hp := (hprio p (mem_members.mpr ⟨i, hi, hp⟩)).trans (w.priority i hi p hp)
  queued i hi p hp := (hqueued p (mem_members.mpr ⟨i, hi, hp⟩)).trans (w.queued i hi p hp)

theorem Wf.of_same (w : q.Wf h rq) (hsame : ∀ a ∈ members rq, h' a = h a) : q.Wf h' rq :=
  w.congr (fun a ha => by rw [hsame a ha]) (fun a ha => by rw [hsame a ha])
    fun a ha => by rw [hsame a ha]

/-- The block of a task that is not queued may be changed. -/
theorem Wf.set (w : q.Wf h rq) (hp : p ∉ members rq) (t : TaskControlBlock) :
    q.Wf (h.set p t) rq :=
  w.of_same fun _ ha => Heap.set_of_ne fun heq => hp (heq ▸ ha)

end ReadyQueue

/-- Replacing one list of a family changes the number of tasks by the difference. -/
theorem members_update_length (rq : ℕ → List TaskPtr) (l : List TaskPtr) {i : ℕ}
    (hi : i < maxPriorities) :
    (members (Function.update rq i l)).length + (rq i).length =
      (members rq).length + l.length := by
  unfold members
  generalize maxPriorities = n at hi
  induction n with
  | zero => omega
  | succ n ih =>
    simp only [List.range_succ, List.flatMap_append, List.length_append, List.flatMap_singleton]
    by_cases hin : i = n
    · subst hin
      have hsame : (List.range i).flatMap (Function.update rq i l) = (List.range i).flatMap rq := by
        apply List.flatMap_congr
        intro j hj
        exact Function.update_of_ne (Nat.ne_of_lt (List.mem_range.mp hj)) _ _
      rw [hsame, Function.update_self]
      omega
    · rw [Function.update_of_ne (Ne.symm hin)]
      have := ih (by omega)
      omega

end OpenIon.Sched
