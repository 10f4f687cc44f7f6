import OpenIon.Lib.Chain

/-! # Static object pool

The slab of `mm/slab.rs`: `N` slots, the free ones threaded through `nextFree`,
where an index of at least `N` ends the list. A pointer to an object is the
index of its slot. `MaybeUninit` is split into the stored value and the flag
`live` saying whether the slot currently holds an initialised object.
-/
namespace OpenIon.Mm
open Lib

variable {α : Type*}

structure Slab (α : Type*) where
  data : ℕ → α
  live : ℕ → Bool
  nextFree : ℕ → ℕ
  freeHead : Option ℕ
  freeCount : ℕ

namespace Slab

/-- The pool at start-up; `uninit` is whatever the uninitialised storage holds. -/
def new (N : ℕ) (uninit : ℕ → α) : Slab α where
  data := uninit
  live _ := false
  nextFree i := i + 1
  freeHead := if 0 < N then some 0 else none
  freeCount := N

def alloc (N : ℕ) (s : Slab α) (val : α) : Option (ℕ × Slab α) :=
  match s.freeHead with
  | some idx =>
    let next := s.nextFree idx
    some (idx, { data := Function.update s.data idx val
                 live := Function.update s.live idx true
                 nextFree := s.nextFree
                 freeHead := if next < N then some next else none
                 freeCount := s.freeCount - 1 })
  | none => none

def free (N : ℕ) (s : Slab α) (idx : ℕ) : Slab α :=
  if N ≤ idx then s else
    { data := s.data
      live := Function.update s.live idx false
      nextFree := Function.update s.nextFree idx (s.freeHead.getD N)
      freeHead := some idx
      freeCount := s.freeCount + 1 }

def link (N : ℕ) (s : Slab α) (i : ℕ) : Option ℕ :=
  if s.nextFree i < N then some (s.nextFree i) else none

/-- The free list, followed from its head, visits exactly the slots that are not live. -/
structure Wf (N : ℕ) (s : Slab α) (fl : List ℕ) : Prop where
  chain : Chain (s.link N) s.freeHead fl
  mem_iff : ∀ i, i ∈ fl ↔ i < N ∧ s.live i = false
  live_lt : ∀ i, s.live i = true → i < N
  count : s.freeCount = fl.length

theorem chain_succ (N k i : ℕ) (hk : i + k = N) (next : ℕ → Option ℕ)
    (hnext : ∀ j, next j = if j + 1 < N then some (j + 1) else none) :
    Chain next (if i < N then some i else none) (List.range' i k) := by
  induction k generalizing i with
  | zero => simp [show ¬ i < N by omega]
  | succ k ih =>
    rw [List.range'_succ, if_pos (by omega)]
    refine ⟨rfl, ?_⟩
    rw [hnext i]
    exact ih (i + 1) (by omega)

theorem new_wf (N : ℕ) (uninit : ℕ → α) : (new N uninit).Wf N (List.range' 0 N) where
  chain := chain_succ N N 0 (by omega) _ (fun _ => rfl)
  mem_iff i := by simp [new, List.mem_range'_1]
  live_lt i h := by simp [new] at h
  count := by simp [new]

variable {N : ℕ} {s s' : Slab α} {fl : List ℕ} {val : α} {idx : ℕ}

theorem Wf.setData (h : s.Wf N fl) (data : ℕ → α) : ({ s with data := data } : Slab α).Wf N fl :=
  ⟨h.chain, h.mem_iff, h.live_lt, h.count⟩

/-- `alloc` returns the head of the free list, which was not live, and takes it off the list. -/
theorem Wf.alloc (h : s.Wf N fl) (ha : s.alloc N val = some (idx, s')) :
    ∃ rest, fl = idx :: rest ∧ s'.Wf N rest ∧ s.live idx = false ∧ idx < N ∧
      s'.data = Function.update s.data idx val ∧ s'.live = Function.update s.live idx true := by
  unfold Slab.alloc at ha
  split at ha
  · rename_i head hhead
    simp only [Option.some.injEq, Prod.mk.injEq] at ha
    obtain ⟨rfl, rfl⟩ := ha
    cases fl with
    | nil => simp [h.chain.head_eq] at hhead
    | cons a rest =>
      obtain rfl : a = head := by simpa [h.chain.head_eq] using hhead
      have hfree := (h.mem_iff a).mp List.mem_cons_self
      have hnodup := List.nodup_cons.mp h.chain.nodup
      refine ⟨rest, rfl, ⟨?_, fun i => ?_, fun i hi => ?_, ?_⟩, hfree.2, hfree.1, rfl, rfl⟩
      · exact h.chain.2
      · by_cases hia : i = a
        · subst hia
          simp [hnodup.1]
        · have hi := h.mem_iff i
          simpa [Function.update_of_ne hia, hia] using hi
      · by_cases hia : i = a
        · exact hia ▸ hfree.1
        · exact h.live_lt i (by simpa [Function.update_of_ne hia] using hi)
      · simp [h.count]
  · simp at ha

/-- `alloc` fails exactly when every slot is live. -/
theorem Wf.alloc_eq_none (h : s.Wf N fl) : s.alloc N val = none ↔ fl = [] := by
  rw [← h.chain.eq_nil_iff]
  unfold Slab.alloc
  cases s.freeHead <;> simp

end Slab

end OpenIon.Mm
