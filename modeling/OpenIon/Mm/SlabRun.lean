import OpenIon.Lib.Run
import OpenIon.Mm.Slab

/-! # Histories of a slab

Objects are known to callers by their addresses: slot `i` is at `base + i * size`, and `free`
finds the slot of an address by division. After any history in which only allocated objects
are freed, the free list is the slots that are not live, and an allocation or a `free`
changes one slot only.
-/
namespace OpenIon.Mm
open Lib

/-- Where the slots are. Objects of size zero have no addresses of their own. -/
structure Storage where
  base : ℕ
  size : ℕ
  size_pos : 0 < size

def Storage.ptr (st : Storage) (i : ℕ) : ℕ := st.base + i * st.size

def Storage.index (st : Storage) (p : ℕ) : ℕ := (p - st.base) / st.size

theorem Storage.index_ptr (st : Storage) (i : ℕ) : st.index (st.ptr i) = i := by
  rw [index, ptr, Nat.add_sub_cancel_left, Nat.mul_div_cancel i st.size_pos]

inductive Request (α : Type*) where
  | alloc (val : α)
  | free (p : ℕ)

namespace Slab

variable {α : Type*}

def allocPtr (N : ℕ) (st : Storage) (s : Slab α) (val : α) : Option (ℕ × Slab α) :=
  (s.alloc N val).map fun r => (st.ptr r.1, r.2)

def freePtr (N : ℕ) (st : Storage) (s : Slab α) (p : ℕ) : Slab α := s.free N (st.index p)

/-- Only the address of an object that is allocated may be freed. -/
def request (N : ℕ) (st : Storage) (s : Slab α) : Request α → Option (Slab α)
  | .alloc val => some (((s.allocPtr N st val).map Prod.snd).getD s)
  | .free p =>
    if ∃ i < N, s.live i = true ∧ p = st.ptr i then some (s.freePtr N st p) else none

def contents (s : Slab α) (i : ℕ) : Option α := if s.live i then some (s.data i) else none

def liveCount (N : ℕ) (s : Slab α) : ℕ := ((List.range N).filter s.live).length

structure Sound (N : ℕ) (st : Storage) (s : Slab α) : Prop where
  freeList : ∃ fl, Chain (s.link N) s.freeHead fl ∧ fl.Nodup ∧
    ∀ i, i ∈ fl ↔ i < N ∧ s.live i = false
  freeCount : s.freeCount + s.liveCount N = N
  alloc_eq_none : ∀ val, s.allocPtr N st val = none ↔ s.liveCount N = N
  alloc : ∀ val p s', s.allocPtr N st val = some (p, s') →
    ∃ i < N, p = st.ptr i ∧ s.live i = false ∧
      s'.contents = Function.update s.contents i (some val)
  free : ∀ i < N, s.live i = true →
    (s.freePtr N st (st.ptr i)).contents = Function.update s.contents i none

variable {N : ℕ} {st : Storage} {s s' : Slab α} {fl : List ℕ} {val : α} {i : ℕ}

theorem Wf.free (h : s.Wf N fl) (hi : i < N) (hlive : s.live i = true) :
    (s.free N i).Wf N (i :: fl) := by
  have hnot : i ∉ fl := by
    intro hmem
    simp [((h.mem_iff i).mp hmem).2] at hlive
  rw [Slab.free, if_neg (Nat.not_le.mpr hi)]
  constructor
  · refine ⟨rfl, ?_⟩
    have hhead : (if s.freeHead.getD N < N then some (s.freeHead.getD N) else none) = s.freeHead := by
      cases hf : s.freeHead with
      | none => simp
      | some a =>
        have ha : a ∈ fl := List.mem_of_mem_head? (h.chain.head_eq ▸ hf)
        simp [((h.mem_iff a).mp ha).1]
    simp only [link, Function.update_self, hhead]
    refine h.chain.congr fun a ha => ?_
    have hai : a ≠ i := fun heq => hnot (heq ▸ ha)
    simp only [link, Function.update_of_ne hai]
  · intro a
    by_cases hai : a = i
    · simp [hai, hi]
    · simpa [hai] using h.mem_iff a
  · intro a ha
    by_cases hai : a = i
    · exact hai ▸ hi
    · exact h.live_lt a (by simpa [Function.update_of_ne hai] using ha)
  · simp [h.count]

/-- The live slots are the ones that are not in the free list. -/
theorem Wf.length_add_liveCount (h : s.Wf N fl) : fl.length + s.liveCount N = N := by
  have hperm : fl.Perm ((List.range N).filter fun i => !s.live i) := by
    apply (List.perm_ext_iff_of_nodup h.chain.nodup (List.nodup_range.filter _)).mpr
    intro a
    rw [h.mem_iff, List.mem_filter, List.mem_range, Bool.not_eq_true']
  have hsplit := List.length_eq_length_filter_add (l := List.range N) s.live
  rw [List.length_range, ← hperm.length_eq] at hsplit
  rw [liveCount]
  omega

theorem contents_alloc (hdata : s'.data = Function.update s.data i val)
    (hlive : s'.live = Function.update s.live i true) :
    s'.contents = Function.update s.contents i (some val) := by
  funext j
  rw [contents, hdata, hlive]
  by_cases hj : j = i
  · simp [hj]
  · simp [hj, contents]

theorem contents_free (hi : i < N) :
    (s.free N i).contents = Function.update s.contents i none := by
  funext j
  rw [contents, Slab.free, if_neg (Nat.not_le.mpr hi)]
  by_cases hj : j = i
  · simp [hj]
  · simp [hj, contents]

theorem Wf.sound (h : s.Wf N fl) (st : Storage) : s.Sound N st where
  freeList := ⟨fl, h.chain, h.chain.nodup, h.mem_iff⟩
  freeCount := by rw [h.count, h.length_add_liveCount]
  alloc_eq_none val := by
    have hlen := h.length_add_liveCount
    rw [allocPtr, Option.map_eq_none_iff, h.alloc_eq_none, ← List.length_eq_zero_iff]
    omega
  alloc val p s' ha := by
    rw [allocPtr, Option.map_eq_some_iff] at ha
    rcases ha with ⟨⟨i, s₁⟩, hs₁, heq⟩
    cases heq
    rcases h.alloc hs₁ with ⟨rest, -, -, hlive, hi, hdata, hlive'⟩
    exact ⟨i, hi, rfl, hlive, contents_alloc hdata hlive'⟩
  free i hi _ := by rw [freePtr, st.index_ptr, contents_free hi]

theorem Wf.request (h : s.Wf N fl) {r : Request α} (hr : s.request N st r = some s') :
    ∃ fl', s'.Wf N fl' := by
  cases r with
  | alloc val =>
    cases hr
    cases ha : s.alloc N val with
    | none =>
      rw [allocPtr, ha]
      exact ⟨fl, h⟩
    | some r =>
      rcases h.alloc ha with ⟨rest, -, hrest, -⟩
      rw [allocPtr, ha]
      exact ⟨rest, hrest⟩
  | free p =>
    rw [Slab.request, Option.ite_none_right_eq_some] at hr
    rcases hr with ⟨⟨i, hi, hlive, rfl⟩, heq⟩
    cases heq
    rw [freePtr, st.index_ptr]
    exact ⟨i :: fl, h.free hi hlive⟩

/-- After every history that frees allocated objects only, the pool is sound. -/
theorem sound_of_run (N : ℕ) (st : Storage) (uninit : ℕ → α) (reqs : List (Request α)) (s : Slab α)
    (hrun : run (request N st) (new N uninit) reqs = some s) : s.Sound N st := by
  have hwf : ∃ fl, s.Wf N fl := by
    refine run_preserves (P := fun s => ∃ fl, s.Wf N fl) ?_ ⟨_, new_wf N uninit⟩ hrun
    rintro s r s' ⟨fl, h⟩ hr
    exact h.request hr
  rcases hwf with ⟨fl, h⟩
  exact h.sound st

theorem sound_of_run_two : ∃ s : Slab ℕ,
    run (request 2 ⟨64, 16, by decide⟩) (new 2 fun _ => 0)
      [.alloc 7, .alloc 8, .alloc 9, .free 64, .alloc 9, .free 80] = some s ∧
    s.Sound 2 ⟨64, 16, by decide⟩ := by
  have hsome : (run (request 2 ⟨64, 16, by decide⟩) (new 2 fun _ => 0)
      [.alloc 7, .alloc 8, .alloc 9, .free 64, .alloc 9, .free 80]).isSome = true := by decide
  obtain ⟨s, hs⟩ := Option.isSome_iff_exists.mp hsome
  exact ⟨s, hs, sound_of_run 2 _ _ _ s hs⟩

end Slab

end OpenIon.Mm
