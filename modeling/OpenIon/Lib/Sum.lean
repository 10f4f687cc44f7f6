import Mathlib.Algebra.BigOperators.Group.Finset.Basic
import Mathlib.Algebra.BigOperators.Intervals
import Mathlib.Tactic.Ring

/-! # Sums over a table

A table of `n` entries is a function whose values below `n` count. Writing one
entry changes a sum over the table by the change of that entry.
-/
namespace OpenIon.Lib

variable {β : Type*} {n c : ℕ}

theorem sum_range_update (g : β → ℕ) (hc : c < n) (f : ℕ → β) (x : β) :
    ∑ i ∈ Finset.range n, g (Function.update f c x i) + g (f c) =
      ∑ i ∈ Finset.range n, g (f i) + g x := by
  have hmem : c ∈ Finset.range n := Finset.mem_range.mpr hc
  have hrest : ∑ i ∈ (Finset.range n).erase c, g (Function.update f c x i) =
      ∑ i ∈ (Finset.range n).erase c, g (f i) := by
    apply Finset.sum_congr rfl
    intro i hi
    rw [Function.update_of_ne (Finset.ne_of_mem_erase hi)]
  rw [← Finset.add_sum_erase _ _ hmem, ← Finset.add_sum_erase _ _ hmem, hrest,
    Function.update_self]
  ring

theorem countP_range (p : ℕ → Bool) :
    (List.range n).countP p = ∑ i ∈ Finset.range n, (p i).toNat := by
  induction n with
  | zero => rfl
  | succ n ih =>
    rw [List.range_succ, List.countP_append, ih, Finset.sum_range_succ]
    cases h : p n with
    | false => simp [h]
    | true => simp [h]

end OpenIon.Lib
