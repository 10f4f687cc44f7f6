import Mathlib.Data.List.Basic
import Mathlib.Data.Nat.ModEq
import Mathlib.Logic.Function.Basic

/-! # Lists in a cyclic array

`Holds cap data start l` says that the list stands in an array of `cap` cells from `start` on and
goes on at the first cell after the last.
-/
namespace OpenIon.Lib.Ring

variable {α : Type*} {cap start : ℕ} {data : ℕ → α} {l : List α} {x : α}

def Holds (cap : ℕ) (data : ℕ → α) (start : ℕ) (l : List α) : Prop :=
  ∀ i (h : i < l.length), data ((start + i) % cap) = l[i]

theorem Holds.nil : Holds cap data start [] := fun i h => absurd h (Nat.not_lt_zero i)

theorem add_mod_ne {i j : ℕ} (hj : j < cap) (hij : i < j) :
    (start + i) % cap ≠ (start + j) % cap := by
  intro h
  have hmod : i ≡ j [MOD cap] := Nat.ModEq.add_left_cancel' start h
  rw [Nat.ModEq, Nat.mod_eq_of_lt (hij.trans hj), Nat.mod_eq_of_lt hj] at hmod
  omega

/-- With one cell left, the end comes back to the start when the next cell is taken. -/
theorem end_add_one_eq_iff {n : ℕ} (hstart : start < cap) (hn : n < cap) :
    ((start + n) % cap + 1) % cap = start ↔ n + 1 = cap := by
  rw [Nat.mod_add_mod, Nat.add_assoc]
  constructor
  · intro heq
    by_contra hne
    have hends : (start + 0) % cap ≠ (start + (n + 1)) % cap :=
      add_mod_ne (Nat.lt_of_le_of_ne hn hne) (Nat.succ_pos n)
    rw [Nat.add_zero, Nat.mod_eq_of_lt hstart] at hends
    exact hends heq.symm
  · intro heq
    rw [heq, Nat.add_mod_right, Nat.mod_eq_of_lt hstart]

/-- The end is at the start only when nothing is between them. -/
theorem start_eq_end_iff {n : ℕ} (hstart : start < cap) (hn : n < cap) :
    start = (start + n) % cap ↔ n = 0 := by
  constructor
  · intro heq
    by_contra hne
    have hends : (start + 0) % cap ≠ (start + n) % cap := add_mod_ne hn (Nat.pos_of_ne_zero hne)
    rw [Nat.add_zero, Nat.mod_eq_of_lt hstart] at hends
    exact hends heq
  · intro heq
    rw [heq, Nat.add_zero, Nat.mod_eq_of_lt hstart]

/-- The cells from `start` up to `stop` hold the list, and at least one cell is left. -/
structure Filled (cap : ℕ) (data : ℕ → α) (start stop : ℕ) (l : List α) : Prop where
  holds : Holds cap data start l
  room : l.length < cap
  start_lt : start < cap
  stop_eq : stop = (start + l.length) % cap

namespace Filled

variable {stop : ℕ}

theorem full_iff (h : Filled cap data start stop l) :
    (stop + 1) % cap = start ↔ l.length + 1 = cap := by
  rw [h.stop_eq]
  exact end_add_one_eq_iff h.start_lt h.room

theorem free_of_ne (h : Filled cap data start stop l) (hne : (stop + 1) % cap ≠ start) :
    l.length + 1 < cap :=
  Nat.lt_of_le_of_ne h.room fun heq => hne (h.full_iff.mpr heq)

theorem empty_iff (h : Filled cap data start stop l) : start = stop ↔ l = [] := by
  rw [h.stop_eq, ← List.length_eq_zero_iff]
  exact start_eq_end_iff h.start_lt h.room

/-- The cell after the last may be overwritten. -/
theorem write (h : Filled cap data start stop l) :
    Filled cap (Function.update data stop x) start stop l := by
  refine ⟨fun i hi => ?_, h.room, h.start_lt, h.stop_eq⟩
  rw [h.stop_eq, Function.update_of_ne (add_mod_ne h.room hi)]
  exact h.holds i hi

theorem push (h : Filled cap data start stop l) (hfree : l.length + 1 < cap)
    (hx : data stop = x) : Filled cap data start ((stop + 1) % cap) (l ++ [x]) := by
  have hlength : (l ++ [x]).length = l.length + 1 := by simp
  refine ⟨fun i hi => ?_, hlength ▸ hfree, h.start_lt, ?_⟩
  · rw [List.getElem_append]
    split_ifs with hlt
    · exact h.holds i hlt
    · obtain rfl : i = l.length := by omega
      rw [← h.stop_eq]
      simpa using hx
  · rw [h.stop_eq, Nat.mod_add_mod, hlength, Nat.add_assoc]

theorem head (h : Filled cap data start stop (x :: l)) : data start = x := by
  have hfirst := h.holds 0 (Nat.succ_pos _)
  rwa [Nat.add_zero, Nat.mod_eq_of_lt h.start_lt] at hfirst

theorem tail (h : Filled cap data start stop (x :: l)) :
    Filled cap data ((start + 1) % cap) stop l := by
  refine ⟨fun i hi => ?_, (Nat.lt_succ_self _).trans h.room,
    Nat.mod_lt _ (Nat.zero_lt_of_lt h.start_lt), ?_⟩
  · rw [Nat.mod_add_mod, Nat.add_assoc, Nat.add_comm 1 i]
    exact h.holds (i + 1) (Nat.succ_lt_succ hi)
  · rw [h.stop_eq, Nat.mod_add_mod, List.length_cons, Nat.add_assoc, Nat.add_comm 1]

end Filled

end OpenIon.Lib.Ring
