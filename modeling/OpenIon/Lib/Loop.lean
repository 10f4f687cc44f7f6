import Mathlib.Data.List.Basic
import Mathlib.Data.List.Range

/-! # Counted loops

`forRange n f a` runs `f 0`, …, `f (n - 1)` and threads an accumulator. A loop is
reasoned about by an invariant that is indexed by the number of turns taken.
-/
namespace OpenIon.Lib

variable {α : Type*}

def forRange (n : ℕ) (f : ℕ → α → α) (a : α) : α := (List.range n).foldl (fun b i => f i b) a

@[simp] theorem forRange_zero (f : ℕ → α → α) (a : α) : forRange 0 f a = a := rfl

theorem forRange_succ (n : ℕ) (f : ℕ → α → α) (a : α) :
    forRange (n + 1) f a = f n (forRange n f a) := by
  simp [forRange, List.range_succ]

/-- What holds before the first turn and is kept by every turn holds at the end. -/
theorem forRange_induction {n : ℕ} {f : ℕ → α → α} {a : α} (P : ℕ → α → Prop) (hzero : P 0 a)
    (hsucc : ∀ i < n, ∀ b, P i b → P (i + 1) (f i b)) : P n (forRange n f a) := by
  induction n with
  | zero => exact hzero
  | succ n ih =>
    rw [forRange_succ]
    apply hsucc n (Nat.lt_succ_self n)
    apply ih
    intro i hi b hb
    exact hsucc i (by omega) b hb

end OpenIon.Lib
