import Mathlib.Data.Fintype.Pigeonhole

/-! # Iterating a partial function

`iter f n a` applies `f` to `a` up to `n` times. On a finite type the iteration from `a`
comes to an end exactly when it meets no element twice.
-/
namespace OpenIon.Lib

variable {α : Type*} {f : α → Option α} {a b : α} {m n : ℕ}

def iter (f : α → Option α) : ℕ → α → Option α
  | 0, a => some a
  | n + 1, a => (f a).bind (iter f n)

/-- After finitely many applications there is nothing to go on with. -/
def Halts (f : α → Option α) (a : α) : Prop := ∃ n, iter f n a = none

@[simp] theorem iter_zero : iter f 0 a = some a := rfl

theorem iter_succ : iter f (n + 1) a = (f a).bind (iter f n) := rfl

theorem iter_add : iter f (m + n) a = (iter f m a).bind (iter f n) := by
  induction m generalizing a with
  | zero => simp
  | succ m ih =>
    rw [Nat.succ_add, iter_succ, iter_succ]
    cases f a with
    | none => rfl
    | some b => exact ih

theorem iter_succ_last : iter f (n + 1) a = (iter f n a).bind f := by
  rw [iter_add]
  cases iter f n a with
  | none => rfl
  | some b => cases h : f b <;> simp [iter, h]

theorem halts_of_none (h : f a = none) : Halts f a := ⟨1, by simp [iter, h]⟩

theorem halts_iff_of_some (h : f a = some b) : Halts f a ↔ Halts f b := by
  constructor
  · rintro ⟨n, hn⟩
    cases n with
    | zero => simp at hn
    | succ n => exact ⟨n, by simpa [iter_succ, h] using hn⟩
  · rintro ⟨n, hn⟩
    exact ⟨n + 1, by simpa [iter_succ, h] using hn⟩

theorem iter_mul_of_cycle (h : iter f m a = some a) (k : ℕ) : iter f (k * m) a = some a := by
  induction k with
  | zero => simp
  | succ k ih => rw [Nat.succ_mul, iter_add, ih, Option.bind_some, h]

theorem not_halts_of_cycle (hm : 0 < m) (h : iter f m a = some a) : ¬ Halts f a := by
  rintro ⟨n, hn⟩
  -- past the end there is nothing, but some multiple of `m` lies past `n`
  have hpast : iter f (n + (n * m - n)) a = none := by rw [iter_add, hn]; rfl
  rw [Nat.add_sub_of_le (Nat.le_mul_of_pos_right n hm), iter_mul_of_cycle h] at hpast
  exact Option.some_ne_none a hpast

theorem halts_of_measure (μ : α → ℕ) (h : ∀ a b, f a = some b → μ b < μ a) : Halts f a := by
  induction hk : μ a using Nat.strong_induction_on generalizing a with
  | _ k ih =>
    cases hf : f a with
    | none => exact halts_of_none hf
    | some b =>
      rw [halts_iff_of_some hf]
      exact ih (μ b) (hk ▸ h a b hf) rfl

theorem Halts.iter (ha : Halts f a) (h : iter f m a = some b) : Halts f b := by
  induction m generalizing a with
  | zero => exact Option.some.inj h ▸ ha
  | succ m ih =>
    obtain ⟨c, hc, hrest⟩ := Option.bind_eq_some_iff.mp h
    exact ih ((halts_iff_of_some hc).mp ha) hrest

/-- No element is met twice on the way from `a`. -/
def NoRepeat (f : α → Option α) (a : α) : Prop :=
  ∀ i j x, Lib.iter f i a = some x → Lib.iter f j a = some x → i = j

theorem Halts.noRepeat (ha : Halts f a) : NoRepeat f a := by
  intro i j x hi hj
  wlog hlt : i ≤ j generalizing i j
  · exact (this j i hj hi (by omega)).symm
  by_contra hne
  refine not_halts_of_cycle (m := j - i) (by omega) ?_ (ha.iter hi)
  rwa [← Nat.add_sub_of_le hlt, iter_add, hi] at hj

theorem halts_iff_noRepeat [Finite α] : Halts f a ↔ NoRepeat f a := by
  refine ⟨Halts.noRepeat, fun h => ?_⟩
  by_contra hnot
  -- an iteration without an end would number infinitely many different elements
  have hsome : ∀ n, ∃ x, Lib.iter f n a = some x := fun n =>
    Option.ne_none_iff_exists'.mp fun hn => hnot ⟨n, hn⟩
  choose x hx using hsome
  obtain ⟨i, j, hne, heq⟩ := Finite.exists_ne_map_eq_of_infinite x
  exact hne (h i j (x i) (hx i) (heq ▸ hx j))

end OpenIon.Lib
