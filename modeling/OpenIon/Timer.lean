import Mathlib.Algebra.Group.Nat.Defs
import Mathlib.Logic.Function.Iterate

/-! # The tick timer

`timer.rs`: a 32-bit count of ticks and the microseconds of one tick. The time is their product in
64 bits, so it goes back to zero when the count wraps around.
-/
namespace OpenIon

structure Timer where
  tickUs : UInt32
  ticks : UInt32
  deriving DecidableEq

namespace Timer

/-- A frequency of zero is a division by zero. -/
def init (t : Timer) (systickHz : UInt32) : Option Timer :=
  if systickHz = 0 then none else some { t with tickUs := 1000000 / systickHz }

/-- `fetch_add` wraps around. -/
def tick (t : Timer) : Timer := { t with ticks := t.ticks + 1 }

/-- The product of two 32-bit numbers does not overflow in 64 bits. -/
def timeUs (t : Timer) : UInt64 := t.ticks.toUInt64 * t.tickUs.toUInt64

theorem toNat_timeUs (t : Timer) : t.timeUs.toNat = t.ticks.toNat * t.tickUs.toNat := by
  have hle : t.ticks.toNat * t.tickUs.toNat ≤ (2 ^ 32 - 1) * (2 ^ 32 - 1) :=
    Nat.mul_le_mul (Nat.le_pred_of_lt t.ticks.toNat_lt) (Nat.le_pred_of_lt t.tickUs.toNat_lt)
  rw [timeUs, UInt64.toNat_mul, UInt32.toNat_toUInt64, UInt32.toNat_toUInt64]
  exact Nat.mod_eq_of_lt (Nat.lt_of_le_of_lt hle (by decide))

theorem tickUs_iterate (t : Timer) (n : ℕ) : (tick^[n] t).tickUs = t.tickUs := by
  induction n with
  | zero => rfl
  | succ n ih =>
    rw [Function.iterate_succ_apply']
    exact ih

theorem toNat_ticks_iterate (t : Timer) (n : ℕ) :
    (tick^[n] t).ticks.toNat = (t.ticks.toNat + n) % 2 ^ 32 := by
  induction n with
  | zero => exact (Nat.mod_eq_of_lt t.ticks.toNat_lt).symm
  | succ n ih =>
    rw [Function.iterate_succ_apply', tick, UInt32.toNat_add, ih, ← Nat.add_assoc]
    exact Nat.mod_add_mod _ _ _

theorem toNat_timeUs_iterate (t : Timer) (n : ℕ) :
    (tick^[n] t).timeUs.toNat = (t.ticks.toNat + n) % 2 ^ 32 * t.tickUs.toNat := by
  rw [toNat_timeUs, toNat_ticks_iterate, tickUs_iterate]

theorem init_eq_some {t t' : Timer} {hz : UInt32} (h : t.init hz = some t') :
    t'.ticks = t.ticks ∧ t'.tickUs.toNat = 1000000 / hz.toNat := by
  unfold init at h
  split at h
  · cases h
  · cases h
    exact ⟨rfl, UInt32.toNat_div _ _⟩

/-- Two readings, the second `k` ticks after the first, are in order and `k` ticks apart exactly if
the count does not wrap around between them. -/
theorem readings_exact_iff {t t' : Timer} {hz : UInt32} (hpos : 1 ≤ hz.toNat)
    (hle : hz.toNat ≤ 1000000) (h : t.init hz = some t') (m k : ℕ) :
    ((tick^[m] t').timeUs ≤ (tick^[m + k] t').timeUs ∧
        (tick^[m + k] t').timeUs.toNat =
          (tick^[m] t').timeUs.toNat + k * (1000000 / hz.toNat)) ↔
      (t.ticks.toNat + m) % 2 ^ 32 + k < 2 ^ 32 := by
  obtain ⟨hticks, hus⟩ := init_eq_some h
  have hunit : 0 < 1000000 / hz.toNat := Nat.div_pos hle hpos
  rw [UInt64.le_iff_toNat_le, toNat_timeUs_iterate, toNat_timeUs_iterate, hus, hticks,
    ← Nat.add_assoc, ← Nat.mod_add_mod (t.ticks.toNat + m)]
  generalize (t.ticks.toNat + m) % 2 ^ 32 = c
  rw [← Nat.add_mul, Nat.mul_left_inj (Nat.ne_of_gt hunit)]
  constructor
  · rintro ⟨-, hexact⟩
    rw [← hexact]
    exact Nat.mod_lt _ (by decide)
  · intro hlt
    rw [Nat.mod_eq_of_lt hlt]
    exact ⟨Nat.mul_le_mul_right _ (Nat.le_add_right c k), rfl⟩

theorem readings_exact_1000Hz :
    1 ≤ (1000 : UInt32).toNat ∧ (1000 : UInt32).toNat ≤ 1000000 ∧
      init ⟨0, 0⟩ 1000 = some ⟨1000, 0⟩ ∧
      (((tick^[5] ⟨1000, 0⟩).timeUs ≤ (tick^[5 + 7] ⟨1000, 0⟩).timeUs ∧
          (tick^[5 + 7] ⟨1000, 0⟩).timeUs.toNat =
            (tick^[5] ⟨1000, 0⟩).timeUs.toNat + 7 * (1000000 / (1000 : UInt32).toNat)) ↔
        ((0 : UInt32).toNat + 5) % 2 ^ 32 + 7 < 2 ^ 32) :=
  ⟨by decide, by decide, rfl,
    readings_exact_iff (t := ⟨0, 0⟩) (by decide) (by decide) rfl 5 7⟩

/-- At 1000 Hz the time goes back to zero with tick number `2 ^ 32`. -/
theorem time_goes_back :
    init ⟨0, 0⟩ 1000 = some ⟨1000, 0⟩ ∧
      (tick^[2 ^ 32 - 1 + 1] ⟨1000, 0⟩).timeUs < (tick^[2 ^ 32 - 1] ⟨1000, 0⟩).timeUs := by
  refine ⟨rfl, ?_⟩
  rw [UInt64.lt_iff_toNat_lt, toNat_timeUs_iterate, toNat_timeUs_iterate]
  decide

end Timer

end OpenIon
