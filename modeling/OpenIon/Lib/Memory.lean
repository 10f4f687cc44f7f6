import Mathlib.Algebra.Group.Nat.Defs
import Mathlib.Data.List.GetD
import Mathlib.Data.Set.Defs

/-! # Memory

Memory is a function from addresses to bytes. A program that writes is described by the addresses
it writes to and the bytes they have afterwards.
-/
namespace OpenIon.Lib.Memory

variable {α : Type*}

def store (mem : ℕ → α) (pos : ℕ) (bytes : List α) : ℕ → α := fun k =>
  if pos ≤ k then bytes.getD (k - pos) (mem k) else mem k

def load (mem : ℕ → α) (pos n : ℕ) : List α := (List.range n).map fun i => mem (pos + i)

/-- A word as bytes, the lowest one first. -/
def toLeBytes (val : UInt32) : List UInt8 :=
  [val.toUInt8, (val >>> 8).toUInt8, (val >>> 16).toUInt8, (val >>> 24).toUInt8]

/-- The number with these bytes, the lowest one first. -/
def leNat : List UInt8 → ℕ
  | [] => 0
  | b :: bytes => b.toNat + 256 * leNat bytes

/-- The addresses of `S` have the bytes of `v`, and the others are as before. -/
structure Writes (S : Set ℕ) (v mem mem' : ℕ → α) : Prop where
  inside : ∀ k ∈ S, mem' k = v k
  outside : ∀ k ∉ S, mem' k = mem k

variable {mem mem' mem'' v : ℕ → α} {pos n k : ℕ} {bytes : List α} {S T : Set ℕ}

theorem length_toLeBytes (val : UInt32) : (toLeBytes val).length = 4 := rfl

theorem leNat_lt (bytes : List UInt8) : leNat bytes < 256 ^ bytes.length := by
  induction bytes with
  | nil => exact Nat.one_pos
  | cons b bytes ih =>
    have hb := b.toNat_lt
    rw [leNat, List.length_cons, Nat.pow_succ]
    omega

theorem store_of_lt (h : k < pos) : store mem pos bytes k = mem k :=
  if_neg (Nat.not_le.mpr h)

theorem store_of_ge (h : pos + bytes.length ≤ k) : store mem pos bytes k = mem k := by
  rw [store, if_pos (by omega), List.getD_eq_default _ _ (by omega)]

theorem store_add {i : ℕ} (h : i < bytes.length) : store mem pos bytes (pos + i) = bytes[i] := by
  rw [store, if_pos (Nat.le_add_right _ _), Nat.add_sub_cancel_left, List.getD_eq_getElem _ _ h]

@[simp] theorem length_load : (load mem pos n).length = n := by simp [load]

theorem load_congr (h : ∀ i < n, mem (pos + i) = mem' (k + i)) :
    load mem pos n = load mem' k n :=
  List.map_congr_left fun i hi => h i (List.mem_range.mp hi)

theorem load_eq (hn : bytes.length = n) (h : ∀ i (hi : i < bytes.length), mem (pos + i) = bytes[i]) :
    load mem pos n = bytes := by
  apply List.ext_getElem
  · rw [length_load, hn]
  · intro i _ hi
    rw [← h i hi]
    simp [load]

theorem writes_store (h : ∀ i (hi : i < bytes.length), bytes[i] = v (pos + i)) :
    Writes {k | pos ≤ k ∧ k < pos + bytes.length} v mem (store mem pos bytes) where
  inside k hk := by
    obtain ⟨i, rfl⟩ := Nat.exists_eq_add_of_le hk.1
    have hi : i < bytes.length := Nat.lt_of_add_lt_add_left hk.2
    rw [store_add hi, h i hi]
  outside k hk := by
    obtain hlt | hge := Nat.lt_or_ge k pos
    · exact store_of_lt hlt
    · exact store_of_ge (Nat.not_lt.mp fun hlt => hk ⟨hge, hlt⟩)

theorem Writes.congr (h : Writes S v mem mem') (hST : ∀ k, k ∈ S ↔ k ∈ T) :
    Writes T v mem mem' :=
  ⟨fun k hk => h.inside k ((hST k).mpr hk), fun k hk => h.outside k fun hS => hk ((hST k).mp hS)⟩

/-- A loop whose turns write to `S i` writes to all these addresses. -/
theorem Writes.foldlM {ι : Type*} {step : (ℕ → α) → ι → Option (ℕ → α)} {S : ι → Set ℕ}
    {turns : List ι}
    (h : ∀ i ∈ turns, ∀ mem, ∃ mem', step mem i = some mem' ∧ Writes (S i) v mem mem') (mem) :
    ∃ mem', turns.foldlM step mem = some mem' ∧
      Writes {k | ∃ i ∈ turns, k ∈ S i} v mem mem' := by
  induction turns generalizing mem with
  | nil =>
    refine ⟨mem, rfl, fun k hk => ?_, fun k _ => rfl⟩
    obtain ⟨i, hi, -⟩ := hk
    cases hi
  | cons i turns ih =>
    obtain ⟨m, hm, hfirst⟩ := h i List.mem_cons_self mem
    obtain ⟨mem', hmem', hrest⟩ := ih (fun j hj => h j (List.mem_cons_of_mem i hj)) m
    refine ⟨mem', by rw [List.foldlM_cons, hm]; exact hmem', fun k hk => ?_, fun k hk => ?_⟩
    · by_cases hk' : ∃ j ∈ turns, k ∈ S j
      · exact hrest.inside k hk'
      · obtain ⟨j, hj, hkj⟩ := hk
        rcases List.mem_cons.mp hj with rfl | hj
        · rw [hrest.outside k hk', hfirst.inside k hkj]
        · exact absurd ⟨j, hj, hkj⟩ hk'
    · rw [hrest.outside k fun hk' => hk ?_, hfirst.outside k fun hk' => hk ?_]
      · exact ⟨i, List.mem_cons_self, hk'⟩
      · obtain ⟨j, hj, hkj⟩ := hk'
        exact ⟨j, List.mem_cons_of_mem i hj, hkj⟩

end OpenIon.Lib.Memory
