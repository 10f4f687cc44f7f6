import Mathlib.Data.List.Nodup
import Mathlib.Data.List.ReduceOption

/-! # Tables of optional slots

A table with a fixed number of slots is a list of options; what it holds is its
`List.reduceOption`. Entries go into the first empty slot, and the first entry with
a property is taken out.
-/
namespace OpenIon.Lib

variable {α : Type*} {x : α} {p : α → Bool} {slots : List (Option α)}

def pushSlot (x : α) : List (Option α) → List (Option α)
  | [] => []
  | none :: slots => some x :: slots
  | some y :: slots => some y :: pushSlot x slots

def removeSlot (p : α → Bool) : List (Option α) → List (Option α)
  | [] => []
  | none :: slots => none :: removeSlot p slots
  | some y :: slots => if p y then none :: slots else some y :: removeSlot p slots

def findSlot (p : α → Bool) (slots : List (Option α)) : Option α :=
  slots.findSome? (Option.filter p)

/-- Look through all slots, slot `i` is next: `none` if an entry with `p` is there, and otherwise
the first empty slot, which is `firstEmpty` if that is known already. -/
def scanSlots (p : α → Bool) : List (Option α) → ℕ → Option ℕ → Option (Option ℕ)
  | [], _, firstEmpty => some firstEmpty
  | some y :: slots, i, firstEmpty => if p y then none else scanSlots p slots (i + 1) firstEmpty
  | none :: slots, i, firstEmpty =>
    scanSlots p slots (i + 1) (if firstEmpty.isNone then some i else firstEmpty)

def occupied (slots : List (Option α)) : ℕ := slots.countP Option.isSome

theorem occupied_eq_length : occupied slots = slots.reduceOption.length := by
  rw [occupied, List.countP_eq_length_filter, List.reduceOption_length_eq]

theorem scanSlots_eq (p : α → Bool) (slots : List (Option α)) (i : ℕ) (firstEmpty : Option ℕ) :
    scanSlots p slots i firstEmpty =
      if slots.reduceOption.any p then none
      else some (firstEmpty.or ((slots.findIdx? Option.isNone).map (· + i))) := by
  induction slots generalizing i firstEmpty with
  | nil => simp [scanSlots]
  | cons slot slots ih =>
    cases slot with
    | none =>
      rw [scanSlots, ih]
      cases firstEmpty <;> simp [List.findIdx?_cons]
    | some y =>
      rw [scanSlots, ih]
      by_cases hp : p y = true
      · simp [hp]
      · have hshift : ((· + 1 + i) : ℕ → ℕ) = (· + (i + 1)) := by
          funext n
          omega
        simp [hp, List.findIdx?_cons, Function.comp_def, hshift]

@[simp] theorem length_pushSlot : (pushSlot x slots).length = slots.length := by
  fun_induction pushSlot x slots with
  | case1 => rfl
  | case2 => rfl
  | case3 y slots ih => simp [ih]

@[simp] theorem length_removeSlot : (removeSlot p slots).length = slots.length := by
  fun_induction removeSlot p slots with
  | case1 => rfl
  | case2 slots ih => simp [ih]
  | case3 => rfl
  | case4 y slots hp ih => simp [ih]

theorem reduceOption_pushSlot (hroom : none ∈ slots) :
    (pushSlot x slots).reduceOption.Perm (x :: slots.reduceOption) := by
  fun_induction pushSlot x slots with
  | case1 => simp at hroom
  | case2 => simp
  | case3 y slots ih =>
    simp only [List.reduceOption_cons_of_some]
    exact ((ih (by simpa using hroom)).cons y).trans (List.Perm.swap x y _)

theorem mem_pushSlot {y : α} (hroom : none ∈ slots) :
    some y ∈ pushSlot x slots ↔ y = x ∨ some y ∈ slots := by
  rw [← List.reduceOption_mem_iff, (reduceOption_pushSlot hroom).mem_iff, List.mem_cons,
    List.reduceOption_mem_iff]

theorem reduceOption_removeSlot :
    (removeSlot p slots).reduceOption = slots.reduceOption.eraseP p := by
  fun_induction removeSlot p slots with
  | case1 => rfl
  | case2 slots ih => simpa using ih
  | case3 y slots hp => simp [hp]
  | case4 y slots hp ih => simp [hp, ih]

theorem findSlot_eq_find : findSlot p slots = slots.reduceOption.find? p := by
  induction slots with
  | nil => rfl
  | cons slot slots ih =>
    rw [findSlot] at ih
    cases slot with
    | none => simpa [findSlot] using ih
    | some y =>
      by_cases hp : p y = true <;> simp [findSlot, hp, ih]

theorem removeSlot_of_findSlot_eq_none (hnone : findSlot p slots = none) :
    removeSlot p slots = slots := by
  rw [findSlot_eq_find, List.find?_eq_none] at hnone
  fun_induction removeSlot p slots with
  | case1 => rfl
  | case2 slots ih => rw [ih (by simpa using hnone)]
  | case3 y slots hp => exact absurd hp (hnone y (by simp))
  | case4 y slots hp ih =>
    rw [ih fun z hz => hnone z (by simp [hz])]

theorem set_findIdx (n : ℕ) (hn : slots.findIdx? Option.isNone = some n) :
    slots.set n (some x) = pushSlot x slots := by
  induction slots generalizing n with
  | nil => simp at hn
  | cons slot slots ih =>
    cases slot with
    | none =>
      have hzero : n = 0 := by simpa [List.findIdx?_cons] using hn.symm
      subst hzero
      rfl
    | some y =>
      rcases n with - | n
      · simp [List.findIdx?_cons] at hn
      · have hrest : slots.findIdx? Option.isNone = some n := by
          simpa [List.findIdx?_cons] using hn
        simpa [pushSlot] using ih n hrest

theorem none_mem_of_findIdx {n : ℕ} (hn : slots.findIdx? Option.isNone = some n) :
    none ∈ slots := by
  have hsome : (slots.findIdx? Option.isNone).isSome = true := by
    rw [hn]
    rfl
  rw [List.findIdx?_isSome, List.any_eq_true] at hsome
  obtain ⟨slot, hslot, hnone⟩ := hsome
  rwa [Option.isNone_iff_eq_none.mp hnone] at hslot

theorem eraseP_eq_erase [BEq α] [LawfulBEq α] {l : List α} (hfind : l.find? p = some x) :
    l.eraseP p = l.erase x := by
  induction l with
  | nil => simp at hfind
  | cons y l ih =>
    by_cases hp : p y = true
    · obtain rfl : y = x := by simpa [hp] using hfind
      simp [hp]
    · have hne : y ≠ x := by
        rintro rfl
        exact hp (List.find?_some hfind)
      have hrest : l.find? p = some x := by simpa [hp] using hfind
      simp [hp, hne, ih hrest]

/-- When only `x` can have `p`, taking out the first entry with `p` takes out `x`. -/
theorem eraseP_eq_erase_of_forall [BEq α] [LawfulBEq α] {l : List α}
    (hp : ∀ y ∈ l, p y = true ↔ y = x) : l.eraseP p = l.erase x := by
  induction l with
  | nil => rfl
  | cons y l ih =>
    have hrest := ih fun z hz => hp z (List.mem_cons_of_mem y hz)
    have hy := hp y List.mem_cons_self
    by_cases hyx : y = x
    · subst hyx
      simp [hy.mpr rfl]
    · simp [hyx, mt hy.mp hyx, hrest]

end OpenIon.Lib
