import Mathlib.Data.List.Basic

/-! # Areas of memory and the layout of records

An area is a range of addresses. A record is laid out as in C: its fields follow each other, each
rounded up to its alignment, and its size is rounded up to the largest of them.
-/
namespace OpenIon.Lib

structure Area where
  start : ℕ
  len : ℕ
  deriving DecidableEq

namespace Area

def stop (a : Area) : ℕ := a.start + a.len

def Within (a b : Area) : Prop := b.start ≤ a.start ∧ a.stop ≤ b.stop

instance decidableWithin (a b : Area) : Decidable (a.Within b) := inferInstanceAs (Decidable (_ ∧ _))

def Apart (a b : Area) : Prop := a.stop ≤ b.start ∨ b.stop ≤ a.start

instance decidableApart (a b : Area) : Decidable (a.Apart b) := inferInstanceAs (Decidable (_ ∨ _))

/-- The area that is at `inner` in the record at `outer`. -/
def part (outer inner : Area) : Area := ⟨outer.start + inner.start, inner.len⟩

theorem within_refl (a : Area) : a.Within a := ⟨Nat.le_refl _, Nat.le_refl _⟩

theorem Within.trans {a b c : Area} (hab : a.Within b) (hbc : b.Within c) : a.Within c :=
  ⟨Nat.le_trans hbc.1 hab.1, Nat.le_trans hab.2 hbc.2⟩

theorem part_stop_le {outer inner : Area} (h : inner.stop ≤ outer.len) :
    (outer.part inner).stop ≤ outer.stop := by
  rw [stop, part, Nat.add_assoc]
  exact Nat.add_le_add_left h _

theorem part_within {outer inner : Area} (h : inner.stop ≤ outer.len) :
    (outer.part inner).Within outer :=
  ⟨Nat.le_add_right _ _, part_stop_le h⟩

theorem take_within {pos n size : ℕ} (h : n ≤ size) : Within ⟨pos, n⟩ ⟨pos, size⟩ :=
  ⟨Nat.le_refl _, Nat.add_le_add_left h pos⟩

end Area

/-- The size and the alignment of a type. -/
structure Shape where
  size : ℕ
  align : ℕ
  deriving DecidableEq

namespace Shape

def u8 : Shape := ⟨1, 1⟩
def u16 : Shape := ⟨2, 2⟩
def u32 : Shape := ⟨4, 4⟩
def u64 : Shape := ⟨8, 8⟩

def array (n : ℕ) (elem : Shape) : Shape := ⟨n * elem.size, elem.align⟩

def roundUp (n align : ℕ) : ℕ := (n + align - 1) / align * align

/-- The fields in their order, the first one from `pos` on. -/
def place : ℕ → List Shape → List Area
  | _, [] => []
  | pos, field :: fields =>
    ⟨roundUp pos field.align, field.size⟩ ::
      place (roundUp pos field.align + field.size) fields

/-- The end of the last field. -/
def placeEnd : ℕ → List Shape → ℕ
  | pos, [] => pos
  | pos, field :: fields => placeEnd (roundUp pos field.align + field.size) fields

def struct (fields : List Shape) : Shape :=
  let align := (fields.map Shape.align).foldr max 1
  ⟨roundUp (placeEnd 0 fields) align, align⟩

def packed (fields : List Shape) : List Shape := fields.map fun f => ⟨f.size, 1⟩

def field (fields : List Shape) (i : ℕ) : Area := (place 0 fields)[i]?.getD ⟨0, 0⟩

def elem (shape : Shape) (i : ℕ) : Area := ⟨i * shape.size, shape.size⟩

theorem le_roundUp (n : ℕ) {align : ℕ} (h : 0 < align) : n ≤ roundUp n align := by
  have hdiv := Nat.div_add_mod (n + align - 1) align
  have hmod := Nat.mod_lt (n + align - 1) h
  rw [roundUp, Nat.mul_comm]
  omega

theorem le_placeEnd {fields : List Shape} (h : ∀ f ∈ fields, 0 < f.align) (pos : ℕ) :
    pos ≤ placeEnd pos fields := by
  induction fields generalizing pos with
  | nil => exact Nat.le_refl pos
  | cons f fields ih =>
    have hstart := le_roundUp pos (h f List.mem_cons_self)
    have hrest := ih (fun g hg => h g (List.mem_cons_of_mem f hg)) (roundUp pos f.align + f.size)
    exact Nat.le_trans (Nat.le_trans hstart (Nat.le_add_right _ _)) hrest

theorem place_stop_le {fields : List Shape} (h : ∀ f ∈ fields, 0 < f.align) (pos : ℕ) :
    ∀ a ∈ place pos fields, a.stop ≤ placeEnd pos fields := by
  induction fields generalizing pos with
  | nil => exact fun a ha => (by cases ha)
  | cons f fields ih =>
    have hrest := fun g hg => h g (List.mem_cons_of_mem f hg)
    intro a ha
    rcases List.mem_cons.mp ha with rfl | ha
    · exact le_placeEnd hrest _
    · exact ih hrest _ a ha

theorem foldr_max_pos (aligns : List ℕ) : 0 < aligns.foldr max 1 := by
  induction aligns with
  | nil => exact Nat.one_pos
  | cons a aligns ih => exact Nat.lt_of_lt_of_le ih (Nat.le_max_right _ _)

theorem field_stop_le (fields : List Shape) (h : ∀ f ∈ fields, 0 < f.align) (i : ℕ) :
    (field fields i).stop ≤ (struct fields).size := by
  have hend := le_roundUp (placeEnd 0 fields) (foldr_max_pos (fields.map Shape.align))
  rw [field]
  cases hi : (place 0 fields)[i]? with
  | none => exact Nat.zero_le _
  | some a => exact Nat.le_trans (place_stop_le h 0 a (List.mem_of_getElem? hi)) hend

theorem packed_align_pos (fields : List Shape) : ∀ f ∈ packed fields, 0 < f.align := by
  intro f hf
  obtain ⟨g, -, rfl⟩ := List.mem_map.mp hf
  exact Nat.one_pos

theorem elem_stop_le (shape : Shape) {i n : ℕ} (h : i < n) :
    (elem shape i).stop ≤ (array n shape).size := by
  change i * shape.size + shape.size ≤ n * shape.size
  rw [← Nat.succ_mul]
  exact Nat.mul_le_mul_right _ h

end Shape

end OpenIon.Lib
