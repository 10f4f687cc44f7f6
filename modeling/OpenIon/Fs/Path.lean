import OpenIon.Lib.Text

/-! # Paths

Paths are lists of bytes. `parts` are the components that are not empty, and `splitLast`
cuts a path at its last slash.
-/
namespace OpenIon.Fs
open Lib

def slash : UInt8 := 0x2F

/-- The components of a path that are not empty. -/
def parts (path : List UInt8) : List (List UInt8) := pieces slash path

def splitLast (path : List UInt8) : Option (List UInt8 × List UInt8) :=
  match path.reverse.dropWhile (· != slash) with
  | [] => none
  | _ :: parent => some (parent.reverse, (path.reverse.takeWhile (· != slash)).reverse)

variable {path a b : List UInt8}

@[simp] theorem parts_nil : parts [] = [] := rfl

theorem parts_append : parts (a ++ slash :: b) = parts a ++ parts b := pieces_append

theorem parts_dropWhile : parts (path.dropWhile (· == slash)) = parts path := by
  induction path with
  | nil => rfl
  | cons b path ih =>
    by_cases hb : b = slash
    · subst hb
      rw [List.dropWhile_cons_of_pos (by simp), ih]
      exact pieces_cons_self.symm
    · rw [List.dropWhile_cons_of_neg (by simpa using hb)]

theorem parts_reverse_dropWhile : parts (path.reverse.dropWhile (· == slash)).reverse =
    parts path := by
  induction path using List.reverseRecOn with
  | nil => rfl
  | append_singleton path b ih =>
    rw [List.reverse_append, List.reverse_singleton, List.singleton_append]
    by_cases hb : b = slash
    · subst hb
      rw [List.dropWhile_cons_of_pos (by simp), ih, parts_append, parts_nil, List.append_nil]
    · rw [List.dropWhile_cons_of_neg (by simpa using hb), List.reverse_cons, List.reverse_reverse]

theorem splitLast_eq_some (h : splitLast path = some (a, b)) : path = a ++ slash :: b := by
  unfold splitLast at h
  have hpath := List.takeWhile_append_dropWhile (p := (· != slash)) (l := path.reverse)
  have hhead := List.head?_dropWhile_not (· != slash) path.reverse
  cases hdrop : path.reverse.dropWhile (· != slash) with
  | nil => simp [hdrop] at h
  | cons c parent =>
    rw [hdrop] at h hpath hhead
    obtain ⟨rfl, rfl⟩ := Prod.mk.inj (Option.some.inj h)
    obtain rfl : c = slash := by simpa using hhead
    have hrev := congrArg List.reverse hpath
    rw [List.reverse_append, List.reverse_cons, List.reverse_reverse, List.append_assoc] at hrev
    exact hrev.symm

end OpenIon.Fs
