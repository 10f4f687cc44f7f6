import Mathlib.Data.List.Basic
import Mathlib.Data.List.Induction

/-! # Checked access to a buffer

A buffer is a list of fixed length. Reading and writing fail outside of it, and so does every
loop that makes such an access. The loops that shift a part of the buffer by one place are
described by what stands before, in and after that part.
-/
namespace OpenIon.Lib.Buffer

variable {α : Type*}

def put (buf : List α) (i : ℕ) (a : α) : Option (List α) :=
  if i < buf.length then some (buf.set i a) else none

def move (buf : List α) (dst src : ℕ) : Option (List α) := buf[src]?.bind (put buf dst)

def slice (buf : List α) (a b : ℕ) : Option (List α) :=
  if a ≤ b ∧ b ≤ buf.length then some ((buf.drop a).take (b - a)) else none

def readAll (buf : List α) (n : ℕ) : Option (List α) := (List.range n).mapM (buf[·]?)

def putAll (buf : List α) (i : ℕ) : List α → Option (List α)
  | [] => some buf
  | a :: as => (put buf i a).bind fun buf => putAll buf (i + 1) as

/-- Every place from `a` up to `b` is copied to the one before it, the first one first. -/
def shiftDown (buf : List α) (a b : ℕ) : Option (List α) :=
  (List.range' a (b - a)).foldlM (fun buf i => move buf (i - 1) i) buf

/-- Every place from `a` up to `b` is copied to the one after it, the last one first. -/
def shiftUp (buf : List α) (a b : ℕ) : Option (List α) :=
  (List.range' a (b - a)).reverse.foldlM (fun buf i => move buf (i + 1) i) buf

variable {buf left right rest as : List α} {x y : α} {i n : ℕ}

theorem put_of_lt (h : i < buf.length) (a : α) : put buf i a = some (buf.set i a) := if_pos h

theorem put_append (a : α) : put (left ++ x :: rest) left.length a = some (left ++ a :: rest) := by
  rw [put_of_lt (by simp), List.set_append_right _ _ (Nat.le_refl _), Nat.sub_self, List.set_cons_zero]

theorem slice_of_le {a b : ℕ} (hab : a ≤ b) (hb : b ≤ buf.length) :
    slice buf a b = some ((buf.drop a).take (b - a)) := if_pos ⟨hab, hb⟩

theorem slice_append : slice (left ++ rest) 0 left.length = some left := by
  rw [slice_of_le (Nat.zero_le _) (by simp), List.drop_zero, Nat.sub_zero, List.take_left]

theorem slice_middle (left mid rest : List α) :
    slice (left ++ mid ++ rest) left.length (left.length + mid.length) = some mid := by
  rw [slice_of_le (Nat.le_add_right _ _) (by simp [← Nat.add_assoc]), Nat.add_sub_cancel_left,
    List.append_assoc, List.drop_left, List.take_left]

theorem readAll_of_le (h : n ≤ buf.length) : readAll buf n = some (buf.take n) := by
  induction n with
  | zero => rfl
  | succ n ih =>
    have hlt : n < buf.length := h
    have hstep : readAll buf (n + 1) = (readAll buf n).bind fun l => buf[n]?.map (l ++ [·]) := by
      rw [readAll, List.range_succ, List.mapM_append]
      cases hread : (List.range n).mapM (buf[·]?) with
      | none => simp [readAll, hread]
      | some l => cases hn : buf[n]? <;> simp [readAll, hread, hn]
    rw [hstep, ih (Nat.le_of_lt hlt), Option.bind_some, List.getElem?_eq_getElem hlt, Option.map_some,
      List.take_add_one, List.getElem?_eq_getElem hlt]
    rfl

theorem putAll_of_le (h : i + as.length ≤ buf.length) :
    putAll buf i as = some (buf.take i ++ as ++ buf.drop (i + as.length)) := by
  induction as generalizing buf i with
  | nil => simp [putAll]
  | cons a as ih =>
    rw [List.length_cons] at h
    have hi : i < buf.length := by omega
    rw [putAll, put_of_lt hi, Option.bind_some, ih (by rw [List.length_set]; omega)]
    have htake : (buf.set i a).take (i + 1) = buf.take i ++ [a] := by
      rw [List.take_add_one, List.take_set_of_le (Nat.le_refl _), List.getElem?_set_self hi]
      rfl
    have hdrop : (buf.set i a).drop (i + 1 + as.length) = buf.drop (i + (a :: as).length) := by
      rw [List.drop_set_of_lt (by omega), List.length_cons]
      congr 1
      omega
    rw [htake, hdrop, List.append_assoc (buf.take i), List.singleton_append]

theorem exists_putAll (h : i + as.length ≤ buf.length) :
    ∃ buf', putAll buf i as = some buf' ∧ buf'.length = buf.length := by
  refine ⟨_, putAll_of_le h, ?_⟩
  rw [List.length_append, List.length_append, List.length_take, List.length_drop]
  omega

theorem shiftDown_append (left right rest : List α) (x : α) :
    ∃ y, shiftDown (left ++ x :: (right ++ rest)) (left.length + 1)
      (left.length + 1 + right.length) = some (left ++ right ++ y :: rest) := by
  unfold shiftDown
  rw [Nat.add_sub_cancel_left]
  induction right generalizing left x with
  | nil => exact ⟨x, by simp⟩
  | cons a right ih =>
    obtain ⟨y, hy⟩ := ih (left ++ [a]) a
    refine ⟨y, ?_⟩
    have hmove : move (left ++ x :: (a :: right ++ rest)) (left.length + 1 - 1) (left.length + 1) =
        some (left ++ [a] ++ a :: (right ++ rest)) := by
      rw [move, Nat.add_sub_cancel, List.getElem?_append_right (by omega), Nat.add_sub_cancel_left,
        List.cons_append, List.getElem?_cons_succ, List.getElem?_cons_zero, Option.bind_some,
        put_append, List.append_assoc, List.singleton_append]
    rw [List.length_cons, List.range'_succ, List.foldlM_cons, hmove, Option.bind_eq_bind,
      Option.bind_some]
    rw [List.length_append, List.length_singleton] at hy
    rw [hy, List.append_assoc left, List.singleton_append]

theorem shiftUp_append (left right rest : List α) (x : α) :
    ∃ y, shiftUp (left ++ right ++ x :: rest) left.length (left.length + right.length) =
      some (left ++ y :: (right ++ rest)) := by
  unfold shiftUp
  rw [Nat.add_sub_cancel_left]
  induction right using List.reverseRecOn generalizing x rest with
  | nil => exact ⟨x, by simp⟩
  | append_singleton right a ih =>
    obtain ⟨y, hy⟩ := ih (x := a) (a :: rest)
    refine ⟨y, ?_⟩
    have hmove : move (left ++ (right ++ [a]) ++ x :: rest) (left.length + right.length + 1)
        (left.length + right.length) = some (left ++ right ++ a :: a :: rest) := by
      have hbuf : left ++ (right ++ [a]) ++ x :: rest = (left ++ right ++ [a]) ++ x :: rest := by
        simp
      have hlength : left.length + right.length + 1 = (left ++ right ++ [a]).length := by
        simp [Nat.add_assoc]
      have hread : (left ++ right ++ [a] ++ x :: rest)[left.length + right.length]? = some a := by
        simp
      rw [hbuf, hlength, move, hread, Option.bind_some, put_append]
      simp
    rw [List.length_append, List.length_singleton, List.range'_concat, List.reverse_append,
      List.reverse_singleton, List.singleton_append, List.foldlM_cons, Nat.one_mul, hmove,
      Option.bind_eq_bind, Option.bind_some, hy]
    simp

end OpenIon.Lib.Buffer
