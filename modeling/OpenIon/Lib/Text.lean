import Mathlib.Data.List.Basic
import Mathlib.Data.List.Induction
import Mathlib.Data.List.TakeWhile
import Mathlib.Tactic.Ring

/-! # Texts as lists of bytes

`ascii` is the text of a string literal and `bigEndian` the number that bytes stand for.
`pieces sep` cuts a list at a separator and drops the empty parts; `joined sep` puts the separator
before each part.
-/
namespace OpenIon.Lib

def ascii (s : String) : List UInt8 := s.toList.map Char.toUInt8

def bigEndian (bytes : List UInt8) : ℕ := bytes.foldl (fun v b => v * 2 ^ 8 + b.toNat) 0

theorem bigEndian_concat (bytes : List UInt8) (b : UInt8) :
    bigEndian (bytes ++ [b]) = bigEndian bytes * 2 ^ 8 + b.toNat := by
  simp [bigEndian]

theorem bigEndian_append (a b : List UInt8) :
    bigEndian (a ++ b) = bigEndian a * 2 ^ (8 * b.length) + bigEndian b := by
  induction b using List.reverseRecOn with
  | nil => simp [bigEndian]
  | append_singleton b x ih =>
    rw [← List.append_assoc, bigEndian_concat, bigEndian_concat, ih, List.length_append,
      List.length_singleton, Nat.mul_add, pow_add]
    ring

theorem bigEndian_lt (bytes : List UInt8) : bigEndian bytes < 2 ^ (8 * bytes.length) := by
  induction bytes using List.reverseRecOn with
  | nil => simp [bigEndian]
  | append_singleton bytes b ih =>
    have hb : b.toNat < 2 ^ 8 := b.toNat_lt
    rw [bigEndian_concat, List.length_append, List.length_singleton, Nat.mul_add, pow_add]
    omega

/-! ### Joining and cutting at a separator -/

variable {α : Type*} {sep : α} {l a b : List α}

def joined (sep : α) (ps : List (List α)) : List α := ps.flatMap (sep :: ·)

theorem joined_concat (ps : List (List α)) (p : List α) :
    joined sep (ps ++ [p]) = joined sep ps ++ sep :: p := by
  simp [joined]

variable [DecidableEq α]

def pieces (sep : α) (l : List α) : List (List α) := (l.splitOn sep).filter (· ≠ [])

@[simp] theorem pieces_nil : pieces sep [] = [] := rfl

theorem pieces_append : pieces sep (a ++ sep :: b) = pieces sep a ++ pieces sep b := by
  rw [pieces, List.splitOn_append_cons_self, List.filter_append]
  rfl

theorem pieces_cons_self : pieces sep (sep :: l) = pieces sep l := pieces_append (a := [])

theorem pieces_of_notMem (hne : l ≠ []) (h : sep ∉ l) : pieces sep l = [l] := by
  rw [pieces, List.splitOn_eq_singleton h]
  simp [hne]

theorem pieces_cons {x : α} (h : x ≠ sep) :
    pieces sep (x :: l) = (x :: l).takeWhile (· != sep) ::
      pieces sep (((x :: l).dropWhile (· != sep)).drop 1) := by
  have hne : (x :: l).takeWhile (· != sep) ≠ [] := by simp [h]
  have hmem : sep ∉ (x :: l).takeWhile (· != sep) := by
    intro hsep
    simpa using List.mem_takeWhile_imp hsep
  have hsplit : (x :: l).takeWhile (· != sep) ++ (x :: l).dropWhile (· != sep) = x :: l :=
    List.takeWhile_append_dropWhile
  cases hdrop : (x :: l).dropWhile (· != sep) with
  | nil =>
    rw [hdrop, List.append_nil] at hsplit
    rw [hsplit] at hmem ⊢
    exact pieces_of_notMem (List.cons_ne_nil x l) hmem
  | cons z zs =>
    have hz : z = sep := by
      have hhead := List.head_dropWhile_not (· != sep) (l := x :: l) (by simp [hdrop])
      simpa [hdrop] using hhead
    rw [hdrop, hz] at hsplit
    nth_rewrite 1 [← hsplit]
    rw [pieces_append, pieces_of_notMem hne hmem]
    rfl

theorem notMem_of_mem_splitOn {p : List α} (hp : p ∈ l.splitOn sep) : sep ∉ p := by
  induction l generalizing p with
  | nil =>
    obtain rfl : p = [] := by simpa using hp
    exact List.not_mem_nil
  | cons x l ih =>
    by_cases hx : x = sep
    · subst hx
      have hsplit := List.splitOn_append_cons_self (a := x) [] l
      rw [List.nil_append] at hsplit
      rw [hsplit] at hp
      obtain hp | hp := List.mem_append.mp hp
      · obtain rfl : p = [] := by simpa using hp
        exact List.not_mem_nil
      · exact ih hp
    · rw [List.splitOn, List.splitOnP_cons_eq_if_modifyHead, if_neg (by simpa using hx)] at hp
      change p ∈ (l.splitOn sep).modifyHead (List.cons x) at hp
      cases hsplit : l.splitOn sep with
      | nil => simp [hsplit] at hp
      | cons q qs =>
        rw [hsplit, List.modifyHead_cons, List.mem_cons] at hp
        obtain rfl | hp := hp
        · rw [List.mem_cons, not_or]
          exact ⟨Ne.symm hx, ih (by simp [hsplit])⟩
        · exact ih (by simp [hsplit, hp])

theorem splitOn_joined {ps : List (List α)} (h : ∀ p ∈ ps, sep ∉ p) :
    (joined sep ps).splitOn sep = [] :: ps := by
  induction ps using List.reverseRecOn with
  | nil => rfl
  | append_singleton ps p ih =>
    rw [joined_concat, List.splitOn_append_cons_self, ih fun q hq => h q (by simp [hq]),
      List.splitOn_eq_singleton (h p (by simp)), List.cons_append]

theorem joined_splitOn (l : List α) : joined sep (l.splitOn sep) = sep :: l := by
  have hjoin : ∀ (p : List α) (ps : List (List α)),
      [sep].intercalate (p :: ps) = p ++ joined sep ps := by
    intro p ps
    induction ps generalizing p with
    | nil => simp [List.intercalate, joined]
    | cons q ps ih =>
      rw [List.intercalate_cons_cons, ih q]
      simp [joined]
  have hl : [sep].intercalate (l.splitOn sep) = l := List.intercalate_splitOn sep
  cases hsplit : l.splitOn sep with
  | nil => exact absurd hsplit (List.splitOn_ne_nil _ _)
  | cons p ps =>
    rw [hsplit, hjoin] at hl
    rw [← hl]
    rfl

end OpenIon.Lib
