import Mathlib.Data.Finset.Card
import Mathlib.Data.List.Infix
import Mathlib.Data.Set.Insert

/-! # Trees of tables in a memory

A table has one entry for each index. An entry is empty, a leaf, or it links to
another table; a path of indices is looked up by following the links from a root.
The tables that a root reaches form a tree when no two paths lead to the same
table. Then a write to one entry changes only the paths through that entry.
-/
namespace OpenIon.Lib

/-- Access to tables that live in a memory, and the meaning of their entries. -/
structure Tables (M I E : Type*) where
  get : M → ℕ → I → E
  set : M → ℕ → I → E → M
  clear : M → ℕ → M
  /-- The address can be the one of a table. -/
  IsTable : ℕ → Prop
  empty : E
  valid : E → Bool
  leaf : E → Bool
  child : E → ℕ
  valid_empty : valid empty = false
  get_set_self : ∀ m t i e, get (set m t i e) t i = e
  get_set_of_ne : ∀ m t i e t' i', IsTable t → IsTable t' → (t' = t → i' ≠ i) →
    get (set m t i e) t' i' = get m t' i'
  get_clear_self : ∀ m t i, get (clear m t) t i = empty
  get_clear_of_ne : ∀ m t t' i, IsTable t → IsTable t' → t' ≠ t → get (clear m t) t' i = get m t' i

namespace Tables

variable {M I E : Type*} (T : Tables M I E)

def links (e : E) : Bool := T.valid e && !T.leaf e

def follow (m : M) : ℕ → List I → Option ℕ
  | t, [] => some t
  | t, i :: p => if T.links (T.get m t i) then follow m (T.child (T.get m t i)) p else none

/-- The entry at which the lookup of a path ends, with the number of indices left. An entry of the
last table counts as a leaf. -/
def lookup (m : M) : ℕ → List I → Option (ℕ × E)
  | _, [] => none
  | t, i :: p =>
    if !T.valid (T.get m t i) then none
    else if T.leaf (T.get m t i) || p.isEmpty then some (p.length, T.get m t i)
    else lookup m (T.child (T.get m t i)) p

/-- The tables that paths of fewer than `depth` links reach are distinct and known. -/
structure Tree (depth : ℕ) (m : M) (root : ℕ) (known : Set ℕ) : Prop where
  table : ∀ p t, p.length < depth → T.follow m root p = some t → T.IsTable t ∧ t ∈ known
  inj : ∀ p q t, p.length < depth → q.length < depth → T.follow m root p = some t →
    T.follow m root q = some t → p = q

variable {T} {m m' : M} {t s root depth : ℕ} {i : I} {p q pre : List I} {known : Set ℕ} {e : E}

@[simp] theorem follow_nil : T.follow m t [] = some t := rfl

theorem follow_cons : T.follow m t (i :: p) =
    if T.links (T.get m t i) then T.follow m (T.child (T.get m t i)) p else none := rfl

theorem follow_append :
    T.follow m t (p ++ q) = (T.follow m t p).bind fun s => T.follow m s q := by
  induction p generalizing t with
  | nil => rfl
  | cons i p ih =>
    rw [List.cons_append, follow_cons, follow_cons]
    split
    · exact ih
    · rfl

/-- A lookup goes on from the table that a prefix of the path leads to. -/
theorem lookup_append (hq : q ≠ []) (h : T.follow m t p = some s) :
    T.lookup m t (p ++ q) = T.lookup m s q := by
  induction p generalizing t with
  | nil =>
    cases h
    rfl
  | cons i p ih =>
    rw [follow_cons, Option.ite_none_right_eq_some] at h
    rcases h with ⟨hlinks, hrest⟩
    simp only [links, Bool.and_eq_true, Bool.not_eq_true'] at hlinks
    have hne : (p ++ q).isEmpty = false := by
      simp [hq]
    simp only [List.cons_append, lookup, hlinks, hne, Bool.not_true, Bool.or_self,
      Bool.false_eq_true, if_false]
    exact ih hrest

theorem lookup_level_lt {k : ℕ} (h : T.lookup m t p = some (k, e)) : k < p.length := by
  induction p generalizing t with
  | nil => cases h
  | cons i p ih =>
    rw [lookup] at h
    split at h
    · cases h
    · split at h
      · cases h
        exact Nat.lt_succ_self _
      · exact (ih h).trans (Nat.lt_succ_self _)

/-- A lookup that uses all indices ends in the table that the others lead to. -/
theorem follow_of_lookup (h : T.lookup m t (p ++ [i]) = some (0, e)) :
    ∃ s, T.follow m t p = some s ∧ T.get m s i = e ∧ T.valid e = true := by
  induction p generalizing t with
  | nil =>
    rw [List.nil_append, lookup] at h
    split at h
    · cases h
    next hvalid =>
      simp only [List.isEmpty_nil, Bool.or_true, if_true, Option.some.injEq, Prod.mk.injEq] at h
      rcases h with ⟨-, rfl⟩
      exact ⟨t, rfl, rfl, by simpa using hvalid⟩
  | cons j p ih =>
    rw [List.cons_append, lookup] at h
    split at h
    · cases h
    next hvalid =>
      split at h
      · simp at h
      next hleaf =>
        rcases ih h with ⟨s, hs, hrest⟩
        have hlinks : T.links (T.get m t j) = true := by
          simp only [Bool.or_eq_true, not_or, Bool.not_eq_true] at hleaf
          simp only [Bool.not_eq_true', Bool.not_eq_false] at hvalid
          simp [links, hvalid, hleaf.1]
        exact ⟨s, by rw [follow_cons, if_pos hlinks, hs], hrest⟩

theorem follow_congr (h : ∀ q i r s, p = q ++ i :: r → T.follow m t q = some s →
    T.get m' s i = T.get m s i) : T.follow m' t p = T.follow m t p := by
  induction p generalizing t with
  | nil => rfl
  | cons i p ih =>
    rw [follow_cons, follow_cons, h [] i p t rfl rfl]
    split
    next hlinks =>
      apply ih
      rintro q j r s rfl hs
      exact h (i :: q) j r s rfl (by rw [follow_cons, if_pos hlinks, hs])
    next => rfl

theorem lookup_congr (h : ∀ q i r s, p = q ++ i :: r → T.follow m t q = some s →
    T.get m' s i = T.get m s i) : T.lookup m' t p = T.lookup m t p := by
  induction p generalizing t with
  | nil => rfl
  | cons i p ih =>
    rw [lookup, lookup, h [] i p t rfl rfl]
    split
    next => rfl
    next hvalid =>
      split
      next => rfl
      next hleaf =>
        have hlinks : T.links (T.get m t i) = true := by
          simp only [Bool.or_eq_true, not_or, Bool.not_eq_true] at hleaf
          simp only [Bool.not_eq_true', Bool.not_eq_false] at hvalid
          simp [links, hvalid, hleaf.1]
        apply ih
        rintro q j r s rfl hs
        exact h (i :: q) j r s rfl (by rw [follow_cons, if_pos hlinks, hs])

theorem Tree.congr (h : T.Tree depth m root known) (hget : ∀ s j, T.get m' s j = T.get m s j) :
    T.Tree depth m' root known := by
  have hfollow : ∀ p, T.follow m' root p = T.follow m root p := by
    intro p
    exact follow_congr fun q i r s _ _ => hget s i
  constructor
  · intro p t hp
    rw [hfollow]
    exact h.table p t hp
  · intro p q t hp hq
    rw [hfollow, hfollow]
    exact h.inj p q t hp hq

/-- The memories agree on the known tables, except perhaps in one entry. -/
def DiffersAt (T : Tables M I E) (known : Set ℕ) (t : ℕ) (i : I) (m m' : M) : Prop :=
  ∀ s ∈ known, T.IsTable s → ∀ j, (s = t → j ≠ i) → T.get m' s j = T.get m s j

theorem differsAt_set (ht : T.IsTable t) : T.DiffersAt known t i m (T.set m t i e) := by
  intro s _ hs j hne
  exact T.get_set_of_ne m t i e s j ht hs hne

/-- An entry is written after a table that was not known has been cleared. -/
theorem differsAt_clear_set {f : ℕ} (ht : T.IsTable t) (hf : T.IsTable f) (hfresh : f ∉ known) :
    T.DiffersAt known t i m (T.set (T.clear m f) t i e) := by
  intro s hknown hs j hne
  rw [T.get_set_of_ne _ t i e s j ht hs hne]
  apply T.get_clear_of_ne m f s j hf hs
  rintro rfl
  exact hfresh hknown

section Write

variable (h : T.Tree depth m root known) (hpre : T.follow m root pre = some t)
  (hlt : pre.length < depth) (hdiff : T.DiffersAt known t i m m')
include h hpre hlt hdiff

/-- A path that does not pass through the written entry meets the same entries as before. -/
theorem Tree.agree (hp : p.length ≤ depth) (hnot : ¬ pre ++ [i] <+: p) :
    ∀ q j r s, p = q ++ j :: r → T.follow m root q = some s → T.get m' s j = T.get m s j := by
  rintro q j r s rfl hs
  have hq : q.length < depth := by
    simp at hp
    omega
  rcases h.table q s hq hs with ⟨htable, hknown⟩
  apply hdiff s hknown htable
  rintro rfl rfl
  have heq := h.inj pre q s hlt hq hpre hs
  subst heq
  exact hnot ⟨r, by simp⟩

theorem Tree.follow_of_not_below (hp : p.length ≤ depth) (hnot : ¬ pre ++ [i] <+: p) :
    T.follow m' root p = T.follow m root p :=
  follow_congr (h.agree hpre hlt hdiff hp hnot)

theorem Tree.lookup_of_not_below (hp : p.length ≤ depth) (hnot : ¬ pre ++ [i] <+: p) :
    T.lookup m' root p = T.lookup m root p :=
  lookup_congr (h.agree hpre hlt hdiff hp hnot)

theorem Tree.follow_pre : T.follow m' root pre = some t := by
  rw [h.follow_of_not_below hpre hlt hdiff hlt.le, hpre]
  intro hbelow
  have hlen := hbelow.length_le
  rw [List.length_append, List.length_singleton] at hlen
  omega

theorem Tree.follow_through (r : List I) :
    T.follow m' root (pre ++ [i] ++ r) = T.follow m' t (i :: r) := by
  rw [List.append_assoc, follow_append, h.follow_pre hpre hlt hdiff]
  rfl

theorem Tree.lookup_through (r : List I) :
    T.lookup m' root (pre ++ [i] ++ r) = T.lookup m' t (i :: r) := by
  rw [List.append_assoc]
  exact lookup_append (by simp) (h.follow_pre hpre hlt hdiff)

/-- Writing an entry that links to no table keeps the tree. -/
theorem Tree.store (hlinks : T.links (T.get m' t i) = false ∨ pre.length + 1 = depth) :
    T.Tree depth m' root known := by
  have hsub : ∀ p s, p.length < depth → T.follow m' root p = some s →
      T.follow m root p = some s := by
    intro p s hp hs
    by_cases hbelow : pre ++ [i] <+: p
    · rcases hbelow with ⟨r, rfl⟩
      rcases hlinks with hnone | hlast
      · rw [h.follow_through hpre hlt hdiff, follow_cons, hnone] at hs
        simp at hs
      · simp at hp
        omega
    · rwa [← h.follow_of_not_below hpre hlt hdiff hp.le hbelow]
  constructor
  · intro p s hp hs
    exact h.table p s hp (hsub p s hp hs)
  · intro p q s hp hq hps hqs
    exact h.inj p q s hp hq (hsub p s hp hps) (hsub q s hq hqs)

/-- Linking a cleared table that was not known. -/
theorem Tree.link {f : ℕ} (hnext : pre.length + 1 < depth)
    (hlinks : T.links (T.get m' t i) = true) (hchild : T.child (T.get m' t i) = f)
    (hfree : T.valid (T.get m t i) = false) (htable : T.IsTable f) (hfresh : f ∉ known)
    (hclear : ∀ j, T.get m' f j = T.empty) : T.Tree depth m' root (insert f known) ∧
      T.follow m' root (pre ++ [i]) = some f ∧
      (∀ p, p.length < depth →
        (T.follow m' root p = none ↔ T.follow m root p = none ∧ p ≠ pre ++ [i])) ∧
      ∀ p, p.length = depth → T.lookup m' root p = T.lookup m root p := by
  have hstop : ∀ j r, T.follow m' f (j :: r) = none := by
    intro j r
    simp [follow_cons, links, hclear, T.valid_empty]
  have hthrough : ∀ r, T.follow m' root (pre ++ [i] ++ r) = T.follow m' f r := by
    intro r
    rw [h.follow_through hpre hlt hdiff, follow_cons, if_pos hlinks, hchild]
  -- a path that is followed in the new memory was followed before, or ends at the new table
  have hcases : ∀ p s, p.length < depth → T.follow m' root p = some s →
      (T.follow m root p = some s) ∨ (p = pre ++ [i] ∧ s = f) := by
    intro p s hp hs
    by_cases hbelow : pre ++ [i] <+: p
    · rcases hbelow with ⟨r, rfl⟩
      rw [hthrough] at hs
      cases r with
      | nil => exact .inr ⟨by simp, (Option.some.inj hs).symm⟩
      | cons j r => simp [hstop] at hs
    · rw [h.follow_of_not_below hpre hlt hdiff hp.le hbelow] at hs
      exact .inl hs
  refine ⟨⟨?_, ?_⟩, ?_, ?_, ?_⟩
  · intro p s hp hs
    rcases hcases p s hp hs with hold | ⟨-, rfl⟩
    · exact ⟨(h.table p s hp hold).1, Set.mem_insert_of_mem f (h.table p s hp hold).2⟩
    · exact ⟨htable, Set.mem_insert s known⟩
  · intro p q s hp hq hps hqs
    rcases hcases p s hp hps with hp' | ⟨rfl, rfl⟩ <;> rcases hcases q s hq hqs with hq' | ⟨rfl, hs⟩
    · exact h.inj p q s hp hq hp' hq'
    · exact absurd (hs ▸ (h.table p s hp hp').2) hfresh
    · exact absurd (h.table q s hq hq').2 hfresh
    · rfl
  · simpa using hthrough []
  · intro p hp
    by_cases hbelow : pre ++ [i] <+: p
    · rcases hbelow with ⟨r, rfl⟩
      have hold : T.follow m root (pre ++ [i] ++ r) = none := by
        rw [List.append_assoc, follow_append, hpre]
        simp [follow_cons, links, hfree]
      rw [hold, hthrough]
      cases r with
      | nil => simp
      | cons j r => simp [hstop]
    · have hne : p ≠ pre ++ [i] := by
        rintro rfl
        exact hbelow List.prefix_rfl
      rw [h.follow_of_not_below hpre hlt hdiff hp.le hbelow]
      simp [hne]
  · intro p hp
    by_cases hbelow : pre ++ [i] <+: p
    · rcases hbelow with ⟨r, rfl⟩
      cases r with
      | nil =>
        simp at hp
        omega
      | cons j r =>
        have hold : T.lookup m root (pre ++ [i] ++ j :: r) = none := by
          rw [List.append_assoc, lookup_append (by simp) hpre]
          simp [lookup, hfree]
        rw [hold, h.lookup_through hpre hlt hdiff]
        simp only [links, Bool.and_eq_true, Bool.not_eq_true'] at hlinks
        simp [lookup, hlinks, hchild, hclear, T.valid_empty]
    · exact h.lookup_of_not_below hpre hlt hdiff hp.le hbelow

end Write

/-! ### Missing tables -/

/-- The ways along the paths that lead to no table. -/
def missing [DecidableEq I] (T : Tables M I E) (m : M) (root : ℕ) (paths : List (List I)) :
    Finset (List I) :=
  (paths.flatMap List.inits).toFinset.filter fun p => T.follow m root p = none

variable [DecidableEq I] {paths : List (List I)}

theorem mem_missing :
    p ∈ T.missing m root paths ↔ (∃ path ∈ paths, p <+: path) ∧ T.follow m root p = none := by
  simp [missing]

theorem mem_missing_singleton :
    p ∈ T.missing m root [q] ↔ p <+: q ∧ T.follow m root p = none := by
  simp [mem_missing]

theorem missing_of_follow (h : T.follow m root p = some t) : T.missing m root [p] = ∅ := by
  apply Finset.eq_empty_of_forall_notMem
  intro q hq
  rcases mem_missing_singleton.mp hq with ⟨⟨r, rfl⟩, hnone⟩
  simp [follow_append, hnone] at h

theorem missing_subset : T.missing m root [p] ⊆ T.missing m root (p :: paths) := by
  intro q hq
  rcases mem_missing_singleton.mp hq with ⟨hbelow, hnone⟩
  exact mem_missing.mpr ⟨⟨p, List.mem_cons_self, hbelow⟩, hnone⟩

end Tables

end OpenIon.Lib
