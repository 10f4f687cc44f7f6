import Mathlib.Order.Basic

/-! # Trees of named edges

`E a k c` says that `c` is the child of `a` that is called `k`. A path is a list of names, which
`Follows` leads from a node to its descendants.
-/
namespace OpenIon.Lib

variable {ι κ : Type*} {E : ι → κ → ι → Prop} {a b c root : ι} {k : κ} {ks : List κ}

/-- The names lead from `a` to `c`. -/
inductive Follows (E : ι → κ → ι → Prop) : ι → List κ → ι → Prop where
  | nil (a : ι) : Follows E a [] a
  | cons {a b c : ι} {k : κ} {ks : List κ} (edge : E a k b) (rest : Follows E b ks c) :
      Follows E a (k :: ks) c

/-- Every node has at most one parent, siblings have different names, the root has no parent, and
no path leads from a node back to it. -/
structure IsTree (E : ι → κ → ι → Prop) (root : ι) : Prop where
  parent : ∀ a a' k k' c, E a k c → E a' k' c → a = a'
  sibling : ∀ a k c c', E a k c → E a k c' → c = c'
  root : ∀ a k, ¬ E a k root
  acyclic : ∀ a k ks, ¬ Follows E a (k :: ks) a

@[simp] theorem follows_nil : Follows E a [] c ↔ a = c := by
  constructor
  · rintro ⟨⟩
    rfl
  · rintro rfl
    exact .nil a

theorem follows_cons : Follows E a (k :: ks) c ↔ ∃ b, E a k b ∧ Follows E b ks c := by
  constructor
  · rintro (_ | ⟨edge, rest⟩)
    exact ⟨_, edge, rest⟩
  · rintro ⟨b, edge, rest⟩
    exact .cons edge rest

theorem Follows.lt [Preorder ι] (hE : ∀ a k c, E a k c → a < c)
    (h : Follows E a (k :: ks) c) : a < c := by
  induction ks generalizing a k with
  | nil =>
    obtain ⟨b, edge, rest⟩ := follows_cons.mp h
    exact follows_nil.mp rest ▸ hE a k b edge
  | cons k' ks ih =>
    obtain ⟨b, edge, rest⟩ := follows_cons.mp h
    exact (hE a k b edge).trans (ih rest)

end OpenIon.Lib
