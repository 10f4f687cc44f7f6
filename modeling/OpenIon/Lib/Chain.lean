import Mathlib.Data.List.Nodup
import Mathlib.Logic.Function.Basic

/-! # Null-terminated chains of a successor function

An intrusive singly linked list is a head pointer together with a `next` field
in every node. `Segment next h l t` says that following `next` from `h` visits
exactly the nodes of `l` and stops at `t`; a `Chain` is a segment that stops at
null. Chains are determined by their head, never repeat a node, and depend on
the successor function only at their own nodes.
-/
namespace OpenIon.Lib

variable {α : Type*} {next next' : α → Option α} {h t : Option α} {a b : α} {l l' : List α}

/-- Following `next` from `h` visits exactly `l` and then stands at `t`. -/
def Segment (next : α → Option α) : Option α → List α → Option α → Prop
  | h, [], t => h = t
  | h, a :: l, t => h = some a ∧ Segment next (next a) l t

/-- A null-terminated linked list. -/
def Chain (next : α → Option α) (h : Option α) (l : List α) : Prop := Segment next h l none

/-- The node is met when the links are followed from `h`, whether or not they end. -/
def Linked (next : α → Option α) (h : Option α) (a : α) : Prop := ∃ l, Segment next h l (some a)

@[simp] theorem segment_nil : Segment next h [] t ↔ h = t := Iff.rfl

@[simp] theorem segment_cons :
    Segment next h (a :: l) t ↔ h = some a ∧ Segment next (next a) l t := Iff.rfl

@[simp] theorem chain_nil : Chain next h [] ↔ h = none := Iff.rfl

@[simp] theorem chain_cons : Chain next h (a :: l) ↔ h = some a ∧ Chain next (next a) l := Iff.rfl

theorem segment_append :
    Segment next h (l ++ l') t ↔ ∃ m, Segment next h l m ∧ Segment next m l' t := by
  induction l generalizing h with
  | nil => simp
  | cons a l ih =>
    simp only [List.cons_append, segment_cons, ih]
    constructor
    · rintro ⟨ha, m, hl, hl'⟩
      exact ⟨m, ⟨ha, hl⟩, hl'⟩
    · rintro ⟨m, ⟨ha, hl⟩, hl'⟩
      exact ⟨ha, m, hl, hl'⟩

theorem chain_append : Chain next h (l ++ l') ↔ ∃ m, Segment next h l m ∧ Chain next m l' :=
  segment_append

theorem Segment.congr (hs : Segment next h l t) (heq : ∀ a ∈ l, next' a = next a) :
    Segment next' h l t := by
  induction l generalizing h with
  | nil => exact hs
  | cons a l ih =>
    refine ⟨hs.1, ?_⟩
    rw [heq a List.mem_cons_self]
    exact ih hs.2 (fun b hb => heq b (List.mem_cons_of_mem _ hb))

theorem Chain.congr (hc : Chain next h l) (heq : ∀ a ∈ l, next' a = next a) : Chain next' h l :=
  Segment.congr hc heq

theorem Chain.unique (hc : Chain next h l) (hc' : Chain next h l') : l = l' := by
  induction l generalizing h l' with
  | nil =>
    cases l' with
    | nil => rfl
    | cons b l' => simp_all
  | cons a l ih =>
    cases l' with
    | nil => simp_all
    | cons b l' =>
      obtain rfl : a = b := by
        have hab := hc.1.symm.trans hc'.1
        exact Option.some.inj hab
      rw [ih hc.2 hc'.2]

/-- No node is met twice: a repeated node would make the chain its own proper tail. -/
theorem Chain.nodup (hc : Chain next h l) : l.Nodup := by
  induction l generalizing h with
  | nil => exact List.nodup_nil
  | cons a l ih =>
    refine List.nodup_cons.mpr ⟨fun hmem => ?_, ih hc.2⟩
    obtain ⟨l₁, l₂, rfl⟩ := List.append_of_mem hmem
    obtain ⟨m, -, hm⟩ := chain_append.mp hc.2
    have hlen := congrArg List.length (Chain.unique hm.2 hc.2)
    simp only [List.length_append, List.length_cons] at hlen
    omega

theorem Chain.head_eq (hc : Chain next h l) : h = l.head? := by
  cases l with
  | nil => exact hc
  | cons a l => exact hc.1

theorem Chain.eq_nil_iff (hc : Chain next h l) : h = none ↔ l = [] := by
  rw [hc.head_eq, List.head?_eq_none_iff]

/-- On a chain, being met by the links and being listed are the same. -/
theorem Chain.linked_iff (hc : Chain next h l) : Linked next h a ↔ a ∈ l := by
  constructor
  · rintro ⟨l', hs⟩
    induction l' generalizing h l with
    | nil =>
      rw [segment_nil.mp hs] at hc
      cases l with
      | nil => simp at hc
      | cons b l => simp [Option.some.inj hc.1]
    | cons b l' ih =>
      cases l with
      | nil => simp_all
      | cons c l =>
        obtain rfl : b = c := Option.some.inj (hs.1.symm.trans hc.1)
        exact List.mem_cons_of_mem _ (ih hc.2 hs.2)
  · intro ha
    obtain ⟨l₁, l₂, rfl⟩ := List.append_of_mem ha
    obtain ⟨m, hl₁, hm⟩ := chain_append.mp hc
    exact ⟨l₁, hm.1 ▸ hl₁⟩

theorem Chain.push_back (hc : Chain next h (l ++ [a])) (hl : ∀ c ∈ l, next' c = next c)
    (ha : next' a = some b) (hb : next' b = none) : Chain next' h (l ++ [a, b]) := by
  obtain ⟨m, hs, hm⟩ := chain_append.mp hc
  refine chain_append.mpr ⟨m, hs.congr hl, hm.1, ?_⟩
  rw [ha]
  exact ⟨rfl, hb⟩

/-- Bypassing the node behind `a` removes exactly that node. -/
theorem Chain.unlink_after (hc : Chain next h (l ++ a :: b :: l'))
    (hl : ∀ c ∈ l, next' c = next c) (hl' : ∀ c ∈ l', next' c = next c)
    (ha : next' a = next b) : Chain next' h (l ++ a :: l') := by
  obtain ⟨m, hs, hm⟩ := chain_append.mp hc
  refine chain_append.mpr ⟨m, hs.congr hl, hm.1, ?_⟩
  rw [ha]
  exact Chain.congr hm.2.2 hl'

instance Segment.instDecidable [DecidableEq α] (next : α → Option α) :
    (h : Option α) → (l : List α) → (t : Option α) → Decidable (Segment next h l t)
  | h, [], t => inferInstanceAs (Decidable (h = t))
  | h, a :: l, t =>
    have := Segment.instDecidable next (next a) l t
    inferInstanceAs (Decidable (h = some a ∧ Segment next (next a) l t))

instance Chain.instDecidable [DecidableEq α] (next : α → Option α) (h : Option α) (l : List α) :
    Decidable (Chain next h l) := inferInstanceAs (Decidable (Segment next h l none))

/-- The nodes met by following at most `n` links. -/
def walk (next : α → Option α) : ℕ → Option α → List α
  | 0, _ => []
  | _ + 1, none => []
  | n + 1, some a => a :: walk next n (next a)

theorem Chain.walk_eq {n : ℕ} (hc : Chain next h l) (hn : l.length ≤ n) : walk next n h = l := by
  induction l generalizing h n with
  | nil =>
    rw [chain_nil.mp hc]
    cases n <;> rfl
  | cons a l ih =>
    cases n with
    | zero => simp at hn
    | succ n =>
      rw [hc.1, walk, ih hc.2 (by simpa using hn)]

end OpenIon.Lib
