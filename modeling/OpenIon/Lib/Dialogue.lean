import Mathlib.Data.List.Basic

/-! # Programs in dialogue with an environment

A program makes calls, and how it goes on depends on the answers. A run is the list of its calls
with their answers. A monitor follows a run with a state of its own and says which answers the
environment may give in that state. `Ensures` is a rule of pre- and postconditions over all runs
with such answers.
-/
namespace OpenIon.Lib

inductive Dialogue (Op Val : Type) (α : Type) where
  | ret (a : α)
  | call (op : Op) (next : Val → Dialogue Op Val α)

variable {Op Val : Type} {α β σ : Type}

namespace Dialogue

def bind : Dialogue Op Val α → (α → Dialogue Op Val β) → Dialogue Op Val β
  | ret a, f => f a
  | call op next, f => call op fun v => (next v).bind f

instance instMonad : Monad (Dialogue Op Val) where
  pure := ret
  bind := bind

/-- The program can make these calls, get these answers and return the value. -/
inductive Runs : Dialogue Op Val α → List (Op × Val) → α → Prop where
  | ret (a : α) : Runs (ret a) [] a
  | call {op : Op} {next : Val → Dialogue Op Val α} {v : Val} {t : List (Op × Val)} {a : α} :
    Runs (next v) t a → Runs (call op next) ((op, v) :: t) a

/-- The run in which the environment gives these answers, as long as they are needed. -/
def play : Dialogue Op Val α → List Val → Option (List (Op × Val) × α)
  | ret a, _ => some ([], a)
  | call _ _, [] => none
  | call op next, v :: answers =>
    (play (next v) answers).map fun run => ((op, v) :: run.1, run.2)

theorem runs_of_play {p : Dialogue Op Val α} {answers : List Val} {t : List (Op × Val)} {a : α}
    (h : p.play answers = some (t, a)) : p.Runs t a := by
  induction p generalizing answers t with
  | ret b =>
    cases h
    exact .ret _
  | call op next ih =>
    cases answers with
    | nil => cases h
    | cons v answers =>
      rw [play, Option.map_eq_some_iff] at h
      obtain ⟨run, hrun, heq⟩ := h
      cases heq
      exact .call (ih v hrun)

/-- A run of a sequence is a run of the first part and then one of the second. -/
theorem Runs.of_bind {p : Dialogue Op Val α} {f : α → Dialogue Op Val β} {t : List (Op × Val)}
    {b : β} (h : Runs (p >>= f) t b) :
    ∃ t₁ t₂ a, t = t₁ ++ t₂ ∧ Runs p t₁ a ∧ Runs (f a) t₂ b := by
  induction p generalizing t with
  | ret a => exact ⟨[], t, a, rfl, .ret a, h⟩
  | call op next ih =>
    cases h with
    | call hrest =>
      obtain ⟨t₁, t₂, a, rfl, h₁, h₂⟩ := ih _ hrest
      exact ⟨_ :: t₁, t₂, a, rfl, .call h₁, h₂⟩

end Dialogue

/-- An observer of runs: how its state changes, and which answers it allows. -/
structure Monitor (Op Val σ : Type) where
  step : σ → Op → Val → σ
  allows : σ → Op → Val → Prop

namespace Monitor

variable (M : Monitor Op Val σ)

def after (s : σ) (t : List (Op × Val)) : σ := t.foldl (fun s e => M.step s e.1 e.2) s

def Allows : σ → List (Op × Val) → Prop
  | _, [] => True
  | s, e :: t => M.allows s e.1 e.2 ∧ Allows (M.step s e.1 e.2) t

instance decidableAllows [∀ s op v, Decidable (M.allows s op v)] :
    ∀ (s : σ) (t : List (Op × Val)), Decidable (M.Allows s t)
  | _, [] => .isTrue trivial
  | s, e :: t =>
    have := decidableAllows (M.step s e.1 e.2) t
    inferInstanceAs (Decidable (_ ∧ _))

theorem after_append (s : σ) (t₁ t₂ : List (Op × Val)) :
    M.after s (t₁ ++ t₂) = M.after (M.after s t₁) t₂ := List.foldl_append

theorem allows_append {s : σ} {t₁ t₂ : List (Op × Val)} (h : M.Allows s (t₁ ++ t₂)) :
    M.Allows s t₁ ∧ M.Allows (M.after s t₁) t₂ := by
  induction t₁ generalizing s with
  | nil => exact ⟨trivial, h⟩
  | cons e t₁ ih =>
    obtain ⟨hfirst, hrest⟩ := ih h.2
    exact ⟨⟨h.1, hfirst⟩, hrest⟩

/-- From state `s` every run with allowed answers ends as `Q` says. -/
def Ensures (p : Dialogue Op Val α) (s : σ) (Q : α → σ → Prop) : Prop :=
  ∀ t a, p.Runs t a → M.Allows s t → Q a (M.after s t)

variable {M} {s : σ} {Q : α → σ → Prop}

theorem ensures_ret {a : α} (h : Q a s) : M.Ensures (pure a) s Q := by
  intro t b hrun _
  cases hrun
  exact h

theorem ensures_call {op : Op} {next : Val → Dialogue Op Val α}
    (h : ∀ v, M.allows s op v → M.Ensures (next v) (M.step s op v) Q) :
    M.Ensures (.call op next) s Q := by
  intro t a hrun hallows
  cases hrun with
  | call hrest => exact h _ hallows.1 _ a hrest hallows.2

theorem Ensures.bind {p : Dialogue Op Val α} {f : α → Dialogue Op Val β} {R : β → σ → Prop}
    (h : M.Ensures p s fun a s' => M.Ensures (f a) s' R) : M.Ensures (p >>= f) s R := by
  intro t b hrun hallows
  obtain ⟨t₁, t₂, a, rfl, h₁, h₂⟩ := hrun.of_bind
  obtain ⟨hallows₁, hallows₂⟩ := M.allows_append hallows
  rw [after_append]
  exact h t₁ a h₁ hallows₁ t₂ b h₂ hallows₂

theorem Ensures.mono {p : Dialogue Op Val α} {R : α → σ → Prop} (h : M.Ensures p s Q)
    (hQR : ∀ a s', Q a s' → R a s') : M.Ensures p s R :=
  fun t a hrun hallows => hQR a _ (h t a hrun hallows)

/-- What every step of the monitor keeps holds at the end of every run. -/
theorem ensures_invariant {I : σ → Prop} (hstep : ∀ s op v, I s → I (M.step s op v)) (hs : I s)
    (p : Dialogue Op Val α) : M.Ensures p s fun _ s' => I s' := by
  suffices h : ∀ t s, I s → I (M.after s t) from fun t _ _ _ => h t s hs
  intro t
  induction t with
  | nil => exact fun _ hs => hs
  | cons e t ih => exact fun s hs => ih _ (hstep s e.1 e.2 hs)

end Monitor

end OpenIon.Lib
