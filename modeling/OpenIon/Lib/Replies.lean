import Mathlib.Data.List.Basic

/-! # Machines that reply

`step s a` is the reply to a request and the state after it. Two machines that are related
before a request, reply in the same way and are related after it give the same replies to
every sequence of requests.
-/
namespace OpenIon.Lib

variable {σ τ α β : Type*}

/-- The replies to a sequence of requests, and the state after them. -/
def replies (step : σ → α → β × σ) : σ → List α → List β × σ
  | s, [] => ([], s)
  | s, a :: as =>
    let rest := replies step (step s a).2 as
    ((step s a).1 :: rest.1, rest.2)

theorem replies_simulate {step : σ → α → β × σ} {step' : τ → α → β × τ} {R : σ → τ → Prop}
    (hstep : ∀ s t a, R s t → (step s a).1 = (step' t a).1 ∧ R (step s a).2 (step' t a).2)
    {s : σ} {t : τ} (h : R s t) (as : List α) :
    (replies step s as).1 = (replies step' t as).1 ∧
      R (replies step s as).2 (replies step' t as).2 := by
  induction as generalizing s t with
  | nil => exact ⟨rfl, h⟩
  | cons a as ih =>
    rcases hstep s t a h with ⟨hreply, hnext⟩
    rcases ih hnext with ⟨hreplies, hlast⟩
    refine ⟨?_, hlast⟩
    rw [replies, replies, hreply, hreplies]

end OpenIon.Lib
