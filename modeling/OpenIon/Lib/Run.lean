import Mathlib.Data.List.Basic

/-! # Runs of a partial labelled step function

`step s a` is the state after action `a`, or `none` when `a` is not possible in
`s`. A run is a list of actions. Invariants are proved once for a single step;
`Always` and `Along` speak about all states, and all steps, of one run.
-/
namespace OpenIon.Lib

variable {σ α : Type*} (step : σ → α → Option σ)

/-- The state after performing the actions in order, if all of them are possible. -/
def run : σ → List α → Option σ
  | s, [] => some s
  | s, a :: as => (step s a).bind fun s' => run s' as

/-- `P` holds in every state the actions pass through, the first and last included. -/
def Always (P : σ → Prop) : σ → List α → Prop
  | s, [] => P s
  | s, a :: as => P s ∧ ∀ s', step s a = some s' → Always P s' as

/-- Every step the run takes is taken in a state where `ok` allows it. -/
def Along (ok : σ → α → Prop) : σ → List α → Prop
  | _, [] => True
  | s, a :: as => ∀ s', step s a = some s' → ok s a ∧ Along ok s' as

variable {step} {P : σ → Prop} {ok : σ → α → Prop} {s s' : σ} {a : α} {as bs : List α}

@[simp] theorem run_nil : run step s [] = some s := rfl

theorem run_cons : run step s (a :: as) = (step s a).bind fun s' => run step s' as := rfl

theorem run_cons_eq_some {t : σ} :
    run step s (a :: as) = some t ↔ ∃ s', step s a = some s' ∧ run step s' as = some t := by
  rw [run_cons, Option.bind_eq_some_iff]

theorem run_append : run step s (as ++ bs) = (run step s as).bind fun s' => run step s' bs := by
  induction as generalizing s with
  | nil => rfl
  | cons a as ih =>
    rw [List.cons_append, run_cons, run_cons]
    cases step s a with
    | none => rfl
    | some m => exact ih

/-- What every step preserves, every run preserves. -/
theorem run_preserves (hstep : ∀ s a s', P s → step s a = some s' → P s')
    (hs : P s) (hrun : run step s as = some s') : P s' := by
  induction as generalizing s with
  | nil => exact Option.some.inj hrun ▸ hs
  | cons a as ih =>
    obtain ⟨m, hm, hrest⟩ := run_cons_eq_some.mp hrun
    exact ih (hstep s a m hs hm) hrest

theorem run_simulates {τ : Type*} {step' : τ → α → Option τ} {R : σ → τ → Prop} {t : τ}
    (hstep : ∀ s t a s', R s t → step s a = some s' → ∃ t', step' t a = some t' ∧ R s' t')
    (h : R s t) (hrun : run step s as = some s') : ∃ t', run step' t as = some t' ∧ R s' t' := by
  induction as generalizing s t with
  | nil => exact ⟨t, rfl, Option.some.inj hrun ▸ h⟩
  | cons a as ih =>
    obtain ⟨m, hm, hrest⟩ := run_cons_eq_some.mp hrun
    obtain ⟨t', ht', hR⟩ := hstep s t a m h hm
    obtain ⟨u, hu, hlast⟩ := ih hR hrest
    exact ⟨u, run_cons_eq_some.mpr ⟨t', ht', hu⟩, hlast⟩

theorem along_cons_of_none (h : step s a = none) : Along step ok s (a :: as) := by
  intro s' hs'
  simp [h] at hs'

theorem along_cons_of_some (h : step s a = some s') :
    Along step ok s (a :: as) ↔ ok s a ∧ Along step ok s' as := by
  simp [Along, h]

theorem along_of_forall (h : ∀ a ∈ as, ∀ s, ok s a) : Along step ok s as := by
  induction as generalizing s with
  | nil => trivial
  | cons a as ih =>
    exact fun s' _ => ⟨h a List.mem_cons_self s, ih fun b hb => h b (List.mem_cons_of_mem a hb)⟩

instance Along.instDecidable [∀ s a, Decidable (ok s a)] :
    (s : σ) → (as : List α) → Decidable (Along step ok s as)
  | _, [] => isTrue trivial
  | s, a :: as =>
    match h : step s a with
    | none => isTrue (along_cons_of_none h)
    | some s' =>
      have := Along.instDecidable s' as
      decidable_of_iff _ (along_cons_of_some h).symm

/-- What every allowed step preserves holds throughout a run of allowed steps. -/
theorem Along.always (hstep : ∀ s a s', P s → ok s a → step s a = some s' → P s')
    (hs : P s) (halong : Along step ok s as) : Always step P s as := by
  induction as generalizing s with
  | nil => exact hs
  | cons a as ih =>
    exact ⟨hs, fun s' h => ih (hstep s a s' hs (halong s' h).1 h) (halong s' h).2⟩

/-- Allowed steps are allowed in another sense too, if an invariant that they keep makes them so. -/
theorem Along.imp {ok' : σ → α → Prop}
    (hstep : ∀ s a s', P s → ok s a → step s a = some s' → P s')
    (himp : ∀ s a, P s → ok s a → ok' s a) (hs : P s) (halong : Along step ok s as) :
    Along step ok' s as := by
  induction as generalizing s with
  | nil => trivial
  | cons a as ih =>
    intro s' h
    obtain ⟨hok, hrest⟩ := halong s' h
    exact ⟨himp s a hs hok, ih (hstep s a s' hs hok h) hrest⟩

theorem always_of_step (hstep : ∀ s a s', P s → step s a = some s' → P s') (hs : P s) :
    Always step P s as := by
  induction as generalizing s with
  | nil => exact hs
  | cons a as ih => exact ⟨hs, fun s' h => ih (hstep s a s' hs h)⟩

theorem Always.head (h : Always step P s as) : P s := by
  cases as with
  | nil => exact h
  | cons a as => exact h.1

theorem Always.imp {Q : σ → Prop} (hpq : ∀ s, P s → Q s) (h : Always step P s as) :
    Always step Q s as := by
  induction as generalizing s with
  | nil => exact hpq s h
  | cons a as ih => exact ⟨hpq s h.1, fun s' hs => ih (h.2 s' hs)⟩

theorem Always.last (h : Always step P s as) (hrun : run step s as = some s') : P s' := by
  induction as generalizing s with
  | nil => exact Option.some.inj hrun ▸ h
  | cons a as ih =>
    obtain ⟨m, hm, hrest⟩ := run_cons_eq_some.mp hrun
    exact ih (h.2 m hm) hrest

/-- When a step that is not allowed always breaks `Q`, the runs that keep `Q` throughout
are exactly those made of allowed steps. -/
theorem always_iff_along {Q : σ → Prop} (hPQ : ∀ s, P s → Q s)
    (hstep : ∀ s a s', P s → ok s a → step s a = some s' → P s')
    (hbad : ∀ s a s', P s → ¬ ok s a → step s a = some s' → ¬ Q s')
    (hs : P s) : Always step Q s as ↔ Along step ok s as := by
  refine ⟨fun h => ?_, fun h => (h.always hstep hs).imp hPQ⟩
  induction as generalizing s with
  | nil => trivial
  | cons a as ih =>
    intro s' hs'
    by_cases hok : ok s a
    · exact ⟨hok, ih (hstep s a s' hs hok hs') (h.2 s' hs')⟩
    · exact absurd (h.2 s' hs').head (hbad s a s' hs hok hs')

end OpenIon.Lib
