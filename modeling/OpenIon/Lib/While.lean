import OpenIon.Lib.Logged
import OpenIon.Lib.Orbit

/-! # Loops bounded by fuel

`loop out more turn n s` repeats `turn` while `more` asks for it, at most `n` times to
look; it fails with `out` when that is not enough. Whether it finishes, and which turns
it takes, are read off the iteration of the partial function `move`.
-/
namespace OpenIon.Lib

variable {ε χ σ : Type} {out : χ} {more : σ → Bool} {turn : σ → Logged ε χ σ} {s : σ} {n : ℕ}

def loop (out : χ) (more : σ → Bool) (turn : σ → Logged ε χ σ) : ℕ → σ → Logged ε χ σ
  | 0, _ => Logged.fail out
  | n + 1, s => if more s then turn s >>= loop out more turn n else pure s

/-- The state after one turn, when there is one and it does not fail. -/
def move (more : σ → Bool) (turn : σ → Logged ε χ σ) (s : σ) : Option σ :=
  if more s then (turn s).value.toOption else none

theorem loop_stop (h : more s = false) : loop out more turn (n + 1) s = pure s := by
  simp [loop, h]

theorem loop_more (h : more s = true) :
    loop out more turn (n + 1) s = turn s >>= loop out more turn n := by
  simp [loop, h]

theorem move_eq_some {t : σ} :
    move more turn s = some t ↔ more s = true ∧ (turn s).value = .ok t := by
  unfold move
  cases more s <;> cases (turn s).value <;> simp [Except.toOption]

/-- When no turn runs out itself, the fuel is enough exactly when the iteration has ended. -/
theorem loop_ne_out_iff (hturn : ∀ s, (turn s).value ≠ .error out) :
    (loop out more turn n s).value ≠ .error out ↔ iter (move more turn) n s = none := by
  induction n generalizing s with
  | zero => simp [loop]
  | succ n ih =>
    rw [iter_succ]
    cases hmore : more s with
    | false => simp [loop_stop hmore, move, hmore]
    | true =>
      rw [loop_more hmore, move, hmore]
      cases hvalue : (turn s).value with
      | error e =>
        have hne : e ≠ out := fun h => hturn s (h ▸ hvalue)
        simpa [Logged.value_bind_error hvalue, Except.toOption] using hne
      | ok t => simpa [Logged.value_bind_ok hvalue, Except.toOption] using ih

theorem loop_finishes_iff (hturn : ∀ s, (turn s).value ≠ .error out) :
    (∃ n, (loop out more turn n s).value ≠ .error out) ↔ Halts (move more turn) s := by
  simp only [Halts, loop_ne_out_iff hturn]

/-- A measure that every turn lowers bounds the fuel that is needed. -/
theorem loop_ne_out_of_measure (hturn : ∀ s, (turn s).value ≠ .error out) (μ : σ → ℕ)
    (hμ : ∀ s t, move more turn s = some t → μ t < μ s) (hn : μ s < n) :
    (loop out more turn n s).value ≠ .error out := by
  rw [loop_ne_out_iff hturn]
  induction n generalizing s with
  | zero => omega
  | succ n ih =>
    rw [iter_succ]
    cases hmove : move more turn s with
    | none => rfl
    | some t =>
      have hlt := hμ s t hmove
      exact ih (by omega)

theorem loop_of_le {m : ℕ} (h : (loop out more turn n s).value ≠ .error out) (hle : n ≤ m) :
    loop out more turn m s = loop out more turn n s := by
  induction n generalizing m s with
  | zero => exact absurd rfl h
  | succ n ih =>
    obtain ⟨m, rfl⟩ : ∃ k, m = k + 1 := ⟨m - 1, by omega⟩
    cases hmore : more s with
    | false => rw [loop_stop hmore, loop_stop hmore]
    | true =>
      rw [loop_more hmore] at h
      rw [loop_more hmore, loop_more hmore]
      refine Logged.bind_congr fun t ht => ih ?_ (by omega)
      rwa [Logged.value_bind_ok ht] at h

theorem all_loop_of_le {P : ε → Prop} {m : ℕ} (h : (loop out more turn m s).All P) (hle : n ≤ m) :
    (loop out more turn n s).All P := by
  induction n generalizing m s with
  | zero => simp [loop]
  | succ n ih =>
    obtain ⟨m, rfl⟩ : ∃ k, m = k + 1 := ⟨m - 1, by omega⟩
    cases hmore : more s with
    | false => simp [loop_stop hmore]
    | true =>
      rw [loop_more hmore, Logged.all_bind] at h ⊢
      exact ⟨h.1, fun t ht => ih (h.2 t ht) (by omega)⟩

/-- All that the loop ever records is recorded by the turns along the iteration. -/
theorem all_loop_iff {P : ε → Prop} :
    (∀ n, (loop out more turn n s).All P) ↔
      ∀ i t, iter (move more turn) i s = some t → more t = true → (turn t).All P := by
  constructor
  · intro h i
    induction i generalizing s with
    | zero =>
      intro t ht hmore
      obtain rfl : s = t := Option.some.inj ht
      have hone := h 1
      rw [loop_more hmore, Logged.all_bind] at hone
      exact hone.1
    | succ i ih =>
      intro t ht hmore
      obtain ⟨u, hu, hrest⟩ := Option.bind_eq_some_iff.mp ht
      obtain ⟨hmores, hvalue⟩ := move_eq_some.mp hu
      refine ih (fun n => ?_) t hrest hmore
      have hnext := h (n + 1)
      rw [loop_more hmores, Logged.all_bind] at hnext
      exact hnext.2 u hvalue
  · intro h n
    induction n generalizing s with
    | zero => simp [loop]
    | succ n ih =>
      cases hmore : more s with
      | false => simp [loop_stop hmore]
      | true =>
        rw [loop_more hmore, Logged.all_bind]
        refine ⟨h 0 s rfl hmore, fun u hu => ih fun i t ht hmoret => ?_⟩
        refine h (i + 1) t ?_ hmoret
        rw [iter_succ, move_eq_some.mpr ⟨hmore, hu⟩, Option.bind_some, ht]

/-- A loop over the images of the states takes the same turns. -/
theorem loop_map {τ : Type} {more' : τ → Bool} {turn' : τ → Logged ε χ τ} (f : σ → τ)
    (hmore : ∀ s, more' (f s) = more s)
    (hturn : ∀ s, turn' (f s) = turn s >>= fun t => pure (f t)) :
    loop out more' turn' n (f s) = loop out more turn n s >>= fun t => pure (f t) := by
  induction n generalizing s with
  | zero => rfl
  | succ n ih =>
    cases hm : more s with
    | false =>
      rw [loop_stop hm, loop_stop ((hmore s).trans hm)]
      rfl
    | true =>
      rw [loop_more hm, loop_more ((hmore s).trans hm), hturn s, Logged.bind_assoc,
        Logged.bind_assoc]
      exact Logged.bind_congr fun t _ => ih

/-! ### Runs of a loop -/

/-- After some turns that record `es` the loop is in the state `t`. -/
def Leads (out : χ) (more : σ → Bool) (turn : σ → Logged ε χ σ) (s : σ) (es : List ε) (t : σ) :
    Prop :=
  ∃ n, ∀ fuel, loop out more turn (n + fuel) s =
    (Logged.tellAll es >>= fun _ => loop out more turn fuel t)

variable {t u : σ} {es es' : List ε}

theorem Leads.refl (s : σ) : Leads out more turn s [] s :=
  ⟨0, fun fuel => by rw [Nat.zero_add]; rfl⟩

theorem Leads.single (hmore : more s = true)
    (hturn : turn s = (Logged.tellAll es >>= fun _ => pure t)) : Leads out more turn s es t := by
  refine ⟨1, fun fuel => ?_⟩
  rw [Nat.add_comm, loop_more hmore, hturn, Logged.bind_assoc]
  rfl

theorem Leads.trans (h : Leads out more turn s es t) (h' : Leads out more turn t es' u) :
    Leads out more turn s (es ++ es') u := by
  obtain ⟨n, hn⟩ := h
  obtain ⟨m, hm⟩ := h'
  refine ⟨n + m, fun fuel => ?_⟩
  rw [Nat.add_assoc, hn, hm, ← Logged.bind_assoc, Logged.tellAll_bind_tellAll]

/-- With enough fuel, a loop that leads to a state where it stops ends there. -/
theorem Leads.loop_eq (h : Leads out more turn s es t) (hstop : more t = false)
    (henough : (loop out more turn n s).value ≠ .error out) :
    loop out more turn n s = ⟨.ok t, es⟩ := by
  obtain ⟨m, hm⟩ := h
  have hend : loop out more turn (m + 1) s = ⟨.ok t, es⟩ := by
    rw [hm, loop_stop hstop, Logged.tellAll_bind_pure]
  rw [← loop_of_le henough (le_max_left n (m + 1)), ← hend]
  exact loop_of_le (by rw [hend]; simp) (le_max_right n (m + 1))

end OpenIon.Lib
