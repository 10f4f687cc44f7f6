import Mathlib.Data.List.Basic

/-! # Fallible computations with a log

A computation fails with some `χ` or has a value, and records events on the way. What
was recorded before a failure is kept. `All P` says that every recorded event has `P`.
-/
namespace OpenIon.Lib

structure Logged (ε χ α : Type) where
  value : Except χ α
  log : List ε

namespace Logged

variable {ε χ α β : Type} {P : ε → Prop}

def tell (e : ε) : Logged ε χ Unit := ⟨.ok (), [e]⟩

def tellAll (es : List ε) : Logged ε χ Unit := ⟨.ok (), es⟩

def fail (x : χ) : Logged ε χ α := ⟨.error x, []⟩

instance : Monad (Logged ε χ) where
  pure a := ⟨.ok a, []⟩
  bind x f :=
    match x.value with
    | .error e => ⟨.error e, x.log⟩
    | .ok a => ⟨(f a).value, x.log ++ (f a).log⟩

def All (P : ε → Prop) (x : Logged ε χ α) : Prop := ∀ e ∈ x.log, P e

instance [DecidablePred P] (x : Logged ε χ α) : Decidable (All P x) :=
  inferInstanceAs (Decidable (∀ e ∈ x.log, P e))

@[simp] theorem value_pure (a : α) : (pure a : Logged ε χ α).value = .ok a := rfl

@[simp] theorem value_fail (x : χ) : (fail x : Logged ε χ α).value = .error x := rfl

@[simp] theorem value_tell (e : ε) : (tell e : Logged ε χ Unit).value = .ok () := rfl

@[simp] theorem value_tellAll (es : List ε) : (tellAll es : Logged ε χ Unit).value = .ok () := rfl

@[simp] theorem log_pure (a : α) : (pure a : Logged ε χ α).log = [] := rfl

@[simp] theorem log_fail (x : χ) : (fail x : Logged ε χ α).log = [] := rfl

@[simp] theorem log_tell (e : ε) : (tell e : Logged ε χ Unit).log = [e] := rfl

@[simp] theorem log_tellAll (es : List ε) : (tellAll es : Logged ε χ Unit).log = es := rfl

@[simp] theorem pure_bind (a : α) (f : α → Logged ε χ β) : pure a >>= f = f a := rfl

theorem bind_pure (x : Logged ε χ α) : x >>= pure = x := by
  obtain ⟨e | a, log⟩ := x
  · rfl
  · simp [bind, pure]

theorem bind_assoc {γ : Type} (x : Logged ε χ α) (f : α → Logged ε χ β) (g : β → Logged ε χ γ) :
    x >>= f >>= g = x >>= fun a => f a >>= g := by
  obtain ⟨e | a, log⟩ := x
  · rfl
  · cases hf : (f a).value <;> simp [bind, hf]

theorem tellAll_bind_tellAll (es es' : List ε) :
    (tellAll es >>= fun _ => tellAll es' : Logged ε χ Unit) = tellAll (es ++ es') := rfl

theorem tellAll_bind_pure (es : List ε) (a : α) :
    (tellAll es >>= fun _ => pure a : Logged ε χ α) = ⟨.ok a, es⟩ := by
  simp [bind, tellAll, pure]

theorem tellAll_nil_bind (f : Unit → Logged ε χ α) : tellAll [] >>= f = f () := by
  simp [bind, tellAll]

theorem value_bind_ok {x : Logged ε χ α} {a : α} (h : x.value = .ok a) (f : α → Logged ε χ β) :
    (x >>= f).value = (f a).value := by
  obtain ⟨v, log⟩ := x
  obtain rfl : v = .ok a := h
  rfl

theorem value_bind_error {x : Logged ε χ α} {e : χ} (h : x.value = .error e)
    (f : α → Logged ε χ β) : (x >>= f).value = .error e := by
  obtain ⟨v, log⟩ := x
  obtain rfl : v = .error e := h
  rfl

theorem log_bind_ok {x : Logged ε χ α} {a : α} (h : x.value = .ok a) (f : α → Logged ε χ β) :
    (x >>= f).log = x.log ++ (f a).log := by
  obtain ⟨v, log⟩ := x
  obtain rfl : v = .ok a := h
  rfl

theorem log_bind_error {x : Logged ε χ α} {e : χ} (h : x.value = .error e)
    (f : α → Logged ε χ β) : (x >>= f).log = x.log := by
  obtain ⟨v, log⟩ := x
  obtain rfl : v = .error e := h
  rfl

@[simp] theorem log_bind_pure (x : Logged ε χ α) (g : α → β) :
    (x >>= fun a => pure (g a)).log = x.log := by
  obtain ⟨e | a, log⟩ := x
  · rfl
  · simp [bind, pure]

theorem bind_congr {x : Logged ε χ α} {f g : α → Logged ε χ β}
    (h : ∀ a, x.value = .ok a → f a = g a) : x >>= f = x >>= g := by
  obtain ⟨e | a, log⟩ := x
  · rfl
  · simp only [bind, h a rfl]

@[simp] theorem toOption_bind (x : Logged ε χ α) (f : α → Logged ε χ β) :
    (x >>= f).value.toOption = x.value.toOption.bind fun a => (f a).value.toOption := by
  obtain ⟨e | a, log⟩ := x <;> rfl

theorem value_bind_eq_ok {x : Logged ε χ α} {f : α → Logged ε χ β} {b : β} :
    (x >>= f).value = .ok b ↔ ∃ a, x.value = .ok a ∧ (f a).value = .ok b := by
  cases h : x.value with
  | error e => simp [value_bind_error h]
  | ok a => simp [value_bind_ok h]

theorem value_bind_eq_error {x : Logged ε χ α} {f : α → Logged ε χ β} {e : χ} :
    (x >>= f).value = .error e ↔
      x.value = .error e ∨ ∃ a, x.value = .ok a ∧ (f a).value = .error e := by
  cases h : x.value with
  | error e => simp [value_bind_error h]
  | ok a => simp [value_bind_ok h]

theorem value_bind_ne_error {x : Logged ε χ α} {f : α → Logged ε χ β} {e : χ}
    (hx : x.value ≠ .error e) (hf : ∀ a, (f a).value ≠ .error e) :
    (x >>= f).value ≠ .error e := by
  intro h
  obtain herror | ⟨a, -, herror⟩ := value_bind_eq_error.mp h
  · exact hx herror
  · exact hf a herror

@[simp] theorem all_pure (a : α) : All P (pure a : Logged ε χ α) := by
  simp [All]

@[simp] theorem all_fail (x : χ) : All P (fail x : Logged ε χ α) := by
  simp [All]

@[simp] theorem all_tell (e : ε) : All P (tell e : Logged ε χ Unit) ↔ P e := by
  simp [All]

@[simp] theorem all_tellAll (es : List ε) :
    All P (tellAll es : Logged ε χ Unit) ↔ ∀ e ∈ es, P e := Iff.rfl

@[simp] theorem all_bind (x : Logged ε χ α) (f : α → Logged ε χ β) :
    All P (x >>= f) ↔ All P x ∧ ∀ a, x.value = .ok a → All P (f a) := by
  rcases x with ⟨e | a, log⟩
  · simp [All, bind]
  · simp [All, bind, or_imp, forall_and]

/-- The computation succeeds with `a`, and every event it records has `P`. -/
structure Gives (P : ε → Prop) (x : Logged ε χ α) (a : α) : Prop where
  value : x.value = .ok a
  all : x.All P

theorem gives_pure (a : α) : Gives P (pure a : Logged ε χ α) a := ⟨rfl, all_pure a⟩

theorem gives_tell {e : ε} (he : P e) : Gives P (tell e : Logged ε χ Unit) () :=
  ⟨rfl, (all_tell e).mpr he⟩

theorem Gives.bind {x : Logged ε χ α} {f : α → Logged ε χ β} {a : α} {b : β} (hx : Gives P x a)
    (hf : Gives P (f a) b) : Gives P (x >>= f) b := by
  refine ⟨(value_bind_ok hx.value f).trans hf.value, (all_bind x f).mpr ⟨hx.all, ?_⟩⟩
  intro a' ha'
  obtain rfl : a = a' := Except.ok.inj (hx.value.symm.trans ha')
  exact hf.all

end Logged

end OpenIon.Lib
