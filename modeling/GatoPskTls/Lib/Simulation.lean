import GatoPskTls.Lib.Stateful

/-!
# Computations that differ in their states only

Two computations run from related states and give the same answer or the same error, in related
states again. The rules follow the way computations are put together.
-/
namespace Stateful

variable {ε σ τ ρ α β : Type} {R : σ → τ → Prop}

/-- The same answer or the same error, in related states. -/
def Alike (R : σ → τ → Prop) : EStateM.Result ε σ α → EStateM.Result ε τ α → Prop
  | .ok a s, .ok b t => a = b ∧ R s t
  | .error e s, .error e' t => e = e' ∧ R s t
  | _, _ => False

def Simulates (R : σ → τ → Prop) (x : EStateM ε σ α) (y : EStateM ε τ α) : Prop :=
  ∀ s t, R s t → Alike R (x s) (y t)

theorem bind_of_eq {x y : EStateM ε σ α} {s : σ} (h : x s = y s) (f : α → EStateM ε σ β) :
    (x >>= f) s = (y >>= f) s := by
  cases hx : x s with
  | ok a t => rw [bind_of_ok hx, bind_of_ok (h.symm.trans hx)]
  | error e t => rw [bind_of_error hx, bind_of_error (h.symm.trans hx)]

namespace Alike

variable {r : EStateM.Result ε σ α} {r' : EStateM.Result ε τ α}

theorem cases (h : Alike R r r') : (∃ a s t, r = .ok a s ∧ r' = .ok a t ∧ R s t) ∨
    ∃ e s t, r = .error e s ∧ r' = .error e t ∧ R s t := by
  cases r with
  | ok a s =>
      cases r' with
      | ok b t =>
          obtain ⟨rfl, hst⟩ := h
          exact .inl ⟨a, s, t, rfl, rfl, hst⟩
      | error e t => exact h.elim
  | error e s =>
      cases r' with
      | ok b t => exact h.elim
      | error e' t =>
          obtain ⟨rfl, hst⟩ := h
          exact .inr ⟨e, s, t, rfl, rfl, hst⟩

theorem outcome_eq (h : Alike R r r') : outcome r = outcome r' := by
  obtain ⟨a, s, t, rfl, rfl, -⟩ | ⟨e, s, t, rfl, rfl, -⟩ := h.cases
  · rfl
  · rfl

theorem after (h : Alike R r r') : R (Stateful.after r) (Stateful.after r') := by
  obtain ⟨a, s, t, rfl, rfl, hst⟩ | ⟨e, s, t, rfl, rfl, hst⟩ := h.cases
  · exact hst
  · exact hst

theorem mono {Q : σ → τ → Prop} (h : Alike R r r') (hQ : ∀ s t, R s t → Q s t) : Alike Q r r' := by
  obtain ⟨a, s, t, rfl, rfl, hst⟩ | ⟨e, s, t, rfl, rfl, hst⟩ := h.cases
  · exact ⟨rfl, hQ s t hst⟩
  · exact ⟨rfl, hQ s t hst⟩

theorem bind {x : EStateM ε σ α} {y : EStateM ε τ α} {f : α → EStateM ε σ β}
    {g : α → EStateM ε τ β} {s : σ} {t : τ} (h : Alike R (x s) (y t))
    (hf : ∀ a, Simulates R (f a) (g a)) : Alike R ((x >>= f) s) ((y >>= g) t) := by
  obtain ⟨a, s', t', hx, hy, hst⟩ | ⟨e, s', t', hx, hy, hst⟩ := h.cases
  · rw [bind_of_ok hx, bind_of_ok hy]
    exact hf a s' t' hst
  · rw [bind_of_error hx, bind_of_error hy]
    exact ⟨rfl, hst⟩

end Alike

namespace Simulates

theorem pure (a : α) : Simulates R (Pure.pure a : EStateM ε σ α) (Pure.pure a) :=
  fun _ _ h => ⟨rfl, h⟩

theorem throw (e : ε) : Simulates R (MonadExcept.throw e : EStateM ε σ α) (MonadExcept.throw e) :=
  fun _ _ h => ⟨rfl, h⟩

theorem bind {x : EStateM ε σ α} {y : EStateM ε τ α} {f : α → EStateM ε σ β}
    {g : α → EStateM ε τ β} (h : Simulates R x y) (hf : ∀ a, Simulates R (f a) (g a)) :
    Simulates R (x >>= f) (y >>= g) := fun s t hst => (h s t hst).bind hf

theorem get_bind {f : σ → EStateM ε σ β} {g : τ → EStateM ε τ β}
    (h : ∀ s t, R s t → Simulates R (f s) (g t)) : Simulates R (get >>= f) (get >>= g) :=
  fun s t hst => h s t hst s t hst

theorem fromResult (r : Except ε α) :
    Simulates R (Stateful.fromResult r : EStateM ε σ α) (Stateful.fromResult r) := by
  cases r with
  | ok a => exact pure a
  | error e => exact throw e

/-- A part that is the same in related states, and may be put back. -/
theorem onPart {view : σ → ρ} {put : σ → ρ → σ} {view' : τ → ρ} {put' : τ → ρ → τ}
    {x : EStateM ε ρ α} (hview : ∀ s t, R s t → view s = view' t)
    (hput : ∀ s t p, R s t → R (put s p) (put' t p)) :
    Simulates R (Stateful.onPart view put x) (Stateful.onPart view' put' x) := by
  intro s t hst
  simp only [Stateful.onPart, hview s t hst]
  cases x (view' t) with
  | ok a p => exact ⟨rfl, hput s t p hst⟩
  | error e p => exact ⟨rfl, hput s t p hst⟩

/-- Parts that are related in related states. -/
theorem onParts {ρ' : Type} {Q : ρ → ρ' → Prop} {view : σ → ρ} {put : σ → ρ → σ} {view' : τ → ρ'}
    {put' : τ → ρ' → τ} {x : EStateM ε ρ α} {y : EStateM ε ρ' α} (h : Simulates Q x y)
    (hview : ∀ s t, R s t → Q (view s) (view' t))
    (hput : ∀ s t p p', R s t → Q p p' → R (put s p) (put' t p')) :
    Simulates R (Stateful.onPart view put x) (Stateful.onPart view' put' y) := by
  intro s t hst
  obtain ⟨a, p, p', hx, hy, hpp⟩ | ⟨e, p, p', hx, hy, hpp⟩ := (h _ _ (hview s t hst)).cases
  · rw [onPart_of_ok hx, onPart_of_ok hy]
    exact ⟨rfl, hput s t p p' hst hpp⟩
  · rw [onPart_of_error hx, onPart_of_error hy]
    exact ⟨rfl, hput s t p p' hst hpp⟩

theorem modify {f : σ → σ} {g : τ → τ} (h : ∀ s t, R s t → R (f s) (g t)) :
    Simulates R (modifyThe σ f : EStateM ε σ PUnit) (modifyThe τ g) :=
  fun s t hst => ⟨rfl, h s t hst⟩

end Simulates

end Stateful
