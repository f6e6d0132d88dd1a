import Mathlib.Tactic

/-!
# Fallible computations that keep their state on failure

A routine behind a mutable reference that returns a result is an `EStateM`:
what it wrote before it failed stays written. The lemmas below peel such
computations apart one bind at a time, in both outcomes.
-/
namespace Stateful

variable {ε ε' σ τ α β : Type}

instance decidableEqResult [DecidableEq ε] [DecidableEq σ] [DecidableEq α] :
    DecidableEq (EStateM.Result ε σ α)
  | .ok a s, .ok b t => decidable_of_iff (a = b ∧ s = t) (by simp)
  | .error d s, .error e t => decidable_of_iff (d = e ∧ s = t) (by simp)
  | .ok _ _, .error _ _ => isFalse (by simp)
  | .error _ _, .ok _ _ => isFalse (by simp)

/-- The state a computation leaves behind, whichever way it ended. -/
def after : EStateM.Result ε σ α → σ
  | .ok _ s => s
  | .error _ s => s

/-- The value or error of a computation, without the state. -/
def outcome : EStateM.Result ε σ α → Except ε α
  | .ok a _ => .ok a
  | .error e _ => .error e

@[simp] theorem after_ok (a : α) (s : σ) : after (.ok a s : EStateM.Result ε σ α) = s := rfl
@[simp] theorem after_error (e : ε) (s : σ) :
    after (.error e s : EStateM.Result ε σ α) = s := rfl
@[simp] theorem outcome_ok (a : α) (s : σ) :
    outcome (.ok a s : EStateM.Result ε σ α) = .ok a := rfl
@[simp] theorem outcome_error (e : ε) (s : σ) :
    outcome (.error e s : EStateM.Result ε σ α) = .error e := rfl

theorem outcome_eq_ok {r : EStateM.Result ε σ α} {a : α} (h : outcome r = .ok a) :
    r = .ok a (after r) := by
  cases r with
  | ok b s => simpa using h
  | error e s => simp at h

theorem outcome_eq_error {r : EStateM.Result ε σ α} {e : ε} (h : outcome r = .error e) :
    r = .error e (after r) := by
  cases r with
  | ok b s => simp at h
  | error d s => simpa using h

@[simp] theorem pure_apply (a : α) (s : σ) : (pure a : EStateM ε σ α) s = .ok a s := rfl
@[simp] theorem throw_apply (e : ε) (s : σ) : (throw e : EStateM ε σ α) s = .error e s := rfl
@[simp] theorem get_apply (s : σ) : (get : EStateM ε σ σ) s = .ok s s := rfl
@[simp] theorem set_apply (s t : σ) : (set t : EStateM ε σ PUnit) s = .ok ⟨⟩ t := rfl
@[simp] theorem modify_apply (f : σ → σ) (s : σ) :
    (modify f : EStateM ε σ PUnit) s = .ok ⟨⟩ (f s) := rfl

theorem bind_of_ok {x : EStateM ε σ α} {f : α → EStateM ε σ β} {s t : σ} {a : α}
    (h : x s = .ok a t) : (x >>= f) s = f a t := by
  change EStateM.bind x f s = _
  simp only [EStateM.bind, h]

theorem bind_of_error {x : EStateM ε σ α} {f : α → EStateM ε σ β} {s t : σ} {e : ε}
    (h : x s = .error e t) : (x >>= f) s = .error e t := by
  change EStateM.bind x f s = _
  simp only [EStateM.bind, h]

@[simp] theorem pure_bind_apply (a : α) (f : α → EStateM ε σ β) (s : σ) :
    ((pure a : EStateM ε σ α) >>= f) s = f a s := bind_of_ok rfl
@[simp] theorem throw_bind_apply (e : ε) (f : α → EStateM ε σ β) (s : σ) :
    ((throw e : EStateM ε σ α) >>= f) s = .error e s := bind_of_error rfl
@[simp] theorem get_bind_apply (f : σ → EStateM ε σ β) (s : σ) :
    ((get : EStateM ε σ σ) >>= f) s = f s s := bind_of_ok rfl
@[simp] theorem set_bind_apply (f : PUnit → EStateM ε σ β) (s t : σ) :
    ((set t : EStateM ε σ PUnit) >>= f) s = f ⟨⟩ t := bind_of_ok rfl
@[simp] theorem modify_bind_apply (g : σ → σ) (f : PUnit → EStateM ε σ β) (s : σ) :
    ((modify g : EStateM ε σ PUnit) >>= f) s = f ⟨⟩ (g s) := bind_of_ok rfl

theorem bind_eq_ok {x : EStateM ε σ α} {f : α → EStateM ε σ β} {s t : σ} {b : β} :
    (x >>= f) s = .ok b t ↔ ∃ a u, x s = .ok a u ∧ f a u = .ok b t := by
  cases h : x s with
  | ok a u => simp [bind_of_ok h]
  | error e u => simp [bind_of_error h]

theorem bind_eq_error {x : EStateM ε σ α} {f : α → EStateM ε σ β} {s t : σ} {e : ε} :
    (x >>= f) s = .error e t ↔
      x s = .error e t ∨ ∃ a u, x s = .ok a u ∧ f a u = .error e t := by
  cases h : x s with
  | ok a u => simp [bind_of_ok h]
  | error d u => simp [bind_of_error h]

/-- Translate the error, keeping value and state. -/
def mapError (g : ε → ε') (x : EStateM ε σ α) : EStateM ε' σ α := fun s =>
  match x s with
  | .ok a t => .ok a t
  | .error e t => .error (g e) t

theorem mapError_of_ok {g : ε → ε'} {x : EStateM ε σ α} {s t : σ} {a : α}
    (h : x s = .ok a t) : mapError g x s = .ok a t := by
  simp only [mapError, h]

theorem mapError_of_error {g : ε → ε'} {x : EStateM ε σ α} {s t : σ} {e : ε}
    (h : x s = .error e t) : mapError g x s = .error (g e) t := by
  simp only [mapError, h]

@[simp] theorem mapError_eq_ok {g : ε → ε'} {x : EStateM ε σ α} {s t : σ} {a : α} :
    mapError g x s = .ok a t ↔ x s = .ok a t := by
  cases h : x s with
  | ok b u => simp [mapError_of_ok h]
  | error e u => simp [mapError_of_error h]

theorem mapError_eq_error {g : ε → ε'} {x : EStateM ε σ α} {s t : σ} {e' : ε'} :
    mapError g x s = .error e' t ↔ ∃ e, x s = .error e t ∧ g e = e' := by
  cases h : x s with
  | ok b u => simp [mapError_of_ok h]
  | error e u => simp [mapError_of_error h, and_comm]

/-- Run a computation on one component of a larger state. -/
def onPart (view : τ → σ) (put : τ → σ → τ) (x : EStateM ε σ α) : EStateM ε τ α := fun t =>
  match x (view t) with
  | .ok a s => .ok a (put t s)
  | .error e s => .error e (put t s)

theorem onPart_of_ok {view : τ → σ} {put : τ → σ → τ} {x : EStateM ε σ α} {t : τ} {s : σ}
    {a : α} (h : x (view t) = .ok a s) : onPart view put x t = .ok a (put t s) := by
  simp only [onPart, h]

theorem onPart_of_error {view : τ → σ} {put : τ → σ → τ} {x : EStateM ε σ α} {t : τ} {s : σ}
    {e : ε} (h : x (view t) = .error e s) : onPart view put x t = .error e (put t s) := by
  simp only [onPart, h]

theorem after_onPart (view : τ → σ) (put : τ → σ → τ) (x : EStateM ε σ α) (t : τ) :
    after (onPart view put x t) = put t (after (x (view t))) := by
  cases h : x (view t) with
  | ok a s => rw [onPart_of_ok h, after_ok, after_ok]
  | error e s => rw [onPart_of_error h, after_error, after_error]

theorem onPart_eq_ok {view : τ → σ} {put : τ → σ → τ} {x : EStateM ε σ α} {t t' : τ} {a : α} :
    onPart view put x t = .ok a t' ↔ ∃ s, x (view t) = .ok a s ∧ t' = put t s := by
  cases h : x (view t) with
  | ok b u => simp [onPart_of_ok h, and_assoc, eq_comm]
  | error e u => simp [onPart_of_error h]

theorem onPart_eq_error {view : τ → σ} {put : τ → σ → τ} {x : EStateM ε σ α} {t t' : τ}
    {e : ε} :
    onPart view put x t = .error e t' ↔ ∃ s, x (view t) = .error e s ∧ t' = put t s := by
  cases h : x (view t) with
  | ok b u => simp [onPart_of_ok h]
  | error d u => simp [onPart_of_error h, and_assoc, eq_comm]

@[simp] theorem ok_bind (a : α) (f : α → Except ε β) : (Except.ok a >>= f) = f a := rfl
@[simp] theorem error_bind (e : ε) (f : α → Except ε β) :
    ((Except.error e : Except ε α) >>= f) = .error e := rfl

theorem except_bind_eq_ok {x : Except ε α} {f : α → Except ε β} {b : β} :
    (x >>= f) = .ok b ↔ ∃ a, x = .ok a ∧ f a = .ok b := by
  cases x with
  | ok a => simp
  | error e => simp

theorem mapError_eq_ok_iff {ε' : Type} {g : ε → ε'} {r : Except ε α} {a : α} :
    r.mapError g = .ok a ↔ r = .ok a := by
  cases r with
  | ok b => simp [Except.mapError]
  | error e => simp [Except.mapError]

/-- A computation that has no access to the state. -/
def fromResult (r : Except ε α) : EStateM ε σ α := fun s =>
  match r with
  | .ok a => .ok a s
  | .error e => .error e s

@[simp] theorem fromResult_ok (a : α) (s : σ) : (fromResult (.ok a) : EStateM ε σ α) s = .ok a s := rfl
@[simp] theorem fromResult_error (e : ε) (s : σ) :
    (fromResult (.error e) : EStateM ε σ α) s = .error e s := rfl

@[simp] theorem fromResult_ok_bind (a : α) (f : α → EStateM ε σ β) (s : σ) :
    (fromResult (.ok a) >>= f) s = f a s := bind_of_ok rfl
@[simp] theorem fromResult_error_bind (e : ε) (f : α → EStateM ε σ β) (s : σ) :
    ((fromResult (.error e) : EStateM ε σ α) >>= f) s = .error e s := bind_of_error rfl

/-- Two results in a row, without a state. -/
theorem outcome_fromResult_bind (r : Except ε α) (f : α → Except ε β) (s : σ) :
    outcome ((fromResult r >>= fun a => fromResult (f a)) s) = r >>= f := by
  cases r with
  | error e => rfl
  | ok a =>
      rw [fromResult_ok_bind, ok_bind]
      cases f a with
      | error e => rfl
      | ok b => rfl

@[simp] theorem mapError_ok_eq (g : ε → ε') (a : α) : (Except.ok a).mapError g = .ok a := rfl
@[simp] theorem mapError_error_eq (g : ε → ε') (e : ε) :
    (Except.error e : Except ε α).mapError g = .error (g e) := rfl

@[simp] theorem fromResult_eq_ok {r : Except ε α} {s t : σ} {a : α} :
    fromResult r s = .ok a t ↔ r = .ok a ∧ t = s := by
  cases r with
  | ok b => simp [eq_comm]
  | error e => simp

@[simp] theorem fromResult_eq_error {r : Except ε α} {s t : σ} {e : ε} :
    fromResult r s = .error e t ↔ r = .error e ∧ t = s := by
  cases r with
  | ok b => simp
  | error d => simp [eq_comm]

/-- What is read off the state is as it was. -/
def Same (view : σ → τ) (s t : σ) : Prop := view t = view s

instance (view : σ → τ) : Std.Refl (Same view) := ⟨fun _ => rfl⟩

instance (view : σ → τ) : IsTrans σ (Same view) := ⟨fun _ _ _ h h' => Eq.trans h' h⟩

/-- What is measured of the state does not grow. -/
def Shrinks (size : σ → Nat) (s t : σ) : Prop := size t ≤ size s

instance (size : σ → Nat) : Std.Refl (Shrinks size) := ⟨fun _ => Nat.le_refl _⟩

instance (size : σ → Nat) : IsTrans σ (Shrinks size) := ⟨fun _ _ _ h h' => Nat.le_trans h' h⟩

/-- Whichever way `x` ends, its last state stands in the relation to its first. -/
def Keeps (R : σ → σ → Prop) (x : EStateM ε σ α) : Prop := ∀ s, R s (after (x s))

namespace Keeps

variable {R : σ → σ → Prop} {x : EStateM ε σ α} {f : α → EStateM ε σ β}

theorem ok {a : α} {s t : σ} (h : Keeps R x) (hx : x s = .ok a t) : R s t := by
  have := h s
  rwa [hx] at this

theorem error {e : ε} {s t : σ} (h : Keeps R x) (hx : x s = .error e t) : R s t := by
  have := h s
  rwa [hx] at this

theorem modify {g : σ → σ} (h : ∀ s, R s (g s)) : Keeps R (modify g : EStateM ε σ PUnit) := h

theorem mapError {g : ε → ε'} (h : Keeps R x) : Keeps R (mapError g x) := by
  intro s
  cases hx : x s with
  | ok a t =>
      rw [mapError_of_ok hx]
      exact h.ok hx
  | error e t =>
      rw [mapError_of_error hx]
      exact h.error hx

theorem onPart {Q : τ → τ → Prop} {view : τ → σ} {put : τ → σ → τ} (h : Keeps R x)
    (hput : ∀ t s, R (view t) s → Q t (put t s)) : Keeps Q (onPart view put x) := by
  intro t
  cases hx : x (view t) with
  | ok a s =>
      rw [onPart_of_ok hx]
      exact hput t s (h.ok hx)
  | error e s =>
      rw [onPart_of_error hx]
      exact hput t s (h.error hx)

theorem get [Std.Refl R] : Keeps R (get : EStateM ε σ σ) := fun s => Std.Refl.refl s

theorem fromResult [Std.Refl R] (r : Except ε α) : Keeps R (fromResult r : EStateM ε σ α) := by
  intro s
  cases r with
  | ok a => exact Std.Refl.refl s
  | error e => exact Std.Refl.refl s

theorem throw [Std.Refl R] (e : ε) : Keeps R (throw e : EStateM ε σ α) := fun s => Std.Refl.refl s

theorem pure [Std.Refl R] (a : α) : Keeps R (pure a : EStateM ε σ α) := fun s => Std.Refl.refl s

theorem bind [IsTrans σ R] (hx : Keeps R x) (hf : ∀ a, Keeps R (f a)) : Keeps R (x >>= f) := by
  intro s
  cases h : x s with
  | ok a t =>
      rw [bind_of_ok h]
      exact IsTrans.trans _ _ _ (hx.ok h) (hf a t)
  | error e t =>
      rw [bind_of_error h]
      exact hx.error h

theorem forM [Std.Refl R] [IsTrans σ R] {g : β → EStateM ε σ PUnit} (xs : List β)
    (h : ∀ x ∈ xs, Keeps R (g x)) : Keeps R (xs.forM g) := by
  induction xs with
  | nil => exact pure _
  | cons x xs ih =>
      obtain ⟨hx, hxs⟩ := List.forall_mem_cons.mp h
      exact hx.bind fun _ => ih hxs

end Keeps

end Stateful
