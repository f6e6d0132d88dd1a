import GatoPskTls.Lib.Stateful

/-!
# How a computation ends

`Ends r post fail` says of the result of a computation that it is a success with `post` or a
failure with `fail`. The rules follow the way computations are put together.
-/
namespace Stateful

variable {ε σ τ α β : Type}

def Ends (r : EStateM.Result ε σ α) (post : α → σ → Prop) (fail : ε → σ → Prop) : Prop :=
  match r with
  | .ok a s => post a s
  | .error e s => fail e s

namespace Ends

variable {x : EStateM ε σ α} {f : α → EStateM ε σ β} {r : EStateM.Result ε σ α}
  {post post' : α → σ → Prop} {fail fail' : ε → σ → Prop}

theorem ok {a : α} {s : σ} (h : Ends r post fail) (hr : r = .ok a s) : post a s := by
  subst hr
  exact h

theorem error {e : ε} {s : σ} (h : Ends r post fail) (hr : r = .error e s) : fail e s := by
  subst hr
  exact h

theorem mono (h : Ends r post fail) (hpost : ∀ a s, post a s → post' a s)
    (hfail : ∀ e s, fail e s → fail' e s) : Ends r post' fail' := by
  cases r with
  | ok a s => exact hpost a s h
  | error e s => exact hfail e s h

/-- A failure that has one condition occurs exactly when the condition holds. -/
theorem outcome_iff {e : ε} {A : Prop} (h : Ends r (fun _ _ => ¬A) fun e' _ => e' = e ↔ A) :
    outcome r = .error e ↔ A := by
  cases r with
  | ok a s => exact iff_of_false nofun h
  | error e' s => exact (by simp : outcome (.error e' s) = .error e ↔ e' = e).trans h

theorem of_keeps {R : σ → σ → Prop} (h : Keeps R x) (s : σ) :
    Ends (x s) (fun _ t => R s t) fun _ t => R s t := by
  cases hx : x s with
  | ok a t => exact h.ok hx
  | error e t => exact h.error hx

theorem bind {s : σ} {post : β → σ → Prop}
    (h : Ends (x s) (fun a t => Ends (f a t) post fail) fail) : Ends ((x >>= f) s) post fail := by
  cases hx : x s with
  | ok a t =>
      rw [bind_of_ok hx]
      exact h.ok hx
  | error e t =>
      rw [bind_of_error hx]
      exact h.error hx

theorem onPart {view : τ → σ} {put : τ → σ → τ} {t : τ} {post : α → τ → Prop}
    {fail : ε → τ → Prop}
    (h : Ends (x (view t)) (fun a s => post a (put t s)) fun e s => fail e (put t s)) :
    Ends (onPart view put x t) post fail := by
  cases hx : x (view t) with
  | ok a s =>
      rw [onPart_of_ok hx]
      exact h.ok hx
  | error e s =>
      rw [onPart_of_error hx]
      exact h.error hx

end Ends

end Stateful
