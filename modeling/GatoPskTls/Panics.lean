import GatoPskTls.Error

/-!
# When a computation panics

`PanicsIff F x` says that `x` panics exactly when `F` holds and otherwise gives a value or an
error back. The rules build the condition up along the computation.
-/
namespace GatoPskTls

open Stateful

variable {α β σ τ : Type}

/-- An error comes back; there is no panic. -/
def Returned : Stop → Prop
  | .err _ => True
  | _ => False

/-- A value or an error comes back. -/
def Returns (x : Except Stop α) : Prop := ∀ stop, x = .error stop → Returned stop

structure PanicsIff (F : Prop) (x : Except Stop α) : Prop where
  panics : F → x = .error .panic
  returns : ¬F → Returns x

namespace PanicsIff

variable {F G : Prop} {x : Except Stop α}

theorem returns_iff (h : PanicsIff F x) : Returns x ↔ ¬F :=
  ⟨fun hx hF => hx _ (h.panics hF), h.returns⟩

theorem congr (h : PanicsIff F x) (hFG : F ↔ G) : PanicsIff G x :=
  ⟨fun hG => h.panics (hFG.mpr hG), fun hG => h.returns (mt hFG.mp hG)⟩

theorem ok (a : α) : PanicsIff False (.ok a) := ⟨nofun, nofun⟩

theorem err (e : TlsError) : PanicsIff False (.error (.err e) : Except Stop α) :=
  ⟨nofun, fun _ _ h => Except.error.inj h ▸ trivial⟩

theorem panic : PanicsIff True (.error .panic : Except Stop α) := ⟨fun _ => rfl, fun h => (h trivial).elim⟩

/-- The errors of a routine that knows nothing of panics. -/
theorem mapError (x : Except TlsError α) : PanicsIff False (x.mapError Stop.err) := by
  cases x with
  | ok a => exact ok a
  | error e => exact err e

/-- A failure does not depend on the value that is missing. -/
theorem error {stop : Stop} (h : PanicsIff F (.error stop : Except Stop α)) :
    PanicsIff F (.error stop : Except Stop β) := by
  refine ⟨fun hF => ?_, fun hF stop' hstop => h.returns hF stop' ?_⟩
  · rw [Except.error.inj (h.panics hF)]
  · rw [Except.error.inj hstop]

theorem bind {f : α → Except Stop β} {G : α → Prop} (hx : PanicsIff F x)
    (hf : ∀ a, x = .ok a → PanicsIff (G a) (f a)) :
    PanicsIff (F ∨ ∃ a, x = .ok a ∧ G a) (x >>= f) := by
  cases x with
  | ok a =>
      have hF : ¬F := fun hF => nomatch hx.panics hF
      exact (hf a rfl).congr (by simp [hF])
  | error stop => exact (error hx).congr (by simp)

/-- A step that never panics. -/
theorem bind_of_returns {f : α → Except Stop β} {G : α → Prop} (hx : PanicsIff False x)
    (hf : ∀ a, x = .ok a → PanicsIff (G a) (f a)) :
    PanicsIff (∃ a, x = .ok a ∧ G a) (x >>= f) :=
  (hx.bind hf).congr (by simp)

/-- What follows never panics. -/
theorem bind_last {f : α → Except Stop β} (hx : PanicsIff F x)
    (hf : ∀ a, x = .ok a → PanicsIff False (f a)) : PanicsIff F (x >>= f) :=
  (hx.bind hf).congr (by simp)

theorem fromResult {s : σ} (h : PanicsIff F x) :
    PanicsIff F (outcome (Stateful.fromResult x s : EStateM.Result Stop σ α)) := by
  cases x with
  | ok a => exact h
  | error stop => exact h

theorem bindM {x : EStateM Stop σ α} {f : α → EStateM Stop σ β} {s : σ} {G : α → σ → Prop}
    (hx : PanicsIff F (outcome (x s)))
    (hf : ∀ a t, x s = .ok a t → PanicsIff (G a t) (outcome (f a t))) :
    PanicsIff (F ∨ ∃ a t, x s = .ok a t ∧ G a t) (outcome ((x >>= f) s)) := by
  cases hs : x s with
  | ok a t =>
      rw [hs] at hx
      have hF : ¬F := fun hF => nomatch hx.panics hF
      rw [bind_of_ok hs]
      exact (hf a t hs).congr (by simp [hF])
  | error stop t =>
      rw [hs] at hx
      rw [bind_of_error hs]
      exact (error hx).congr (by simp)

theorem bindM_last {x : EStateM Stop σ α} {f : α → EStateM Stop σ β} {s : σ}
    (hx : PanicsIff F (outcome (x s)))
    (hf : ∀ a t, x s = .ok a t → PanicsIff False (outcome (f a t))) :
    PanicsIff F (outcome ((x >>= f) s)) :=
  (hx.bindM hf).congr (by simp)

theorem seqM {x : EStateM Stop σ PUnit} {f : PUnit → EStateM Stop σ β} {s : σ} {G : σ → Prop}
    (hx : PanicsIff F (outcome (x s)))
    (hf : ∀ t, x s = .ok ⟨⟩ t → PanicsIff (G t) (outcome (f ⟨⟩ t))) :
    PanicsIff (F ∨ ∃ t, x s = .ok ⟨⟩ t ∧ G t) (outcome ((x >>= f) s)) :=
  (hx.bindM fun _ t => hf t).congr (or_congr_right ⟨fun ⟨_, h⟩ => h, fun h => ⟨⟨⟩, h⟩⟩)

theorem onPart {view : τ → σ} {put : τ → σ → τ} {x : EStateM Stop σ α} {t : τ}
    (h : PanicsIff F (outcome (x (view t)))) : PanicsIff F (outcome (Stateful.onPart view put x t)) := by
  cases hx : x (view t) with
  | ok a s =>
      rw [hx] at h
      rw [onPart_of_ok hx]
      exact h
  | error e s =>
      rw [hx] at h
      rw [onPart_of_error hx]
      exact h

end PanicsIff

end GatoPskTls
