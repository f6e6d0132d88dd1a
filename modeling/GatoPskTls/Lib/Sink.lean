import GatoPskTls.Lib.Stateful

/-!
# Append-only sinks

A sink takes symbols at its end as long as it has room. `Appends S m w` is all a
caller needs to know about an encoder `m` into a sink: it writes exactly `w` when
`w` fits, and fails when it does not. Encoders compose by appending what they write.
-/
namespace Stateful

/-- How a state is written at its end: the room left, and the state after a write that
fits. `valid` is the invariant under which the room is what it says. -/
structure Sink (σ α : Type) where
  valid : σ → Prop
  room : σ → Nat
  put : σ → List α → σ
  put_nil : ∀ s, put s [] = s
  put_put : ∀ {s u v}, valid s → put (put s u) v = put s (u ++ v)
  valid_put : ∀ {s u}, valid s → u.length ≤ room s → valid (put s u)
  room_put : ∀ {s u}, valid s → u.length ≤ room s → room (put s u) = room s - u.length

variable {ε ε' σ α β : Type} {S : Sink σ α}

structure Sink.Appends (S : Sink σ α) (m : EStateM ε σ Unit) (w : List α) : Prop where
  ok : ∀ {s : σ}, S.valid s → w.length ≤ S.room s → m s = .ok () (S.put s w)
  full : ∀ {s : σ}, S.valid s → S.room s < w.length → ∃ e s', m s = .error e s'

namespace Sink.Appends

theorem pure_nil : S.Appends (pure () : EStateM ε σ Unit) [] where
  ok := fun {s} _ _ => by rw [S.put_nil]; rfl
  full := fun _ h => absurd h (Nat.not_lt_zero _)

theorem bind {m n : EStateM ε σ Unit} {u v : List α} (hm : S.Appends m u) (hn : S.Appends n v) :
    S.Appends (do m; n) (u ++ v) where
  ok := by
    intro s hs hw
    rw [List.length_append] at hw
    have hu : u.length ≤ S.room s := by omega
    rw [bind_of_ok (hm.ok hs hu), hn.ok (S.valid_put hs hu), S.put_put hs]
    rw [S.room_put hs hu]
    omega
  full := by
    intro s hs hw
    rw [List.length_append] at hw
    by_cases hu : u.length ≤ S.room s
    · obtain ⟨e, s', he⟩ := hn.full (S.valid_put hs hu) (by rw [S.room_put hs hu]; omega)
      exact ⟨e, s', by rw [bind_of_ok (hm.ok hs hu), he]⟩
    · obtain ⟨e, s', he⟩ := hm.full hs (by omega)
      exact ⟨e, s', bind_of_error he⟩

theorem mapError {m : EStateM ε σ Unit} {w : List α} (h : S.Appends m w) (f : ε → ε') :
    S.Appends (Stateful.mapError f m) w where
  ok := fun hs hw => mapError_of_ok (h.ok hs hw)
  full := fun hs hw => by
    obtain ⟨e, s', he⟩ := h.full hs hw
    exact ⟨f e, s', mapError_of_error he⟩

theorem forM {enc : β → EStateM ε σ Unit} {wire : β → List α} (xs : List β)
    (h : ∀ x ∈ xs, S.Appends (enc x) (wire x)) : S.Appends (xs.forM enc) (xs.flatMap wire) := by
  induction xs with
  | nil => exact pure_nil
  | cons x xs ih =>
      obtain ⟨hx, hxs⟩ := List.forall_mem_cons.mp h
      exact hx.bind (ih hxs)

/-- An encoder that succeeded had room, and wrote what it writes. -/
theorem of_ok {m : EStateM ε σ Unit} {w : List α} (h : S.Appends m w) {s s' : σ}
    (hs : S.valid s) (hm : m s = .ok () s') : w.length ≤ S.room s ∧ s' = S.put s w := by
  by_cases hw : w.length ≤ S.room s
  · rw [h.ok hs hw] at hm
    cases hm
    exact ⟨hw, rfl⟩
  · obtain ⟨e, t, he⟩ := h.full hs (by omega)
    rw [he] at hm
    cases hm

/-- An encoder run after `u` has been written, with room for both. -/
theorem ok_put {m : EStateM ε σ Unit} {u v : List α} (h : S.Appends m v) {s : σ}
    (hs : S.valid s) (huv : (u ++ v).length ≤ S.room s) :
    m (S.put s u) = .ok () (S.put s (u ++ v)) := by
  rw [List.length_append] at huv
  rw [h.ok (S.valid_put hs (by omega)) (by rw [S.room_put hs (by omega)]; omega), S.put_put hs]

/-- An encoder run after `u` has been written: it succeeds exactly when both fit. -/
theorem eq_ok {m : EStateM ε σ Unit} {u v : List α} (h : S.Appends m v) {s s' : σ}
    (hs : S.valid s) (hu : u.length ≤ S.room s) :
    m (S.put s u) = .ok () s' ↔ (u ++ v).length ≤ S.room s ∧ s' = S.put s (u ++ v) := by
  rw [List.length_append]
  constructor
  · intro hm
    obtain ⟨hv, rfl⟩ := h.of_ok (S.valid_put hs hu) hm
    rw [S.room_put hs hu] at hv
    exact ⟨by omega, S.put_put hs⟩
  · rintro ⟨huv, rfl⟩
    exact h.ok_put hs (by rw [List.length_append]; exact huv)

end Sink.Appends

end Stateful
