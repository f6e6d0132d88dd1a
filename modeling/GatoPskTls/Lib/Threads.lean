import GatoPskTls.Lib.Ends
import GatoPskTls.Lib.History

/-!
# Routines cut into steps

A routine that waits gives others the chance to act in the meantime. A `Thread` is a routine cut
at these points: a step acts on the state at once, and what it saw decides how the routine goes
on. Two sides whose calls run step by step, in any order, are compared with a machine that makes
one call after the other.

The sides share a flag that only the left one changes. A left call changes it in the step it
fails with, if at all; a right call looks at it once, when it is entered.
-/
namespace Threads

open Stateful History

variable {ε σ τ α β : Type}

/-- What is put is there, nothing else is, and putting back what was there changes nothing. -/
structure IsPart (view : τ → σ) (put : τ → σ → τ) : Prop where
  view_put : ∀ t s, view (put t s) = s
  put_put : ∀ t s s', put (put t s) s' = put t s'
  put_view : ∀ t, put t (view t) = t

namespace IsPart

variable {view : τ → σ} {put : τ → σ → τ}

theorem onPart_fromResult (hpart : IsPart view put) (r : Except ε α) :
    onPart view put (fromResult r) = fromResult r := by
  funext t
  cases r with
  | ok a => exact congrArg (EStateM.Result.ok a) (hpart.put_view t)
  | error e => exact congrArg (EStateM.Result.error e) (hpart.put_view t)

theorem onPart_pure (hpart : IsPart view put) (a : α) :
    onPart view put (pure a : EStateM ε σ α) = pure a := hpart.onPart_fromResult (.ok a)

theorem onPart_bind (hpart : IsPart view put) (x : EStateM ε σ α) (f : α → EStateM ε σ β) :
    onPart view put (x >>= f) = onPart view put x >>= fun a => onPart view put (f a) := by
  funext t
  cases hx : x (view t) with
  | error e s =>
      rw [onPart_of_error (bind_of_error hx), bind_of_error (onPart_of_error hx)]
  | ok a s =>
      rw [bind_of_ok (onPart_of_ok hx)]
      simp only [onPart, bind_of_ok hx, hpart.view_put]
      cases f a s with
      | ok b s' => simp only [hpart.put_put]
      | error e s' => simp only [hpart.put_put]

end IsPart

theorem outcome_onPart (view : τ → σ) (put : τ → σ → τ) (x : EStateM ε σ α) (t : τ) :
    outcome (onPart view put x t) = outcome (x (view t)) := by
  simp only [onPart]
  cases x (view t) with
  | ok a s => rfl
  | error e s => rfl

/-- A part of a part. -/
theorem onPart_onPart {ρ : Type} (view : τ → σ) (put : τ → σ → τ) (view' : σ → ρ) (put' : σ → ρ → σ)
    (x : EStateM ε ρ α) : onPart view put (onPart view' put' x) =
      onPart (fun t => view' (view t)) (fun t p => put t (put' (view t) p)) x := by
  funext t
  simp only [onPart]
  cases x (view' (view t)) with
  | ok a p => rfl
  | error e p => rfl

theorem onPart_get_bind (view : τ → σ) (put : τ → σ → τ) (f : σ → EStateM ε σ β) :
    onPart view put (get >>= f) = get >>= fun t => onPart view put (f (view t)) := by
  funext t
  simp only [onPart, get_bind_apply]

inductive Thread (ε σ α : Type)
  | done (r : Except ε α)
  | step (act : σ → σ) (next : σ → Thread ε σ α)

namespace Thread

def bind : Thread ε σ α → (α → Thread ε σ β) → Thread ε σ β
  | done (.ok a), f => f a
  | done (.error e), _ => done (.error e)
  | step act next, f => step act fun s => (next s).bind f

instance : Monad (Thread ε σ) where
  pure a := done (.ok a)
  bind := bind

def throw (e : ε) : Thread ε σ α := done (.error e)

/-- A computation that nobody else gets between. -/
def atom (x : EStateM ε σ α) : Thread ε σ α :=
  step (fun s => after (x s)) fun s => done (outcome (x s))

/-- A routine on one component of a larger state. -/
def onPart (view : τ → σ) (put : τ → σ → τ) : Thread ε σ α → Thread ε τ α
  | done r => done r
  | step act next => step (fun t => put t (act (view t))) fun t => (next (view t)).onPart view put

/-- The routine with nobody else around. -/
def run : Thread ε σ α → EStateM ε σ α
  | done r => fromResult r
  | step act next => fun s => (next s).run (act s)

@[simp] theorem run_pure (a : α) : (pure a : Thread ε σ α).run = pure a := rfl

@[simp] theorem run_done (r : Except ε α) : (done r : Thread ε σ α).run = fromResult r := rfl

@[simp] theorem run_throw (e : ε) : (throw e : Thread ε σ α).run = MonadExcept.throw e := rfl

@[simp] theorem run_atom (x : EStateM ε σ α) : (atom x).run = x := by
  funext s
  simp only [atom, run]
  cases x s with
  | ok a t => rfl
  | error e t => rfl

@[simp] theorem run_bind (t : Thread ε σ α) (f : α → Thread ε σ β) :
    (t >>= f).run = t.run >>= fun a => (f a).run := by
  change (t.bind f).run = _
  induction t with
  | done r =>
      cases r with
      | ok a => rfl
      | error e => rfl
  | step act next ih =>
      funext s
      exact congrFun (ih s) (act s)

theorem run_onPart {view : τ → σ} {put : τ → σ → τ} (hpart : IsPart view put) (t : Thread ε σ α) :
    (t.onPart view put).run = Stateful.onPart view put t.run := by
  induction t with
  | done r => exact (hpart.onPart_fromResult r).symm
  | step act next ih =>
      funext u
      have hview := hpart.view_put u (act (view u))
      simp only [onPart, run, ih, Stateful.onPart, hview]
      cases (next (view u)).run (act (view u)) with
      | ok a s => simp only [hpart.put_put]
      | error e s => simp only [hpart.put_put]

theorem onPart_atom (view : τ → σ) (put : τ → σ → τ) (x : EStateM ε σ α) :
    (atom x).onPart view put = atom (Stateful.onPart view put x) := by
  simp only [atom, onPart, after_onPart, outcome_onPart]

end Thread

/-- A component of a larger state. -/
structure Part (τ σ : Type) where
  view : τ → σ
  put : τ → σ → τ
  isPart : IsPart view put

namespace Part

variable (p : Part τ σ)

/-- A routine of the component as the whole sees it, with nobody else around. -/
def within (x : Thread ε σ α) : EStateM ε τ α := onPart p.view p.put x.run

theorem within_bind (x : Thread ε σ α) (f : α → Thread ε σ β) :
    p.within (x >>= f) = p.within x >>= fun a => p.within (f a) := by
  rw [within, Thread.run_bind, p.isPart.onPart_bind]
  rfl

theorem within_done (r : Except ε α) : p.within (.done r) = fromResult r :=
  p.isPart.onPart_fromResult r

theorem within_pure (a : α) : p.within (pure a : Thread ε σ α) = pure a := p.within_done (.ok a)

theorem within_atom (x : EStateM ε σ α) : p.within (.atom x) = onPart p.view p.put x := by
  rw [within, Thread.run_atom]

/-- A routine that only looks. -/
theorem within_look_bind {x : Thread ε σ α} {g : σ → α} (hx : ∀ s, x.run s = .ok (g s) s)
    (f : α → Thread ε σ β) :
    p.within (x >>= f) = get >>= fun t => p.within (f (g (p.view t))) := by
  rw [within_bind]
  funext t
  have hlook : p.within x t = .ok (g (p.view t)) t := by
    rw [within, onPart_of_ok (hx _), p.isPart.put_view]
  rw [bind_of_ok hlook, get_bind_apply]

end Part

namespace Thread

section Flag

variable {φ : Type} {flag : σ → φ}

/-- With the flag at `v`, it is changed in the step the routine fails with, if at all. -/
def Guarded (flag : σ → φ) : Thread ε σ α → φ → Prop
  | done _, _ => True
  | step act next, v => ∀ s, flag s = v →
      flag (act s) = v ∧ (next s).Guarded flag v ∨ ∃ e, next s = done (.error e)

theorem Guarded.bind {t : Thread ε σ α} {f : α → Thread ε σ β} {v : φ} (ht : t.Guarded flag v)
    (hf : ∀ a, (f a).Guarded flag v) : (t >>= f).Guarded flag v := by
  change (t.bind f).Guarded flag v
  induction t with
  | done r =>
      cases r with
      | ok a => exact hf a
      | error e => trivial
  | step act next ih =>
      intro s hs
      rcases ht s hs with ⟨hact, hnext⟩ | ⟨e, he⟩
      · exact .inl ⟨hact, ih s hnext⟩
      · exact .inr ⟨e, congrArg (fun t => t.bind f) he⟩

/-- A step that leaves the flag alone, and what follows on it. -/
theorem Guarded.atom_bind {x : EStateM ε σ α} {f : α → Thread ε σ β} {v : φ}
    (h : ∀ s, flag s = v →
      Ends (x s) (fun a t => flag t = v ∧ (f a).Guarded flag v) fun _ _ => True) :
    (Thread.atom x >>= f).Guarded flag v := by
  intro s hs
  cases hx : x s with
  | ok a t =>
      obtain ⟨hflag, hf⟩ := (h s hs).ok hx
      refine .inl ⟨?_, ?_⟩
      · change flag (after (x s)) = v
        rw [hx]
        exact hflag
      · change ((done (outcome (x s))).bind f).Guarded flag v
        rw [hx]
        exact hf
  | error e t =>
      refine .inr ⟨e, ?_⟩
      change (done (outcome (x s))).bind f = _
      rw [hx]
      rfl

/-- A part the flag does not stand in. -/
theorem Guarded.onPart {view : σ → τ} {put : σ → τ → σ} (hflag : ∀ s p, flag (put s p) = flag s)
    (t : Thread ε τ α) (v : φ) : (t.onPart view put).Guarded flag v := by
  induction t with
  | done r => trivial
  | step act next ih =>
      intro s hs
      exact .inl ⟨(hflag _ _).trans hs, ih (view s)⟩

end Flag

end Thread

section Sides

variable {φ l r ι κ : Type}

/-- A flag, what the left side works on and what the right side works on. -/
structure Shared (φ l r : Type) where
  flag : φ
  left : l
  right : r

/-- The calls of the two sides: a left one may use the flag all along, a right one is told its
value when it is entered. -/
structure Calls (ε φ l r ι κ α β : Type) where
  left : ι → Thread ε (φ × l) α
  right : κ → φ → Thread ε r β

/-- The state, and the call each side is in. -/
structure Running (ε φ l r ι κ α β : Type) where
  shared : Shared φ l r
  left : Option (ι × Thread ε (φ × l) α)
  right : Option (κ × Thread ε r β)

/-- A call is entered, or goes on by one step. -/
inductive Move (ι κ : Type)
  | enterLeft (i : ι)
  | enterRight (k : κ)
  | left
  | right

/-- A call with its answer. -/
abbrev Reply (ε ι κ α β : Type) := (ι × Except ε α) ⊕ (κ × Except ε β)

/-- A call that has come to its end is answered, and its side is free again. -/
def settle {γ χ : Type} (i : ι) : Thread ε χ γ → Option (ι × Thread ε χ γ) × Option (ι × Except ε γ)
  | .done answer => (none, some (i, answer))
  | .step act next => (some (i, .step act next), none)

namespace Running

variable (calls : Calls ε φ l r ι κ α β)

def goLeft (c : Running ε φ l r ι κ α β) (shared : Shared φ l r) (i : ι) (t : Thread ε (φ × l) α) :
    Option (Reply ε ι κ α β) × Running ε φ l r ι κ α β :=
  ((settle i t).2.map .inl, { c with shared, left := (settle i t).1 })

def goRight (c : Running ε φ l r ι κ α β) (shared : Shared φ l r) (k : κ) (t : Thread ε r β) :
    Option (Reply ε ι κ α β) × Running ε φ l r ι κ α β :=
  ((settle k t).2.map .inr, { c with shared, right := (settle k t).1 })

/-- A side that is in a call enters no other, and one that is in none does not go on. -/
def step (c : Running ε φ l r ι κ α β) :
    Move ι κ → Option (Reply ε ι κ α β) × Running ε φ l r ι κ α β
  | .enterLeft i =>
      match c.left with
      | none => c.goLeft c.shared i (calls.left i)
      | some _ => (none, c)
  | .enterRight k =>
      match c.right with
      | none => c.goRight c.shared k (calls.right k c.shared.flag)
      | some _ => (none, c)
  | .left =>
      match c.left with
      | some (i, .step act next) =>
          let (flag, left) := act (c.shared.flag, c.shared.left)
          c.goLeft { c.shared with flag, left } i (next (c.shared.flag, c.shared.left))
      | _ => (none, c)
  | .right =>
      match c.right with
      | some (k, .step act next) =>
          c.goRight { c.shared with right := act c.shared.right } k (next c.shared.right)
      | _ => (none, c)

/-- Neither side is in a call. -/
def idle (shared : Shared φ l r) : Running ε φ l r ι κ α β := ⟨shared, none, none⟩

end Running

abbrev Moment (ε φ l r ι κ α β : Type) :=
  Event (Running ε φ l r ι κ α β) (Move ι κ) (Option (Reply ε ι κ α β))

/-- The moment a call counts as made: a right call when it is entered, a left one when it is
answered. -/
def made (e : Moment ε φ l r ι κ α β) : Option (ι ⊕ κ) :=
  match e.call with
  | .enterRight k => if e.pre.right.isNone then some (.inr k) else none
  | _ =>
      match e.out with
      | some (.inl (i, _)) => some (.inl i)
      | _ => none

/-- The calls of a history, the newest first, in the order they count as made. -/
def serial (h : List (Moment ε φ l r ι κ α β)) : List (ι ⊕ κ) := h.filterMap made

/-- The answers given on one side. -/
def replies {γ : Type} (side : Reply ε ι κ α β → Option γ) (h : List (Moment ε φ l r ι κ α β)) : List γ :=
  h.filterMap fun e => e.out.bind side

/-- One call after the other. -/
def whole (calls : Calls ε φ l r ι κ α β) (s : Shared φ l r) :
    ι ⊕ κ → Reply ε ι κ α β × Shared φ l r
  | .inl i =>
      let result := (calls.left i).run (s.flag, s.left)
      (.inl (i, outcome result), ⟨(after result).1, (after result).2, s.right⟩)
  | .inr k =>
      let result := (calls.right k s.flag).run s.right
      (.inr (k, outcome result), { s with right := after result })

variable {calls : Calls ε φ l r ι κ α β}

/-- The answer a right call will get that has been entered. -/
def owed (c : Running ε φ l r ι κ α β) : List (κ × Except ε β) :=
  (c.right.map fun (k, t) => (k, outcome (t.run c.shared.right))).toList

/-- The left side, seen from a machine at which the call it is in has not been made. -/
def LeftBehind (calls : Calls ε φ l r ι κ α β) (c : Running ε φ l r ι κ α β) (s : Shared φ l r) : Prop :=
  match c.left with
  | none => s.left = c.shared.left
  | some (i, t) => t.Guarded Prod.fst c.shared.flag ∧
      t.run (c.shared.flag, c.shared.left) = (calls.left i).run (s.flag, s.left)

/-- The right side, seen from a machine at which the call it is in has been made. -/
def RightAhead (c : Running ε φ l r ι κ α β) (s : Shared φ l r) : Prop :=
  match c.right with
  | none => s.right = c.shared.right
  | some (_, t) => s.right = after (t.run c.shared.right)

/-- The calls, made one after the other in the order of the history, get the same answers. -/
structure Serializes (calls : Calls ε φ l r ι κ α β) (s₀ : Shared φ l r)
    (h : List (Moment ε φ l r ι κ α β)) (c : Running ε φ l r ι κ α β)
    (hs : List (Event (Shared φ l r) (ι ⊕ κ) (Reply ε ι κ α β))) (s : Shared φ l r) : Prop where
  reaches : Reaches (whole calls) s₀ hs s
  order : hs.map (·.call) = serial h
  leftReplies : hs.filterMap (·.out.getLeft?) = replies Sum.getLeft? h
  rightReplies : hs.filterMap (·.out.getRight?) = owed c ++ replies Sum.getRight? h
  flag : s.flag = c.shared.flag
  left : LeftBehind calls c s
  right : RightAhead c s

namespace Serializes

variable {s₀ s : Shared φ l r} {h : List (Moment ε φ l r ι κ α β)} {c : Running ε φ l r ι κ α β}
  {hs : List (Event (Shared φ l r) (ι ⊕ κ) (Reply ε ι κ α β))}

/-- The left side has come to `t` in its call: the call is made in the moment it is answered. -/
theorem goLeft (hc : Serializes calls s₀ h c hs s) (call : Move ι κ)
    (hcall : ∀ k, call ≠ .enterRight k) {shared : Shared φ l r} {i : ι} {t : Thread ε (φ × l) α}
    (hright : shared.right = c.shared.right)
    (hrun : t.run (shared.flag, shared.left) = (calls.left i).run (s.flag, s.left))
    (hguard : (∃ answer, t = .done answer) ∨
      shared.flag = c.shared.flag ∧ t.Guarded Prod.fst shared.flag) :
    ∃ hs' s', Serializes calls s₀ (⟨c, call, (c.goLeft shared i t).1⟩ :: h) (c.goLeft shared i t).2
      hs' s' := by
  have howed : ∀ left : Option (ι × Thread ε (φ × l) α), owed { c with shared, left } = owed c := by
    intro left
    simp only [owed, hright]
  have hahead : ∀ (left : Option (ι × Thread ε (φ × l) α)) (flag : φ) (l' : l),
      RightAhead { c with shared, left } ⟨flag, l', s.right⟩ := by
    intro left flag l'
    have := hc.right
    simp only [RightAhead, hright] at this ⊢
    exact this
  cases t with
  | done answer =>
      have hout : outcome ((calls.left i).run (s.flag, s.left)) = answer := by
        rw [← hrun]
        cases answer <;> rfl
      have hafter : after ((calls.left i).run (s.flag, s.left)) = (shared.flag, shared.left) := by
        rw [← hrun]
        cases answer <;> rfl
      refine ⟨_, _, .call (.inl i) hc.reaches, ?_, ?_, ?_, ?_, ?_, ?_⟩
      · cases call with
        | enterRight k => exact (hcall k rfl).elim
        | _ => exact congrArg (.inl i :: ·) hc.order
      · simpa [whole, hout, replies, Running.goLeft, settle] using hc.leftReplies
      · exact hc.rightReplies.trans (congrArg (· ++ replies Sum.getRight? h) (howed none).symm)
      · simp [whole, hafter, Running.goLeft]
      · simp [LeftBehind, whole, hafter, Running.goLeft, settle]
      · exact hahead _ _ _
  | step act next =>
      obtain ⟨answer, hdone⟩ | ⟨hflag, hguard⟩ := hguard
      · cases hdone
      refine ⟨hs, s, hc.reaches, ?_, ?_, ?_, hc.flag.trans hflag.symm, ⟨hguard, hrun⟩, hahead _ _ _⟩
      · cases call with
        | enterRight k => exact (hcall k rfl).elim
        | _ => exact hc.order
      · exact hc.leftReplies
      · simpa [replies, Running.goLeft, settle, howed] using hc.rightReplies

/-- Settled or not, a right call leaves behind what the rest of it would. -/
theorem goRight_owed (c : Running ε φ l r ι κ α β) (shared : Shared φ l r) (k : κ) (t : Thread ε r β)
    (call : Move ι κ) :
    RightAhead (c.goRight shared k t).2 { s with right := after (t.run shared.right) } ∧
      owed (c.goRight shared k t).2 ++ replies Sum.getRight? (⟨c, call, (c.goRight shared k t).1⟩ :: h) =
        (k, outcome (t.run shared.right)) :: replies Sum.getRight? h ∧
      replies Sum.getLeft? (⟨c, call, (c.goRight shared k t).1⟩ :: h) = replies Sum.getLeft? h := by
  cases t with
  | done answer => cases answer <;> exact ⟨rfl, rfl, rfl⟩
  | step act next => exact ⟨rfl, rfl, rfl⟩

/-- The right side goes on in a call that has been made. -/
theorem goRight (hc : Serializes calls s₀ h c hs s) {b : r} {k : κ} {t t' : Thread ε r β}
    (hpending : c.right = some (k, t)) (hrun : t'.run b = t.run c.shared.right) :
    Serializes calls s₀
      (⟨c, .right, (c.goRight { c.shared with right := b } k t').1⟩ :: h)
      (c.goRight { c.shared with right := b } k t').2 hs s := by
  have hright := hc.right
  have hreplies := hc.rightReplies
  simp only [RightAhead, owed, hpending, Option.map_some, Option.toList_some] at hright hreplies
  obtain ⟨hahead, howed, hleft⟩ :=
    @goRight_owed _ _ _ _ _ _ _ _ s h c { c.shared with right := b } k t' .right
  refine ⟨hc.reaches, ?_, hc.leftReplies.trans hleft.symm, ?_, hc.flag, hc.left, ?_⟩
  · cases t' with
    | done answer => exact hc.order
    | step act next => exact hc.order
  · rw [howed, hreplies, ← hrun]
    rfl
  · rw [← hrun] at hright
    rw [← hright] at hahead
    exact hahead

/-- A right call is made in the moment it is entered. -/
theorem enterRight (hc : Serializes calls s₀ h c hs s) (k : κ) (hidle : c.right = none) :
    ∃ hs' s', Serializes calls s₀
      (⟨c, .enterRight k, (c.goRight c.shared k (calls.right k c.shared.flag)).1⟩ :: h)
      (c.goRight c.shared k (calls.right k c.shared.flag)).2 hs' s' := by
  have hright := hc.right
  have hreplies := hc.rightReplies
  simp only [RightAhead, owed, hidle, Option.map_none, Option.toList_none, List.nil_append] at hright hreplies
  have hrun : (calls.right k s.flag).run s.right = (calls.right k c.shared.flag).run c.shared.right := by
    rw [hc.flag, hright]
  obtain ⟨hahead, howed, hleft⟩ := @goRight_owed _ _ _ _ _ _ _ _ s h c c.shared k
    (calls.right k c.shared.flag) (.enterRight k)
  refine ⟨_, _, .call (.inr k) hc.reaches, ?_, ?_, ?_, ?_, ?_, ?_⟩
  · simp [serial, made, hidle, hc.order]
  · exact hc.leftReplies.trans hleft.symm
  · simp only [whole, hrun, List.filterMap_cons, Sum.getRight?_inr, hreplies, howed]
  · exact hc.flag
  · exact hc.left
  · simp only [whole, hrun]
    exact hahead

/-- A move that does nothing. -/
theorem idleMove (hc : Serializes calls s₀ h c hs s) {call : Move ι κ}
    (hcall : ∀ k, call = .enterRight k → c.right.isSome) :
    Serializes calls s₀ (⟨c, call, none⟩ :: h) c hs s := by
  refine ⟨hc.reaches, ?_, hc.leftReplies, hc.rightReplies, hc.flag, hc.left, hc.right⟩
  cases call with
  | enterRight k =>
      have hsome := hcall k rfl
      simp [serial, made, hc.order, Option.isSome_iff_ne_none.mp hsome]
  | _ => exact hc.order

end Serializes

/-- Every history of the two sides has the answers of one in which the calls are made one after
the other. -/
theorem linearizable (hguard : ∀ i v, (calls.left i).Guarded Prod.fst v) {s₀ : Shared φ l r}
    {h : List (Moment ε φ l r ι κ α β)} {c : Running ε φ l r ι κ α β}
    (hr : Reaches (Running.step calls) (.idle s₀) h c) : ∃ hs s, Serializes calls s₀ h c hs s := by
  have hinit : Serializes calls s₀ [] (.idle s₀) [] s₀ := ⟨.nil, rfl, rfl, rfl, rfl, rfl, rfl⟩
  refine hr.invariant (fun h c => ∃ hs s, Serializes calls s₀ h c hs s) ⟨[], s₀, hinit⟩ ?_
  rintro h c move - ⟨hs, s, hc⟩
  have hleft := hc.left
  cases move with
  | enterLeft i =>
      simp only [Running.step]
      cases hidle : c.left with
      | some pending => exact ⟨hs, s, hc.idleMove (by simp)⟩
      | none =>
          simp only [LeftBehind, hidle] at hleft
          refine hc.goLeft _ (by simp) rfl ?_ (.inr ⟨rfl, hguard i _⟩)
          rw [hleft, hc.flag]
  | enterRight k =>
      simp only [Running.step]
      cases hidle : c.right with
      | some pending => exact ⟨hs, s, hc.idleMove (by simp [hidle])⟩
      | none => exact hc.enterRight k hidle
  | left =>
      simp only [Running.step]
      split
      next i act next hpending =>
        simp only [LeftBehind, hpending] at hleft
        obtain ⟨hguarded, hrun⟩ := hleft
        refine hc.goLeft .left (by simp) rfl hrun ?_
        rcases hguarded (c.shared.flag, c.shared.left) rfl with ⟨hflag, hnext⟩ | ⟨e, he⟩
        · exact .inr ⟨hflag, show Thread.Guarded Prod.fst _ (act _).1 by rw [hflag]; exact hnext⟩
        · exact .inl ⟨_, he⟩
      next => exact ⟨hs, s, hc.idleMove (by simp)⟩
  | right =>
      simp only [Running.step]
      split
      next k act next hpending => exact ⟨hs, s, hc.goRight hpending rfl⟩
      next => exact ⟨hs, s, hc.idleMove (by simp)⟩

end Sides

end Threads
