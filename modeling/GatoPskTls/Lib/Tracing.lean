import GatoPskTls.Lib.Ends

/-!
# Computations that leave a trace

A traced computation gives, besides its result, the deeds it has done, in order. `erase` forgets
them, so that a traced copy of a computation can be compared with the original. A triple is about
the whole log: the deeds done before and those the computation adds.
-/
namespace Tracing

open Stateful

variable {δ δ' ε ε' σ τ α β : Type}

def Traced (δ ε σ α : Type) : Type := σ → EStateM.Result ε σ α × List δ

namespace Traced

/-- A computation that does nothing worth noting. -/
def bare (x : EStateM ε σ α) : Traced δ ε σ α := fun s => (x s, [])

/-- A computation with notes that are made before it runs, however it ends. -/
def asking (deeds : σ → List δ) (x : EStateM ε σ α) : Traced δ ε σ α := fun s => (x s, deeds s)

/-- A step that does nothing but make a note. -/
def note (l : List δ) : Traced δ ε σ Unit := asking (fun _ => l) (pure ())

/-- The same computation with other notes. -/
def relabel (f : List δ → List δ') (x : Traced δ ε σ α) : Traced δ' ε σ α := fun s =>
  ((x s).1, f (x s).2)

def andThen (x : Traced δ ε σ α) (f : α → Traced δ ε σ β) : Traced δ ε σ β := fun s =>
  match x s with
  | (.ok a t, l) => ((f a t).1, l ++ (f a t).2)
  | (.error e t, l) => (.error e t, l)

instance : Monad (Traced δ ε σ) where
  pure a := bare (pure a)
  bind := andThen

def onPart (view : τ → σ) (put : τ → σ → τ) (x : Traced δ ε σ α) : Traced δ ε τ α := fun t =>
  match x (view t) with
  | (.ok a s, l) => (.ok a (put t s), l)
  | (.error e s, l) => (.error e (put t s), l)

def mapError (g : ε → ε') (x : Traced δ ε σ α) : Traced δ ε' σ α := fun s =>
  match x s with
  | (.ok a t, l) => (.ok a t, l)
  | (.error e t, l) => (.error (g e) t, l)

def erase (x : Traced δ ε σ α) : EStateM ε σ α := fun s => (x s).1

@[simp] theorem erase_bare (x : EStateM ε σ α) : (bare x : Traced δ ε σ α).erase = x := rfl

@[simp] theorem erase_pure (a : α) : (pure a : Traced δ ε σ α).erase = pure a := rfl

@[simp] theorem erase_asking (deeds : σ → List δ) (x : EStateM ε σ α) :
    (asking deeds x).erase = x := rfl

@[simp] theorem erase_note (l : List δ) : (note l : Traced δ ε σ Unit).erase = pure () := rfl

@[simp] theorem erase_relabel (f : List δ → List δ') (x : Traced δ ε σ α) :
    (relabel f x).erase = x.erase := rfl

@[simp] theorem erase_bind (x : Traced δ ε σ α) (f : α → Traced δ ε σ β) :
    (x >>= f).erase = x.erase >>= fun a => (f a).erase := by
  funext s
  change (andThen x f s).1 = _
  cases hx : x s with
  | mk r l =>
      have he : x.erase s = r := congrArg Prod.fst hx
      cases r with
      | ok a t =>
          rw [bind_of_ok he]
          simp only [andThen, hx, erase]
      | error e t =>
          rw [bind_of_error he]
          simp only [andThen, hx]

@[simp] theorem erase_onPart (view : τ → σ) (put : τ → σ → τ) (x : Traced δ ε σ α) :
    (onPart view put x).erase = Stateful.onPart view put x.erase := by
  funext t
  simp only [erase, onPart, Stateful.onPart]
  rcases x (view t) with ⟨r, l⟩
  cases r with
  | ok a s => rfl
  | error e s => rfl

@[simp] theorem erase_mapError (g : ε → ε') (x : Traced δ ε σ α) :
    (mapError g x).erase = Stateful.mapError g x.erase := by
  funext s
  simp only [erase, mapError, Stateful.mapError]
  rcases x s with ⟨r, l⟩
  cases r with
  | ok a t => rfl
  | error e t => rfl

@[simp] theorem erase_ite {c : Prop} [Decidable c] (x y : Traced δ ε σ α) :
    (if c then x else y).erase = if c then x.erase else y.erase := apply_ite erase c x y

theorem bare_bind (x : EStateM ε σ α) (f : α → EStateM ε σ β) :
    (bare (x >>= f) : Traced δ ε σ β) = bare x >>= fun a => bare (f a) := by
  funext s
  change ((x >>= f) s, []) = andThen (bare x) (fun a => bare (f a)) s
  cases hx : x s with
  | ok a t => simp only [bind_of_ok hx, andThen, bare, hx, List.append_nil]
  | error e t => simp only [bind_of_error hx, andThen, bare, hx]

end Traced

open Traced

def Triple (pre : List δ → σ → Prop) (x : Traced δ ε σ α) (post : α → List δ → σ → Prop)
    (fail : ε → List δ → σ → Prop) : Prop :=
  ∀ l s, pre l s → Ends (x s).1 (fun a t => post a (l ++ (x s).2) t) fun e t => fail e (l ++ (x s).2) t

namespace Triple

variable {pre pre' : List δ → σ → Prop} {post : α → List δ → σ → Prop}
  {fail : ε → List δ → σ → Prop} {x : Traced δ ε σ α}

theorem bare {x : EStateM ε σ α}
    (h : ∀ l s, pre l s → Ends (x s) (fun a t => post a l t) fun e t => fail e l t) :
    Triple pre (Traced.bare x) post fail := by
  intro l s hs
  simpa only [Traced.bare, List.append_nil] using h l s hs

theorem pure {a : α} (h : ∀ l s, pre l s → post a l s) :
    Triple pre (Pure.pure a : Traced δ ε σ α) post fail := bare h

theorem asking {deeds : σ → List δ} {x : EStateM ε σ α}
    (h : ∀ l s, pre l s →
      Ends (x s) (fun a t => post a (l ++ deeds s) t) fun e t => fail e (l ++ deeds s) t) :
    Triple pre (Traced.asking deeds x) post fail := h

theorem note {l : List δ} {post : List δ → σ → Prop} (h : ∀ l' s, pre l' s → post (l' ++ l) s) :
    Triple pre (Traced.note l) (fun _ => post) fail := asking h

theorem bind {f : α → Traced δ ε σ β} {mid : α → List δ → σ → Prop} {post : β → List δ → σ → Prop}
    (hx : Triple pre x mid fail) (hf : ∀ a, Triple (mid a) (f a) post fail) :
    Triple pre (x >>= f) post fail := by
  intro l s hs
  have hfirst := hx l s hs
  simp only [show (x >>= f) s = andThen x f s from rfl, andThen]
  rcases hrun : x s with ⟨r, l₁⟩
  rw [hrun] at hfirst
  cases r with
  | ok a t =>
      have hsecond := hf a _ _ (hfirst.ok rfl)
      simpa only [List.append_assoc] using hsecond
  | error e t => exact hfirst

theorem onPart {view : τ → σ} {put : τ → σ → τ} {pre : List δ → τ → Prop}
    {post : α → List δ → τ → Prop} {fail : ε → List δ → τ → Prop}
    (h : ∀ t, Triple (fun l s => s = view t ∧ pre l t) x (fun a l s => post a l (put t s))
      fun e l s => fail e l (put t s)) :
    Triple pre (Traced.onPart view put x) post fail := by
  intro l t ht
  have hx := h t l (view t) ⟨rfl, ht⟩
  simp only [Traced.onPart]
  rcases hrun : x (view t) with ⟨r, l'⟩
  rw [hrun] at hx
  cases r with
  | ok a s => exact hx
  | error e s => exact hx

theorem mapError {g : ε → ε'} {fail' : ε' → List δ → σ → Prop} (h : Triple pre x post fail)
    (hfail : ∀ e l s, fail e l s → fail' (g e) l s) :
    Triple pre (Traced.mapError g x) post fail' := by
  intro l s hs
  have hx := h l s hs
  simp only [Traced.mapError]
  rcases hrun : x s with ⟨r, l'⟩
  rw [hrun] at hx
  cases r with
  | ok a t => exact hx
  | error e t => exact hfail e _ t hx

/-- Reading the state. -/
theorem get_bind {f : σ → Traced δ ε σ β} {post : β → List δ → σ → Prop}
    (h : ∀ s, Triple (fun l t => t = s ∧ pre l t) (f s) post fail) :
    Triple pre (Traced.bare get >>= f) post fail :=
  (Triple.bare fun _ _ hs => ⟨rfl, hs⟩ : Triple pre (Traced.bare get) (fun s l t => t = s ∧ pre l t)
    fail).bind h

/-- A computation that keeps a relation, which carries the assertion along. -/
theorem of_keeps {R : σ → σ → Prop} {x : EStateM ε σ α} {post : List δ → σ → Prop} (hx : Keeps R x)
    (hpost : ∀ l s t, pre l s → R s t → post l t)
    (hfail : ∀ e l s t, pre l s → R s t → fail e l t) :
    Triple pre (Traced.bare x) (fun _ => post) fail :=
  bare fun l s hs => (Ends.of_keeps hx s).mono (fun _ t => hpost l s t hs) fun e t => hfail e l s t hs

theorem weaken (h : Triple pre x post fail) (hpre : ∀ l s, pre' l s → pre l s) :
    Triple pre' x post fail := fun l s hs => h l s (hpre l s hs)

/-- A fact that does not depend on log or state. -/
theorem of_fact {A : Prop} (h : A → Triple pre x post fail) :
    Triple (fun l s => A ∧ pre l s) x post fail := fun l s hs => h hs.1 l s hs.2

theorem mono {post' : α → List δ → σ → Prop} {fail' : ε → List δ → σ → Prop}
    (h : Triple pre x post fail) (hpre : ∀ l s, pre' l s → pre l s)
    (hpost : ∀ a l s, post a l s → post' a l s) (hfail : ∀ e l s, fail e l s → fail' e l s) :
    Triple pre' x post' fail' := fun l s hs =>
  (h l s (hpre l s hs)).mono (fun a t => hpost a _ t) fun e t => hfail e _ t

end Triple

end Tracing
