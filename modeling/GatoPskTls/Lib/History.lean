import Mathlib.Tactic

/-!
# Histories of a deterministic machine

A machine answers each call and moves to a new state. Its history lists the
calls made so far, newest first, each with the state it was made in and the
answer it got, so that "earlier" and "most recent" are statements about tails.
-/
namespace History

variable {σ ι ο : Type}

structure Event (σ ι ο : Type) where
  pre : σ
  call : ι
  out : ο

/-- `Reaches step s₀ h s`: the calls of `h`, made in order from `s₀`, end in `s`. -/
inductive Reaches (step : σ → ι → ο × σ) (s₀ : σ) : List (Event σ ι ο) → σ → Prop
  | nil : Reaches step s₀ [] s₀
  | call {h : List (Event σ ι ο)} {s : σ} (i : ι) : Reaches step s₀ h s →
      Reaches step s₀ (⟨s, i, (step s i).1⟩ :: h) (step s i).2

variable {step : σ → ι → ο × σ} {s₀ : σ}

/-- What holds at the start and survives every call holds after every history. -/
theorem Reaches.invariant (Inv : List (Event σ ι ο) → σ → Prop) (init : Inv [] s₀)
    (preserve : ∀ h s i, Reaches step s₀ h s → Inv h s →
      Inv (⟨s, i, (step s i).1⟩ :: h) (step s i).2)
    {h : List (Event σ ι ο)} {s : σ} (hr : Reaches step s₀ h s) : Inv h s := by
  induction hr with
  | nil => exact init
  | call i hr ih => exact preserve _ _ i hr ih

/-- Every event of a history is a call of the machine, made after the older part. -/
theorem Reaches.split {newer older : List (Event σ ι ο)} {e : Event σ ι ο} {s : σ}
    (hr : Reaches step s₀ (newer ++ e :: older) s) :
    Reaches step s₀ older e.pre ∧ e.out = (step e.pre e.call).1 ∧
      Reaches step s₀ (e :: older) (step e.pre e.call).2 := by
  induction newer generalizing s with
  | nil =>
      cases hr with
      | call i hr => exact ⟨hr, rfl, .call i hr⟩
  | cons e' newer ih =>
      cases hr with
      | call i hr => exact ih hr

/-- The part of a history after some event is a history from the state that event left. -/
theorem Reaches.suffix {newer older : List (Event σ ι ο)} {e : Event σ ι ο} {s : σ}
    (hr : Reaches step s₀ (newer ++ e :: older) s) :
    Reaches step (step e.pre e.call).2 newer s := by
  induction newer generalizing s with
  | nil =>
      cases hr with
      | call i hr => exact .nil
  | cons e' newer ih =>
      cases hr with
      | call i hr => exact .call i (ih hr)

/-- A flag that is up has been raised by some event, and was up ever since. -/
theorem Reaches.since (Inv Up : σ → Prop) (Raises : Event σ ι ο → Prop) (hinv : Inv s₀)
    (hdown : ¬Up s₀) (hkeep : ∀ s i, Inv s → Inv (step s i).2)
    (hstep : ∀ s i, Inv s → Up (step s i).2 → Up s ∨ Raises ⟨s, i, (step s i).1⟩)
    {h : List (Event σ ι ο)} {s : σ} (hr : Reaches step s₀ h s) (hup : Up s) :
    ∃ later e earlier, h = later ++ e :: earlier ∧ Raises e ∧ ∀ x ∈ later, Up x.pre := by
  have hall : Inv s ∧ (Up s → ∃ later e earlier, h = later ++ e :: earlier ∧ Raises e ∧
      ∀ x ∈ later, Up x.pre) := by
    refine hr.invariant (fun h s => Inv s ∧ (Up s → ∃ later e earlier, h = later ++ e :: earlier ∧
      Raises e ∧ ∀ x ∈ later, Up x.pre)) ⟨hinv, fun hup => absurd hup hdown⟩ ?_
    intro h s i _ ⟨hs, hsince⟩
    refine ⟨hkeep s i hs, fun hup => ?_⟩
    rcases hstep s i hs hup with hbefore | hraises
    · obtain ⟨later, e, earlier, rfl, he, hlater⟩ := hsince hbefore
      exact ⟨_ :: later, e, earlier, rfl, he, List.forall_mem_cons.mpr ⟨hbefore, hlater⟩⟩
    · exact ⟨[], _, h, rfl, hraises, fun _ hx => absurd hx List.not_mem_nil⟩
  exact hall.2 hup

/-- A machine that answers alike in the states `f` gives has the same histories. -/
theorem Reaches.map {τ : Type} {step' : τ → ι → ο × τ} (f : σ → τ)
    (hstep : ∀ s i, step' (f s) i = ((step s i).1, f (step s i).2)) {h : List (Event σ ι ο)} {s : σ}
    (hr : Reaches step s₀ h s) :
    Reaches step' (f s₀) (h.map fun e => ⟨f e.pre, e.call, e.out⟩) (f s) := by
  induction hr with
  | nil => exact .nil
  | @call h s i hr ih =>
      have hcall := Reaches.call i ih
      rw [hstep] at hcall
      exact hcall

/-- Machines that answer alike in related states have histories with the same calls and
answers. -/
theorem Reaches.follow {τ : Type} {step' : τ → ι → ο × τ} {R : σ → τ → Prop} {t₀ : τ}
    (hstep : ∀ s t i, R s t → (step s i).1 = (step' t i).1 ∧ R (step s i).2 (step' t i).2)
    (hstart : R s₀ t₀) {h : List (Event σ ι ο)} {s : σ} (hr : Reaches step s₀ h s) :
    ∃ h' t, Reaches step' t₀ h' t ∧ R s t ∧
      h'.map (fun e => (e.call, e.out)) = h.map fun e => (e.call, e.out) := by
  induction hr with
  | nil => exact ⟨[], t₀, .nil, hstart, rfl⟩
  | @call h s i hr ih =>
      obtain ⟨h', t, hr', hst, hsame⟩ := ih
      obtain ⟨hout, hnext⟩ := hstep s t i hst
      refine ⟨_, _, .call i hr', hnext, ?_⟩
      simp only [List.map_cons, hsame, hout]

/-- Make the given calls in order. -/
def runAll (step : σ → ι → ο × σ) : List (Event σ ι ο) × σ → List ι → List (Event σ ι ο) × σ
  | hs, [] => hs
  | (h, s), i :: is => runAll step (⟨s, i, (step s i).1⟩ :: h, (step s i).2) is

theorem runAll_reaches {h : List (Event σ ι ο)} {s : σ} (hr : Reaches step s₀ h s)
    (is : List ι) : Reaches step s₀ (runAll step (h, s) is).1 (runAll step (h, s) is).2 := by
  induction is generalizing h s with
  | nil => exact hr
  | cons i is ih => exact ih (.call i hr)

section InOrder

variable {α : Type}

/-- What `f` reads off the events of a history, the first event first. -/
def inOrder (f : Event σ ι ο → List α) (h : List (Event σ ι ο)) : List α := h.reverse.flatMap f

@[simp] theorem inOrder_nil (f : Event σ ι ο → List α) : inOrder f [] = [] := rfl

@[simp] theorem inOrder_cons (f : Event σ ι ο → List α) (e : Event σ ι ο) (h : List (Event σ ι ο)) :
    inOrder f (e :: h) = inOrder f h ++ f e := by
  simp [inOrder]

theorem mem_inOrder {f : Event σ ι ο → List α} {h : List (Event σ ι ο)} {a : α} :
    a ∈ inOrder f h ↔ ∃ e ∈ h, a ∈ f e := by
  simp [inOrder]

/-- `Inv rest s` says what is left of a supply. When every event takes what it takes from the
front, what was taken in a history and what is left are the supply. -/
theorem Reaches.drains {f : Event σ ι ο → List α} {Inv : List α → σ → Prop}
    {F : Event σ ι ο → Prop} {supply : List α}
    (hstep : ∀ rest s i, Inv rest s → F ⟨s, i, (step s i).1⟩ →
      ∃ rest', f ⟨s, i, (step s i).1⟩ ++ rest' = rest ∧ Inv rest' (step s i).2)
    (hstart : Inv supply s₀) {h : List (Event σ ι ο)} {s : σ} (hr : Reaches step s₀ h s)
    (hfair : ∀ e ∈ h, F e) : ∃ rest, inOrder f h ++ rest = supply ∧ Inv rest s := by
  induction hr with
  | nil => exact ⟨supply, rfl, hstart⟩
  | call i hr ih =>
      obtain ⟨hlast, hfair⟩ := List.forall_mem_cons.mp hfair
      obtain ⟨rest, rfl, hrest⟩ := ih hfair
      obtain ⟨rest', rfl, hrest'⟩ := hstep rest _ i hrest hlast
      exact ⟨rest', by rw [inOrder_cons, List.append_assoc], hrest'⟩

end InOrder

section Beside

variable {τ κ ρ : Type} {step' : τ → κ → ρ × τ}

/-- Calls go to the one machine or to the other. -/
def beside (step : σ → ι → ο × σ) (step' : τ → κ → ρ × τ) (s : σ × τ) : ι ⊕ κ → (ο ⊕ ρ) × (σ × τ)
  | .inl i => (.inl (step s.1 i).1, (step s.1 i).2, s.2)
  | .inr i => (.inr (step' s.2 i).1, s.1, (step' s.2 i).2)

def Event.left? (e : Event (σ × τ) (ι ⊕ κ) (ο ⊕ ρ)) : Option (Event σ ι ο) :=
  match e.call, e.out with
  | .inl i, .inl o => some ⟨e.pre.1, i, o⟩
  | _, _ => none

def Event.right? (e : Event (σ × τ) (ι ⊕ κ) (ο ⊕ ρ)) : Option (Event τ κ ρ) :=
  match e.call, e.out with
  | .inr i, .inr o => some ⟨e.pre.2, i, o⟩
  | _, _ => none

/-- Each machine has a history of its own. -/
theorem Reaches.of_beside {h : List (Event (σ × τ) (ι ⊕ κ) (ο ⊕ ρ))} {s₀ s : σ × τ}
    (hr : Reaches (beside step step') s₀ h s) :
    Reaches step s₀.1 (h.filterMap Event.left?) s.1 ∧
      Reaches step' s₀.2 (h.filterMap Event.right?) s.2 := by
  induction hr with
  | nil => exact ⟨.nil, .nil⟩
  | call i hr ih =>
      cases i with
      | inl i => exact ⟨.call i ih.1, ih.2⟩
      | inr i => exact ⟨ih.1, .call i ih.2⟩

end Beside

end History
