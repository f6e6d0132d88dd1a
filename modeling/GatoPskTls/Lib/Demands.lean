import GatoPskTls.Lib.Tracing

/-!
# What operations ask of their operands

An index must lie in its array, a difference must not be negative, a length must fit its field. A
computation over lists and natural numbers has none of these limits. Its traced copy notes what
each operation of the machine would ask; if everything noted is met, the machine computes the same.
-/
namespace Demands

open Stateful Tracing

variable {ε ε' σ τ α β : Type}

inductive Demand
  /-- `xs[i]` -/
  | index (i len : Nat)
  /-- `xs[start..stop]` -/
  | slice (start stop len : Nat)
  /-- A copy into a slice of `room` elements. -/
  | copy (room given : Nat)
  | minus (a b : Nat)
  | plus (a b : Nat)
  /-- A number written into a field of `bits` bits. -/
  | narrow (bits n : Nat)
  /-- An element pushed to a vector with a capacity. -/
  | push (len capacity : Nat)
  deriving DecidableEq, Repr

/-- `limit` is the first number an index register cannot hold. -/
def Demand.Met (limit : Nat) : Demand → Prop
  | index i len => i < len
  | slice start stop len => start ≤ stop ∧ stop ≤ len
  | copy room given => room = given
  | minus a b => b ≤ a
  | plus a b => a + b < limit
  | narrow bits n => n < 2 ^ bits
  | push len capacity => len < capacity

instance (limit : Nat) (d : Demand) : Decidable (d.Met limit) := by
  cases d <;> simp only [Demand.Met] <;> infer_instance

/-- A step that only asks. -/
def demand (l : List Demand) : Traced Demand ε σ Unit := .note l

@[simp] theorem erase_demand (l : List Demand) :
    (demand l : Traced Demand ε σ Unit).erase = pure () := rfl

/-- What it asks depends on the state. -/
def demandAt (l : σ → List Demand) : Traced Demand ε σ Unit := .asking l (pure ())

@[simp] theorem erase_demandAt (l : σ → List Demand) :
    (demandAt l : Traced Demand ε σ Unit).erase = pure () := rfl

def AllMet (limit : Nat) (l : List Demand) : Prop := ∀ d ∈ l, d.Met limit

@[simp] theorem allMet_nil (limit : Nat) : AllMet limit [] := nofun

@[simp] theorem allMet_cons {limit : Nat} {d : Demand} {l : List Demand} :
    AllMet limit (d :: l) ↔ d.Met limit ∧ AllMet limit l := List.forall_mem_cons

@[simp] theorem allMet_append {limit : Nat} {l l' : List Demand} :
    AllMet limit (l ++ l') ↔ AllMet limit l ∧ AllMet limit l' := List.forall_mem_append

/-- From a state with `pre` everything asked is met, and the computation ends as told. -/
def Safe (limit : Nat) (pre : σ → Prop) (x : Traced Demand ε σ α) (post : α → σ → Prop)
    (fail : ε → σ → Prop) : Prop :=
  Triple (fun l s => AllMet limit l ∧ pre s) x (fun a l s => AllMet limit l ∧ post a s)
    fun e l s => AllMet limit l ∧ fail e s

namespace Safe

variable {limit : Nat} {pre pre' : σ → Prop} {x : Traced Demand ε σ α} {post : α → σ → Prop}
  {fail : ε → σ → Prop}

theorem met (h : Safe limit pre x post fail) {s : σ} (hs : pre s) : AllMet limit (x s).2 := by
  have hx := h [] s ⟨nofun, hs⟩
  simp only [List.nil_append] at hx
  cases hrun : (x s).1 with
  | ok a t => exact (hx.ok hrun).1
  | error e t => exact (hx.error hrun).1

theorem ends (h : Safe limit pre x post fail) {s : σ} (hs : pre s) : Ends (x.erase s) post fail :=
  (h [] s ⟨nofun, hs⟩).mono (fun _ _ h => h.2) fun _ _ h => h.2

theorem bare {x : EStateM ε σ α} (h : ∀ s, pre s → Ends (x s) post fail) :
    Safe limit pre (.bare x) post fail :=
  Triple.bare fun _ s hs => (h s hs.2).mono (fun _ _ h => ⟨hs.1, h⟩) fun _ _ h => ⟨hs.1, h⟩

theorem asking {demands : σ → List Demand} {x : EStateM ε σ α}
    (h : ∀ s, pre s → AllMet limit (demands s) ∧ Ends (x s) post fail) :
    Safe limit pre (.asking demands x) post fail :=
  Triple.asking fun _ s hs =>
    have hmet := allMet_append.mpr ⟨hs.1, (h s hs.2).1⟩
    (h s hs.2).2.mono (fun _ _ h => ⟨hmet, h⟩) fun _ _ h => ⟨hmet, h⟩

theorem demand {l : List Demand} (h : ∀ s, pre s → AllMet limit l) :
    Safe limit pre (demand l) (fun _ => pre) fail := .asking fun s hs => ⟨h s hs, hs⟩

theorem demandAt {l : σ → List Demand} (h : ∀ s, pre s → AllMet limit (l s)) :
    Safe limit pre (demandAt l) (fun _ => pre) fail := .asking fun s hs => ⟨h s hs, hs⟩

theorem bind {f : α → Traced Demand ε σ β} {mid : α → σ → Prop} {post : β → σ → Prop}
    (hx : Safe limit pre x mid fail) (hf : ∀ a, Safe limit (mid a) (f a) post fail) :
    Safe limit pre (x >>= f) post fail := Triple.bind hx hf

theorem weaken (h : Safe limit pre x post fail) (hpre : ∀ s, pre' s → pre s) :
    Safe limit pre' x post fail := Triple.weaken h fun _ s hs => ⟨hs.1, hpre s hs.2⟩

theorem mono {post' : α → σ → Prop} {fail' : ε → σ → Prop} (h : Safe limit pre x post fail)
    (hpost : ∀ a s, post a s → post' a s) (hfail : ∀ e s, fail e s → fail' e s) :
    Safe limit pre x post' fail' :=
  Triple.mono h (fun _ _ hs => hs) (fun a _ s ha => ⟨ha.1, hpost a s ha.2⟩)
    fun e _ s he => ⟨he.1, hfail e s he.2⟩

/-- A fact that does not depend on the state. -/
theorem of_fact {A : Prop} (h : A → Safe limit pre x post fail) :
    Safe limit (fun s => A ∧ pre s) x post fail :=
  fun l s hs => h hs.2.1 l s ⟨hs.1, hs.2.2⟩

/-- From one state with `pre`. -/
theorem starting (h : Safe limit pre x post fail) {s : σ} (hs : pre s) :
    Safe limit (· = s) x post fail := h.weaken fun _ ht => ht ▸ hs

theorem get_bind {f : σ → Traced Demand ε σ β} {post : β → σ → Prop}
    (h : ∀ s, pre s → Safe limit (· = s) (f s) post fail) :
    Safe limit pre (.bare get >>= f) post fail :=
  Triple.get_bind fun s l t ht => h s (ht.1 ▸ ht.2.2) l t ⟨ht.2.1, ht.1⟩

theorem onPart {view : τ → σ} {put : τ → σ → τ} {pre : τ → Prop} {post : α → τ → Prop}
    {fail : ε → τ → Prop}
    (h : ∀ t, pre t → Safe limit (· = view t) x (fun a s => post a (put t s))
      fun e s => fail e (put t s)) :
    Safe limit pre (.onPart view put x) post fail :=
  Triple.onPart fun t l s hs => h t hs.2.2 l s ⟨hs.2.1, hs.1⟩

theorem mapError {g : ε → ε'} {fail' : ε' → σ → Prop} (h : Safe limit pre x post fail)
    (hfail : ∀ e s, fail e s → fail' (g e) s) : Safe limit pre (.mapError g x) post fail' :=
  Triple.mapError h fun e _ s he => ⟨he.1, hfail e s he.2⟩

end Safe

end Demands
