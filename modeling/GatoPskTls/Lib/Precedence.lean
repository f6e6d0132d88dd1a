import Mathlib.Tactic

/-!
# What comes before what

In a list of things in the order they happened, every occurrence of one thing has some others
before it, in a given order. The relation survives being looked at through a partial
relabelling that keeps the things it speaks about apart.
-/
namespace Precedence

variable {α β : Type}

/-- Before every `y` in `ws` stand the members of `xs`, in their order. -/
def Precede (xs : List α) (y : α) (ws : List α) : Prop :=
  ∀ before later, ws = before ++ y :: later → xs.Sublist before

theorem precede_iff {xs : List α} {y : α} {ws : List α} :
    Precede xs y ws ↔ ∀ i < ws.length, ws[i]? = some y → xs.Sublist (ws.take i) := by
  constructor
  · intro h i hi hy
    obtain ⟨_, rfl⟩ := List.getElem?_eq_some_iff.mp hy
    exact h _ (ws.drop (i + 1)) (by rw [← List.drop_eq_getElem_cons hi, List.take_append_drop])
  · rintro h before later rfl
    simpa using h before.length (by simp) (by simp)

instance [DecidableEq α] (xs : List α) (y : α) (ws : List α) : Decidable (Precede xs y ws) :=
  decidable_of_iff _ precede_iff.symm

section Relabel

variable {f : α → Option β} (inj : ∀ a a' b, f a = some b → f a' = some b → a = a')
include inj

theorem sublist_of_filterMap {xs ws : List α} {ys : List β} (hx : xs.map f = ys.map some)
    (h : ws.filterMap f = ys) : xs.Sublist ws := by
  induction ws generalizing xs ys with
  | nil =>
      subst h
      cases xs with
      | nil => exact .slnil
      | cons x xs => cases hx
  | cons w ws ih =>
      cases hw : f w with
      | none => exact (ih hx (by rwa [List.filterMap_cons_none hw] at h)).cons w
      | some b =>
          rw [List.filterMap_cons_some hw] at h
          subst h
          cases xs with
          | nil => exact List.nil_sublist _
          | cons x xs =>
              simp only [List.map_cons, List.cons.injEq] at hx
              rw [inj x w b hx.1 hw]
              exact (ih hx.2 rfl).cons_cons w

/-- A relabelling changes nothing about what comes before what. -/
theorem precede_filterMap {xs : List α} {ys : List β} {x : α} {y : β} {ws : List α}
    (hxs : xs.map f = ys.map some) (hx : f x = some y) :
    Precede ys y (ws.filterMap f) ↔ Precede xs x ws := by
  constructor
  · intro h before later hws
    have hsub : ys.Sublist (before.filterMap f) := by
      refine h _ (later.filterMap f) ?_
      rw [hws, List.filterMap_append, List.filterMap_cons_some hx]
    obtain ⟨chosen, hchosen, rfl⟩ := List.sublist_filterMap_iff.mp hsub
    exact (sublist_of_filterMap inj hxs rfl).trans hchosen
  · intro h before later hws
    obtain ⟨front, back, rfl, rfl, hback⟩ := List.filterMap_eq_append_iff.mp hws
    obtain ⟨skipped, x', rest, rfl, hskipped, hx', -⟩ := List.filterMap_eq_cons_iff.mp hback
    obtain rfl := inj x' x y hx' hx
    have hsub := h (front ++ skipped) rest (by simp)
    have hys : xs.filterMap f = ys := by
      simpa [List.filterMap_map] using congrArg (List.filterMap id) hxs
    have hnone : skipped.filterMap f = [] := List.filterMap_eq_nil_iff.mpr hskipped
    have := hsub.filterMap f
    rwa [hys, List.filterMap_append, hnone, List.append_nil] at this

end Relabel

end Precedence
