import Mathlib.Tactic

/-!
# Logs in epochs

A log of deeds, oldest first. An installation opens an epoch, and the uses of an epoch are
numbered from 0. If a use tells its epoch and its number, and nothing is installed twice, then no
two uses are the same.
-/
namespace Epochs

inductive Deed (ι υ : Type)
  | install (i : ι)
  | use (u : υ)
  deriving DecidableEq

variable {ι υ : Type}

/-- An epoch, the first one being opened by nothing, and the number of the next use. -/
structure Epoch (ι : Type) where
  opened : Option ι
  count : Nat
  deriving DecidableEq

namespace Epoch

def first : Epoch ι := ⟨none, 0⟩

def next (e : Epoch ι) : Deed ι υ → Epoch ι
  | .install i => ⟨some i, 0⟩
  | .use _ => ⟨e.opened, e.count + 1⟩

/-- The epoch behind a log. -/
def after (e : Epoch ι) (l : List (Deed ι υ)) : Epoch ι := l.foldl next e

end Epoch

open Epoch

def installs (l : List (Deed ι υ)) : List ι :=
  l.filterMap fun
    | .install i => some i
    | .use _ => none

def uses (l : List (Deed ι υ)) : List υ :=
  l.filterMap fun
    | .install _ => none
    | .use u => some u

@[simp] theorem installs_append (l l' : List (Deed ι υ)) :
    installs (l ++ l') = installs l ++ installs l' := List.filterMap_append

@[simp] theorem after_append (e : Epoch ι) (l l' : List (Deed ι υ)) :
    e.after (l ++ l') = (e.after l).after l' := List.foldl_append

/-- Every use stands where it belongs. -/
def Numbered (carries : Option ι → Nat → υ → Prop) (e : Epoch ι) : List (Deed ι υ) → Prop
  | [] => True
  | .install i :: l => Numbered carries ⟨some i, 0⟩ l
  | .use u :: l => carries e.opened e.count u ∧ Numbered carries ⟨e.opened, e.count + 1⟩ l

variable {carries : Option ι → Nat → υ → Prop} {e : Epoch ι} {l l' : List (Deed ι υ)}

theorem numbered_append : Numbered carries e (l ++ l') ↔
    Numbered carries e l ∧ Numbered carries (e.after l) l' := by
  induction l generalizing e with
  | nil => simp [Numbered, Epoch.after]
  | cons d l ih =>
      cases d with
      | install i => exact ih
      | use u => exact (and_congr_right fun _ => ih).trans and_assoc.symm

/-- A use belongs to the epoch the log starts in, from its number on, or to one the log opens. -/
theorem Numbered.of_mem (h : Numbered carries e l) {u : υ} (hu : u ∈ uses l) :
    (∃ n ≥ e.count, carries e.opened n u) ∨ ∃ i ∈ installs l, ∃ n, carries (some i) n u := by
  induction l generalizing e with
  | nil => cases hu
  | cons d l ih =>
      cases d with
      | install i =>
          rcases ih h hu with ⟨n, -, hn⟩ | ⟨j, hj, hn⟩
          · exact .inr ⟨i, List.mem_cons_self, n, hn⟩
          · exact .inr ⟨j, List.mem_cons_of_mem _ hj, hn⟩
      | use u' =>
          rcases List.mem_cons.mp hu with rfl | hu
          · exact .inl ⟨e.count, le_rfl, h.1⟩
          · rcases ih h.2 hu with ⟨n, hn, hcarries⟩ | hlater
            · exact .inl ⟨n, by simp only at hn; omega, hcarries⟩
            · exact .inr hlater

theorem Numbered.nodup_uses (h : Numbered carries e l)
    (hopened : (e.opened :: (installs l).map some).Nodup)
    (hcarries : ∀ i ∈ e.opened :: (installs l).map some, ∀ j ∈ e.opened :: (installs l).map some,
      ∀ m n u, carries i m u → carries j n u → i = j ∧ m = n) : (uses l).Nodup := by
  induction l generalizing e with
  | nil => exact List.nodup_nil
  | cons d l ih =>
      cases d with
      | install i =>
          exact ih h hopened.of_cons fun j hj k hk => hcarries j (.tail _ hj) k (.tail _ hk)
      | use u =>
          refine List.nodup_cons.mpr ⟨fun hu => ?_, ih h.2 hopened hcarries⟩
          rcases h.2.of_mem hu with ⟨n, hn, hlater⟩ | ⟨i, hi, n, hlater⟩
          · have heq := (hcarries _ (.head _) _ (.head _) _ _ u h.1 hlater).2
            simp only at hn
            omega
          · have hmem : some i ∈ (installs l).map some := List.mem_map_of_mem hi
            have heq := (hcarries _ (.head _) _ (.tail _ hmem) _ _ u h.1 hlater).1
            exact (List.nodup_cons.mp hopened).1 (heq ▸ hmem)

end Epochs
