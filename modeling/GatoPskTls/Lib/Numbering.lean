import Mathlib.Tactic

/-!
# Logs numbered by what was done

A log stands newest first. Its entries are numbered by a counter that moves on with each entry
that was done and stays with each that was not, so two entries share a number exactly when
nothing was done from the older one on.
-/
namespace Numbering

variable {α β : Type}

/-- Every entry carries the number of entries done before it, counted from `base`. -/
def Numbered (done : α → Bool) (carries : α → Nat → Prop) (base : Nat) : List α → Prop
  | [] => True
  | x :: older => carries x (base + older.countP done) ∧ Numbered done carries base older

variable {done : α → Bool} {carries : α → Nat → Prop} {base : Nat}

theorem Numbered.carries_of_split {newer older : List α} {x : α}
    (h : Numbered done carries base (newer ++ x :: older)) :
    carries x (base + older.countP done) := by
  induction newer with
  | nil => exact h.1
  | cons y newer ih => exact ih h.2

theorem Numbered.carries_of_mem {l : List α} (h : Numbered done carries base l) {x : α} (hx : x ∈ l) :
    ∃ n, carries x n := by
  obtain ⟨newer, older, rfl⟩ := List.append_of_mem hx
  exact ⟨_, h.carries_of_split⟩

theorem pairwise_iff_split {R : α → α → Prop} {l : List α} :
    l.Pairwise R ↔ ∀ newer y mid x older, l = newer ++ y :: (mid ++ x :: older) → R y x := by
  induction l with
  | nil => simp
  | cons z l ih =>
      rw [List.pairwise_cons, ih]
      constructor
      · rintro ⟨hhead, htail⟩ newer y mid x older heq
        cases newer with
        | nil =>
            cases heq
            exact hhead x (by simp)
        | cons z' newer =>
            cases heq
            exact htail newer y mid x older rfl
      · intro h
        refine ⟨fun x hx => ?_, fun newer y mid x older heq => ?_⟩
        · obtain ⟨mid, older, rfl⟩ := List.append_of_mem hx
          exact h [] z mid x older rfl
        · exact h (z :: newer) y mid x older (congrArg (z :: ·) heq)

section Codes

variable {code : α → β}
  (hcode : ∀ x y m n, carries x m → carries y n → (code x = code y ↔ m = n))
include hcode

theorem Numbered.code_eq_iff {newer mid older : List α} {x y : α}
    (h : Numbered done carries base (newer ++ y :: (mid ++ x :: older))) :
    code y = code x ↔ ¬∃ z ∈ x :: mid, done z := by
  have hy := h.carries_of_split
  have hx : carries x (base + older.countP done) :=
    @Numbered.carries_of_split _ _ _ _ (newer ++ y :: mid) _ _ (by simpa using h)
  rw [hcode y x _ _ hy hx, List.countP_append]
  have hnone : List.countP done (x :: mid) = 0 ↔ ¬∃ z ∈ x :: mid, done z := by
    rw [List.countP_eq_zero, not_exists]
    simp only [not_and]
  rw [← hnone, List.countP_cons, List.countP_cons]
  omega

/-- Entries that stand in a relation carry different codes exactly when something is done
between any two of them. -/
theorem Numbered.pairwise_iff {R : α → α → Prop} {l : List α} (h : Numbered done carries base l) :
    (l.Pairwise fun y x => R y x → code y ≠ code x) ↔
      ∀ newer y mid x older, l = newer ++ y :: (mid ++ x :: older) → R y x →
        ∃ z ∈ x :: mid, done z := by
  rw [pairwise_iff_split]
  refine forall_congr' fun newer => forall_congr' fun y => forall_congr' fun mid =>
    forall_congr' fun x => forall_congr' fun older => forall_congr' fun heq =>
      forall_congr' fun _ => ?_
  subst heq
  rw [ne_eq, h.code_eq_iff hcode, not_not]

end Codes

end Numbering
