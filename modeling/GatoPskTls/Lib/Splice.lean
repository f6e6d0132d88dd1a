import Mathlib.Tactic

/-!
# Overwriting a range of a fixed-size buffer

`splice buf pos data` is what copying `data` over `buf[pos .. pos + data.length]`
leaves. All lemmas assume the range lies inside the buffer, which is what a
bounds check establishes.
-/
namespace Splice

variable {α : Type}

def splice (buf : List α) (pos : Nat) (data : List α) : List α :=
  buf.take pos ++ data ++ buf.drop (pos + data.length)

theorem splice_length {buf : List α} {pos : Nat} {data : List α}
    (h : pos + data.length ≤ buf.length) : (splice buf pos data).length = buf.length := by
  simp only [splice, List.length_append, List.length_take, List.length_drop]
  omega

@[simp] theorem splice_nil (buf : List α) (pos : Nat) : splice buf pos [] = buf := by
  simp [splice]

theorem take_splice_of_le {buf : List α} {pos n : Nat} {data : List α} (hn : n ≤ pos)
    (hp : pos ≤ buf.length) : (splice buf pos data).take n = buf.take n := by
  have : n ≤ (buf.take pos).length := by simp only [List.length_take]; omega
  rw [splice, List.append_assoc, List.take_append_of_le_length this, List.take_take,
    Nat.min_eq_left hn]

theorem take_splice_end {buf : List α} {pos : Nat} {data : List α} (hp : pos ≤ buf.length) :
    (splice buf pos data).take (pos + data.length) = buf.take pos ++ data := by
  rw [splice, List.take_append_of_le_length (by simp; omega), List.take_of_length_le (by simp)]

/-- A splice in front of where the list is cut. -/
theorem take_splice_inside {buf : List α} {pos n : Nat} {data : List α} (hp : pos ≤ buf.length)
    (hn : pos + data.length ≤ n) : (splice buf pos data).take n = splice (buf.take n) pos data := by
  have hfront : (buf.take pos ++ data).length = pos + data.length := by
    rw [List.length_append, List.length_take, Nat.min_eq_left hp]
  rw [splice, splice, List.take_append, hfront, List.take_of_length_le (by rw [hfront]; exact hn),
    List.take_take, Nat.min_eq_left (by omega), List.drop_take]

theorem drop_splice {buf : List α} {pos : Nat} {data : List α} (hp : pos ≤ buf.length) :
    (splice buf pos data).drop (pos + data.length) = buf.drop (pos + data.length) := by
  rw [splice, List.drop_append, List.drop_of_length_le (by simp), List.nil_append]
  simp only [List.length_append, List.length_take, Nat.min_eq_left hp, Nat.sub_self,
    List.drop_zero]

/-- Two writes side by side are one write. -/
theorem splice_splice {buf : List α} {pos : Nat} {a b : List α} (hp : pos ≤ buf.length) :
    splice (splice buf pos a) (pos + a.length) b = splice buf pos (a ++ b) := by
  rw [splice, take_splice_end hp, List.append_assoc]
  rw [show (splice buf pos a).drop (pos + a.length + b.length) =
    buf.drop (pos + (a ++ b).length) by
      rw [← List.drop_drop, drop_splice hp, List.drop_drop, List.length_append, Nat.add_assoc]]
  simp only [splice, List.append_assoc]

theorem splice_append {a b c p : List α} (h : p.length = b.length) :
    splice (a ++ b ++ c) a.length p = a ++ p ++ c := by
  rw [splice, List.append_assoc a b c, List.take_left, ← List.append_assoc a b c,
    show a.length + p.length = (a ++ b).length by simp [h], List.drop_left]

/-- A later write that covers the end of an earlier one. -/
theorem splice_overwrite {buf : List α} {pos : Nat} {u v data : List α} (hp : pos ≤ buf.length)
    (hv : v.length ≤ data.length) :
    splice (splice buf pos (u ++ v)) (pos + u.length) data = splice buf pos (u ++ data) := by
  have hu := @splice_splice _ buf pos u v hp
  have htake : (splice buf pos (u ++ v)).take (pos + u.length) = buf.take pos ++ u := by
    rw [← hu, take_splice_of_le (Nat.le_refl _), take_splice_end hp]
    simp only [splice, List.length_append, List.length_take]
    omega
  have hdrop : (splice buf pos (u ++ v)).drop (pos + u.length + data.length) =
      buf.drop (pos + (u ++ data).length) := by
    obtain ⟨k, hk⟩ := Nat.exists_eq_add_of_le hv
    have := @drop_splice _ buf pos (u ++ v) hp
    rw [List.length_append] at this
    rw [hk, List.length_append, hk, show pos + u.length + (v.length + k) =
      pos + (u.length + v.length) + k by omega, ← List.drop_drop, this, List.drop_drop]
    congr 1
    omega
  rw [splice, htake, hdrop]
  simp only [splice, List.append_assoc]

/-- A later write inside a range already written. -/
theorem splice_splice_inside {buf : List α} {pos k : Nat} {data patch : List α}
    (hp : pos ≤ buf.length) (hk : k + patch.length ≤ data.length) :
    splice (splice buf pos data) (pos + k) patch = splice buf pos (splice data k patch) := by
  have hsplit : data = data.take k ++ (data.drop k).take patch.length ++
      data.drop (k + patch.length) := by
    rw [← List.drop_drop, List.append_assoc, List.take_append_drop, List.take_append_drop]
  have hmid : patch.length = ((data.drop k).take patch.length).length := by
    simp only [List.length_take, List.length_drop]
    omega
  have hpos : pos + k = (buf.take pos ++ data.take k).length := by
    simp only [List.length_append, List.length_take]
    omega
  have hlen := splice_length hk
  rw [splice.eq_def buf pos (splice data k patch), hlen, splice.eq_def data k patch]
  conv_lhs => rw [splice.eq_def buf pos data, hsplit]
  simp only [← List.append_assoc] at *
  rw [List.append_assoc (_ ++ _ ++ _), hpos, splice_append hmid, ← hsplit]
  simp only [List.append_assoc]

theorem set_eq_splice {buf : List α} {i : Nat} (a : α) (h : i < buf.length) :
    buf.set i a = splice buf i [a] := by
  rw [List.set_eq_take_append_cons_drop, if_pos h]
  simp [splice]

end Splice
