import GatoPskTls.Lib.BigEndian

/-!
# Bytes and the length fields among them

A framed string is a byte string together with its length fields: where each stands, how
wide it is and how many bytes behind it it covers. Framed strings are built by appending
and by putting a length in front, so what a length field covers is known by construction;
whether it says so is a question of width, and is decided block by block.
-/
namespace BigEndian

structure LengthField where
  position : Nat
  width : Nat
  covered : Nat
  deriving DecidableEq, Repr

namespace LengthField

def shift (n : Nat) (p : LengthField) : LengthField := { p with position := n + p.position }

/-- The field, read off the bytes, is the number of bytes it covers. -/
def Exact (out : Bytes) (p : LengthField) : Prop :=
  fromBigEndian ((out.drop p.position).take p.width) = p.covered

instance (out : Bytes) (p : LengthField) : Decidable (p.Exact out) :=
  inferInstanceAs (Decidable (_ = _))

def Inside (out : Bytes) (p : LengthField) : Prop :=
  p.position + p.width + p.covered ≤ out.length

theorem exact_append_left {a : Bytes} {p : LengthField} (h : p.Inside a) (b : Bytes) :
    p.Exact (a ++ b) ↔ p.Exact a := by
  simp only [Inside] at h
  rw [Exact, Exact, List.drop_append_of_le_length (by omega),
    List.take_append_of_le_length (by simp; omega)]

theorem exact_append_right (a b : Bytes) (p : LengthField) :
    (p.shift a.length).Exact (a ++ b) ↔ p.Exact b := by
  simp only [Exact, shift]
  rw [List.drop_append, List.drop_of_length_le (by omega), List.nil_append, Nat.add_sub_cancel_left]

end LengthField

theorem length_le_flatMap {α : Type} {wire : α → Bytes} {xs : List α} {x : α} (hx : x ∈ xs) :
    (wire x).length ≤ (xs.flatMap wire).length := by
  obtain ⟨before, after, rfl⟩ := List.append_of_mem hx
  simp only [List.flatMap_append, List.flatMap_cons, List.length_append]
  omega

structure Framed where
  wire : Bytes
  lengths : List LengthField
  inside : ∀ p ∈ lengths, p.Inside wire

namespace Framed

/-- Bytes without a length field. -/
def bytes (w : Bytes) : Framed := ⟨w, [], by simp⟩

def append (a b : Framed) : Framed where
  wire := a.wire ++ b.wire
  lengths := a.lengths ++ b.lengths.map (·.shift a.wire.length)
  inside := by
    intro p hp
    rw [LengthField.Inside, List.length_append]
    rcases List.mem_append.mp hp with hp | hp
    · have := a.inside p hp
      simp only [LengthField.Inside] at this
      omega
    · obtain ⟨q, hq, rfl⟩ := List.mem_map.mp hp
      have := b.inside q hq
      simp only [LengthField.Inside] at this
      simp only [LengthField.shift]
      omega

instance : Append Framed := ⟨append⟩

/-- A `w`-byte length in front of everything. -/
def block (w : Nat) (f : Framed) : Framed where
  wire := sized w f.wire
  lengths := ⟨0, w, f.wire.length⟩ :: f.lengths.map (·.shift w)
  inside := by
    intro p hp
    rw [LengthField.Inside, sized_length]
    rcases List.mem_cons.mp hp with rfl | hp
    · simp
    · obtain ⟨q, hq, rfl⟩ := List.mem_map.mp hp
      have := f.inside q hq
      simp only [LengthField.Inside] at this
      simp only [LengthField.shift]
      omega

def concat : List Framed → Framed
  | [] => bytes []
  | f :: fs => f ++ concat fs

@[simp] theorem bytes_wire (w : Bytes) : (bytes w).wire = w := rfl
@[simp] theorem append_wire (a b : Framed) : (a ++ b).wire = a.wire ++ b.wire := rfl
@[simp] theorem block_wire (w : Nat) (f : Framed) : (block w f).wire = sized w f.wire := rfl

@[simp] theorem concat_nil : concat [] = bytes [] := rfl
@[simp] theorem concat_cons (f : Framed) (fs : List Framed) : concat (f :: fs) = f ++ concat fs := rfl

@[simp] theorem concat_map_wire {α : Type} (g : α → Framed) (xs : List α) :
    (concat (xs.map g)).wire = xs.flatMap fun x => (g x).wire := by
  induction xs with
  | nil => rfl
  | cons x xs ih =>
      rw [List.map_cons, concat, append_wire, ih]
      rfl

/-- Every length field is the number of bytes it covers. -/
def Exact (f : Framed) : Prop := ∀ p ∈ f.lengths, p.Exact f.wire

instance (f : Framed) : Decidable f.Exact := inferInstanceAs (Decidable (∀ p ∈ f.lengths, _))

@[simp] theorem exact_bytes (w : Bytes) : (bytes w).Exact := by
  intro p hp
  cases hp

@[simp] theorem exact_append (a b : Framed) : (a ++ b).Exact ↔ a.Exact ∧ b.Exact := by
  have hlengths : (a ++ b).lengths = a.lengths ++ b.lengths.map (·.shift a.wire.length) := rfl
  rw [Exact, hlengths, List.forall_mem_append, List.forall_mem_map]
  exact and_congr
    (forall₂_congr fun p hp => LengthField.exact_append_left (a.inside p hp) b.wire)
    (forall₂_congr fun p _ => LengthField.exact_append_right a.wire b.wire p)

/-- A length field is exact when its content fits its width. -/
@[simp] theorem exact_block (w : Nat) (f : Framed) :
    (block w f).Exact ↔ f.wire.length < 256 ^ w ∧ f.Exact := by
  have hlengths : (block w f).lengths = ⟨0, w, f.wire.length⟩ :: f.lengths.map (·.shift w) := rfl
  rw [Exact, hlengths, List.forall_mem_cons, List.forall_mem_map]
  refine and_congr ?_ (forall₂_congr fun p _ => ?_)
  · simp only [LengthField.Exact, block_wire, sized, List.drop_zero]
    rw [List.take_left' (bigEndian_length w _), fromBigEndian_bigEndian]
    constructor
    · intro h
      rw [← h]
      exact Nat.mod_lt _ (Nat.pow_pos (by decide))
    · exact Nat.mod_eq_of_lt
  · have := LengthField.exact_append_right (bigEndian w f.wire.length) f.wire p
    rwa [bigEndian_length] at this

@[simp] theorem exact_concat_map {α : Type} (g : α → Framed) (xs : List α) :
    (concat (xs.map g)).Exact ↔ ∀ x ∈ xs, (g x).Exact := by
  induction xs with
  | nil => simp
  | cons x xs ih => rw [List.map_cons, concat, exact_append, ih, List.forall_mem_cons]

/-- A list behind a length wide enough for the whole block: the lengths of the elements are
at most as wide, so only what else an element asks for is left. -/
theorem exact_block_list {α : Type} {w : Nat} {g : α → Framed} {P : α → Prop} (xs : List α)
    (h : (block w (concat (xs.map g))).wire.length < 256 ^ w)
    (hg : ∀ x, (g x).wire.length < 256 ^ w → ((g x).Exact ↔ P x)) :
    (block w (concat (xs.map g))).Exact ↔ ∀ x ∈ xs, P x := by
  rw [block_wire, concat_map_wire, sized_length] at h
  rw [exact_block, concat_map_wire, exact_concat_map, and_iff_right (by omega)]
  refine forall₂_congr fun x hx => hg x ?_
  have := @length_le_flatMap _ (fun x => (g x).wire) _ _ hx
  omega

end Framed

end BigEndian
