import GatoPskTls.Error

/-!
# Parse buffers

A cursor over a borrowed byte slice. Every reader checks its bound first, so the
cursor never passes the end of the slice; the bound is a field of the cursor.
A failed reader leaves the cursor where the failing read found it.
-/
namespace GatoPskTls

open Stateful BigEndian

@[ext] structure ParseBuffer where
  pos : Nat
  buffer : Bytes
  pos_le : pos ≤ buffer.length
  deriving DecidableEq

abbrev Parser (ε α : Type) := EStateM ε ParseBuffer α

namespace ParseBuffer

def new (buffer : Bytes) : ParseBuffer := ⟨0, buffer, Nat.zero_le _⟩

def isEmpty (b : ParseBuffer) : Bool := b.pos == b.buffer.length

def remaining (b : ParseBuffer) : Nat := b.buffer.length - b.pos

/-- The bytes not read yet. -/
def rest (b : ParseBuffer) : Bytes := b.buffer.drop b.pos

/-- The bound check and the copy that all multi-byte readers share. -/
def advance (n : Nat) : Parser ParseError Bytes := fun b =>
  if h : b.pos + n ≤ b.buffer.length then
    .ok ((b.buffer.drop b.pos).take n) ⟨b.pos + n, b.buffer, h⟩
  else
    .error .insufficientBytes b

def slice (len : Nat) : Parser ParseError ParseBuffer := do
  return new (← advance len)

def readU8 : Parser ParseError UInt8 := fun b =>
  if h : b.pos < b.buffer.length then
    .ok b.buffer[b.pos] ⟨b.pos + 1, b.buffer, h⟩
  else
    .error .insufficientBytes b

def readU16 : Parser ParseError Nat := do
  return fromBigEndian (← advance 2)

def readU24 : Parser ParseError Nat := do
  return fromBigEndian (← advance 3)

def readU32 : Parser ParseError Nat := do
  return fromBigEndian (← advance 4)

/-- Fill a destination array. -/
def fill (n : Nat) : Parser ParseError (GenericArray n) := fun b =>
  if h : b.pos + n ≤ b.buffer.length then
    .ok ⟨(b.buffer.drop b.pos).take n, by simp; omega⟩ ⟨b.pos + n, b.buffer, h⟩
  else
    .error .insufficientBytes b

def offset {ε : Type} : Parser ε Nat := fun b => .ok b.pos b

/-- Run a parser on a slice taken earlier; its cursor is dropped afterwards. -/
def within {ε α : Type} (data : ParseBuffer) (p : Parser ε α) : Parser ε α := fun b =>
  match p data with
  | .ok a _ => .ok a b
  | .error e _ => .error e b

/-- `while !data.is_empty()` with an accumulator. Each turn of a loop of the
source reads at least one byte, so the bytes left bound the number of turns. -/
def whileNotEmpty {ε α : Type} (step : α → Parser ε α) : Nat → α → Parser ε α
  | 0, acc => pure acc
  | n+1, acc => do
      if (← get).isEmpty then pure acc
      else whileNotEmpty step n (← step acc)

/-- `heapless::Vec::push` into a vector of capacity `N`. -/
def pushWithin {ε α : Type} (N : Nat) (full : ε) (xs : List α) (x : α) : Parser ε (List α) :=
  if xs.length < N then pure (xs ++ [x]) else throw full

/-- The loop of `read_list`, on the slice it reads from. -/
def readAll {α : Type} (N : Nat) (read : Parser ParseError α) : Parser ParseError (List α) := do
  let data ← get
  whileNotEmpty (fun xs => do pushWithin N .insufficientSpace xs (← read)) data.remaining []

def readList {α : Type} (N dataLength : Nat) (read : Parser ParseError α) :
    Parser ParseError (List α) := do
  let data ← slice dataLength
  within data (readAll N read)

/-- `Reads b w b'`: the cursor went from `b` to `b'` over the bytes `w`. -/
structure Reads (b : ParseBuffer) (w : Bytes) (b' : ParseBuffer) : Prop where
  buffer_eq : b'.buffer = b.buffer
  pos_eq : b'.pos = b.pos + w.length
  rest_eq : b.rest = w ++ b'.rest

@[simp] theorem new_buffer (w : Bytes) : (new w).buffer = w := rfl
@[simp] theorem new_pos (w : Bytes) : (new w).pos = 0 := rfl
@[simp] theorem new_rest (w : Bytes) : (new w).rest = w := rfl

theorem rest_length (b : ParseBuffer) : b.rest.length = b.remaining := by
  simp only [rest, remaining, List.length_drop]

theorem isEmpty_iff {b : ParseBuffer} : b.isEmpty = true ↔ b.rest = [] := by
  have := b.pos_le
  rw [isEmpty, beq_iff_eq, rest, List.drop_eq_nil_iff]
  omega

theorem isEmpty_eq_false {b : ParseBuffer} : b.isEmpty = false ↔ 0 < b.remaining := by
  have := b.pos_le
  rw [isEmpty, beq_eq_false_iff_ne, remaining]
  omega

theorem Reads.refl (b : ParseBuffer) : Reads b [] b := ⟨rfl, rfl, rfl⟩

theorem Reads.trans {b b' b'' : ParseBuffer} {u v : Bytes} (h : Reads b u b')
    (h' : Reads b' v b'') : Reads b (u ++ v) b'' where
  buffer_eq := h'.buffer_eq.trans h.buffer_eq
  pos_eq := by rw [h'.pos_eq, h.pos_eq, List.length_append, Nat.add_assoc]
  rest_eq := by rw [h.rest_eq, h'.rest_eq, List.append_assoc]

theorem Reads.remaining_eq {b b' : ParseBuffer} {w : Bytes} (h : Reads b w b') :
    b.remaining = w.length + b'.remaining := by
  rw [← rest_length, h.rest_eq, List.length_append, rest_length]

theorem Reads.unique {b b' b'' : ParseBuffer} {u v : Bytes} (h : Reads b u b')
    (h' : Reads b v b'') (hl : u.length = v.length) : u = v ∧ b' = b'' := by
  have hrest := h.rest_eq.symm.trans h'.rest_eq
  refine ⟨(List.append_inj hrest hl).1, ?_⟩
  ext1
  · rw [h.pos_eq, h'.pos_eq, hl]
  · rw [h.buffer_eq, h'.buffer_eq]

/-- A cursor with `w` ahead of it can be moved over `w`. -/
theorem exists_reads {b : ParseBuffer} {w r : Bytes} (h : b.rest = w ++ r) :
    ∃ b', Reads b w b' ∧ b'.rest = r := by
  have hlen : b.buffer.length = b.pos + (w.length + r.length) := by
    have := congrArg List.length h
    rw [rest_length, remaining, List.length_append] at this
    have := b.pos_le
    omega
  refine ⟨⟨b.pos + w.length, b.buffer, by omega⟩, ?_⟩
  have hrest : b.buffer.drop (b.pos + w.length) = r := by
    rw [← List.drop_drop, show b.buffer.drop b.pos = w ++ r from h, List.drop_left]
  exact ⟨⟨rfl, rfl, by rw [h]; exact congrArg _ hrest.symm⟩, hrest⟩

theorem advance_eq_ok {n : Nat} {b b' : ParseBuffer} {w : Bytes} :
    advance n b = .ok w b' ↔ w.length = n ∧ Reads b w b' := by
  constructor
  · intro h
    unfold advance at h
    split at h
    · next hle =>
      cases h
      have hlen : ((b.buffer.drop b.pos).take n).length = n := by simp; omega
      refine ⟨hlen, rfl, by rw [hlen], ?_⟩
      rw [rest, rest, ← List.drop_drop, List.take_append_drop]
    · cases h
  · rintro ⟨rfl, h⟩
    have hle := b'.pos_le
    rw [h.pos_eq, h.buffer_eq] at hle
    unfold advance
    rw [dif_pos hle]
    have htake : (b.buffer.drop b.pos).take w.length = w := by
      rw [show b.buffer.drop b.pos = w ++ b'.rest from h.rest_eq, List.take_left]
    have hstate : (⟨b.pos + w.length, b.buffer, hle⟩ : ParseBuffer) = b' := by
      ext1
      · exact h.pos_eq.symm
      · exact h.buffer_eq.symm
    rw [htake, hstate]

theorem advance_eq_error {n : Nat} {b b' : ParseBuffer} {e : ParseError} :
    advance n b = .error e b' ↔ e = .insufficientBytes ∧ b' = b ∧ b.remaining < n := by
  have := b.pos_le
  unfold advance remaining
  split
  · simp; omega
  · simp only [EStateM.Result.error.injEq, eq_comm]
    constructor
    · rintro ⟨rfl, rfl⟩
      exact ⟨rfl, rfl, by omega⟩
    · rintro ⟨rfl, rfl, -⟩
      exact ⟨rfl, rfl⟩

theorem fill_eq_ok {n : Nat} {b b' : ParseBuffer} {w : GenericArray n} :
    fill n b = .ok w b' ↔ Reads b w.val b' := by
  have key : fill n b = .ok w b' ↔ advance n b = .ok w.val b' := by
    unfold fill advance
    split
    · simp [Subtype.ext_iff]
    · simp
  rw [key, advance_eq_ok, and_iff_right w.property]

theorem slice_eq_ok {n : Nat} {b b' s : ParseBuffer} :
    slice n b = .ok s b' ↔ ∃ w, s = new w ∧ w.length = n ∧ Reads b w b' := by
  simp only [slice, bind_eq_ok, advance_eq_ok, pure_apply, EStateM.Result.ok.injEq]
  constructor
  · rintro ⟨w, u, ⟨hw, hr⟩, rfl, rfl⟩
    exact ⟨w, rfl, hw, hr⟩
  · rintro ⟨w, rfl, hw, hr⟩
    exact ⟨w, b', ⟨hw, hr⟩, rfl, rfl⟩

theorem readU8_eq_ok {b b' : ParseBuffer} {v : UInt8} :
    readU8 b = .ok v b' ↔ Reads b [v] b' := by
  have key : readU8 b = .ok v b' ↔ advance 1 b = .ok [v] b' := by
    have hlen := b.pos_le
    unfold readU8 advance
    by_cases h : b.pos < b.buffer.length
    · rw [dif_pos h, dif_pos (by omega)]
      simp only [List.drop_eq_getElem_cons h, List.take_succ_cons, List.take_zero,
        EStateM.Result.ok.injEq, List.cons.injEq, and_true]
    · rw [dif_neg h, dif_neg (by omega)]
      simp
  rw [key, advance_eq_ok]
  simp

private theorem readUint_eq_ok {w : Nat} {b b' : ParseBuffer} {v : Nat} :
    (advance w >>= fun bs => pure (fromBigEndian bs)) b = .ok v b' ↔
      v < 256 ^ w ∧ Reads b (bigEndian w v) b' := by
  simp only [bind_eq_ok, advance_eq_ok, pure_apply, EStateM.Result.ok.injEq]
  constructor
  · rintro ⟨bs, u, ⟨hw, hr⟩, rfl, rfl⟩
    subst hw
    rw [bigEndian_fromBigEndian]
    exact ⟨fromBigEndian_lt bs, hr⟩
  · rintro ⟨hv, hr⟩
    refine ⟨_, b', ⟨bigEndian_length w v, hr⟩, ?_, rfl⟩
    rw [fromBigEndian_bigEndian, Nat.mod_eq_of_lt hv]

theorem readU16_eq_ok {b b' : ParseBuffer} {v : Nat} :
    readU16 b = .ok v b' ↔ v < 256 ^ 2 ∧ Reads b (bigEndian 2 v) b' := readUint_eq_ok

theorem readU24_eq_ok {b b' : ParseBuffer} {v : Nat} :
    readU24 b = .ok v b' ↔ v < 256 ^ 3 ∧ Reads b (bigEndian 3 v) b' := readUint_eq_ok

theorem readU32_eq_ok {b b' : ParseBuffer} {v : Nat} :
    readU32 b = .ok v b' ↔ v < 256 ^ 4 ∧ Reads b (bigEndian 4 v) b' := readUint_eq_ok

@[simp] theorem offset_apply {ε : Type} (b : ParseBuffer) :
    (offset : Parser ε Nat) b = .ok b.pos b := rfl

/-- The cursor has only moved forward. -/
def Advances (b b' : ParseBuffer) : Prop := ∃ w, Reads b w b'

instance : Std.Refl Advances := ⟨fun b => ⟨[], .refl b⟩⟩

instance : IsTrans ParseBuffer Advances where
  trans := fun _ _ _ ⟨_, h⟩ ⟨_, h'⟩ => ⟨_, h.trans h'⟩

theorem keeps_advance (n : Nat) : Keeps Advances (advance n) := by
  intro b
  cases h : advance n b with
  | ok w b' => exact ⟨w, (advance_eq_ok.mp h).2⟩
  | error e b' =>
      rw [(advance_eq_error.mp h).2.1]
      exact Std.Refl.refl b

theorem keeps_slice (n : Nat) : Keeps Advances (slice n) :=
  (keeps_advance n).bind fun _ => .pure _

theorem keeps_readU16 : Keeps Advances readU16 := (keeps_advance 2).bind fun _ => .pure _

theorem keeps_readU24 : Keeps Advances readU24 := (keeps_advance 3).bind fun _ => .pure _

theorem keeps_readU32 : Keeps Advances readU32 := (keeps_advance 4).bind fun _ => .pure _

theorem keeps_readU8 : Keeps Advances readU8 := by
  intro b
  cases h : readU8 b with
  | ok v b' => exact ⟨_, readU8_eq_ok.mp h⟩
  | error e b' =>
      simp only [readU8] at h
      split at h
      · cases h
      · cases h
        exact Std.Refl.refl b

theorem keeps_fill (n : Nat) : Keeps Advances (fill n) := by
  intro b
  cases h : fill n b with
  | ok v b' => exact ⟨_, fill_eq_ok.mp h⟩
  | error e b' =>
      simp only [fill] at h
      split at h
      · cases h
      · cases h
        exact Std.Refl.refl b

theorem keeps_within {ε α : Type} (data : ParseBuffer) (p : Parser ε α) :
    Keeps Advances (within data p) := by
  intro b
  simp only [within]
  split
  · exact Std.Refl.refl b
  · exact Std.Refl.refl b

theorem within_eq_ok {ε α : Type} {data : ParseBuffer} {p : Parser ε α} {b b' : ParseBuffer}
    {a : α} : within data p b = .ok a b' ↔ b' = b ∧ ∃ d, p data = .ok a d := by
  unfold within
  cases h : p data with
  | ok c d => simp [eq_comm, and_comm]
  | error e d => simp

theorem pushWithin_eq_ok {ε α : Type} {N : Nat} {full : ε} {xs ys : List α} {x : α}
    {b b' : ParseBuffer} :
    pushWithin N full xs x b = .ok ys b' ↔ xs.length < N ∧ ys = xs ++ [x] ∧ b' = b := by
  unfold pushWithin
  split
  · next h => simp [h, eq_comm]
  · next h => simp [h]

/-- The loop rule: an invariant that every turn keeps holds at the end, and a loop
whose turns all read something ends with the buffer used up. -/
theorem whileNotEmpty_eq_ok {ε α : Type} {step : α → Parser ε α} (Inv : α → ParseBuffer → Prop)
    (progress : ∀ acc b acc' b', step acc b = .ok acc' b' → b'.remaining < b.remaining)
    (keep : ∀ acc b acc' b', Inv acc b → step acc b = .ok acc' b' → Inv acc' b')
    {n : Nat} {acc acc' : α} {b b' : ParseBuffer} (hn : b.remaining ≤ n) (hi : Inv acc b)
    (h : whileNotEmpty step n acc b = .ok acc' b') : Inv acc' b' ∧ b'.rest = [] := by
  induction n generalizing acc b with
  | zero =>
      simp only [whileNotEmpty, pure_apply, EStateM.Result.ok.injEq] at h
      obtain ⟨rfl, rfl⟩ := h
      refine ⟨hi, List.length_eq_zero_iff.mp ?_⟩
      rw [rest_length]
      omega
  | succ n ih =>
      simp only [whileNotEmpty, get_bind_apply] at h
      cases he : b.isEmpty with
      | true =>
          simp only [he, if_true, pure_apply, EStateM.Result.ok.injEq] at h
          obtain ⟨rfl, rfl⟩ := h
          exact ⟨hi, isEmpty_iff.mp he⟩
      | false =>
          simp only [he, Bool.false_eq_true, if_false, bind_eq_ok] at h
          obtain ⟨mid, c, hstep, hrun⟩ := h
          have hp := progress _ _ _ _ hstep
          exact ih (by omega) (keep _ _ _ _ hi hstep) hrun

end ParseBuffer

end GatoPskTls
