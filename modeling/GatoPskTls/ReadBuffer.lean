import GatoPskTls.Lib.BigEndian

/-!
# Read buffers

A read buffer lends out decrypted bytes. Those that were popped are consumed when it is dropped,
all of them when it was never used, and none when it is reverted.
-/
namespace GatoPskTls

open BigEndian

structure ReadBuffer where
  data : Bytes
  consumed : Nat
  used : Bool
  consumed_le : consumed ≤ data.length
  deriving DecidableEq

/-- The calls on a read buffer. -/
inductive BufferCall
  | peek (count : Nat)
  | peekAll
  | pop (count : Nat)
  | popAll
  | popInto (len : Nat)
  deriving DecidableEq, Repr

/-- How the caller parts with a read buffer. -/
inductive Release
  | drop
  | revert
  deriving DecidableEq, Repr

def BufferCall.consumes : BufferCall → Bool
  | peek _ => false
  | peekAll => false
  | pop _ => true
  | popAll => true
  | popInto _ => true

namespace ReadBuffer

theorem nothing_consumed (buffer : Bytes) : 0 ≤ buffer.length := Nat.zero_le _

def new (buffer : Bytes) : ReadBuffer := ⟨buffer, 0, false, nothing_consumed buffer⟩

def len (b : ReadBuffer) : Nat := b.data.length - b.consumed

def peek (count : Nat) (b : ReadBuffer) : Bytes × ReadBuffer :=
  ((b.data.drop b.consumed).take (min b.len count), { b with used := true })

def peekAll (b : ReadBuffer) : Bytes × ReadBuffer := peek b.len b

def pop (count : Nat) (b : ReadBuffer) : Bytes × ReadBuffer :=
  ((b.data.drop b.consumed).take (min b.len count),
    { b with
      consumed := b.consumed + min b.len count
      used := true
      consumed_le := by
        have := b.consumed_le
        simp only [len]
        omega })

def popAll (b : ReadBuffer) : Bytes × ReadBuffer := pop b.len b

/-- The bytes copied to the front of a buffer of `len` bytes. -/
def popInto (len : Nat) (b : ReadBuffer) : Bytes × ReadBuffer := pop len b

def call : BufferCall → ReadBuffer → Bytes × ReadBuffer
  | .peek count => peek count
  | .peekAll => peekAll
  | .pop count => pop count
  | .popAll => popAll
  | .popInto len => popInto len

/-- The slices some calls have returned, in order, each behind its call. -/
def callAll : List BufferCall → ReadBuffer → List (BufferCall × Bytes) × ReadBuffer
  | [], b => ([], b)
  | i :: calls, b =>
      let (slice, b₁) := call i b
      let (slices, b₂) := callAll calls b₁
      ((i, slice) :: slices, b₂)

/-- What is added to the bytes the connection counts as consumed. -/
def released (b : ReadBuffer) : Release → Nat
  | .revert => 0
  | .drop => if b.used then b.consumed else b.data.length

/-- The bytes not popped yet. -/
def unread (b : ReadBuffer) : Bytes := b.data.drop b.consumed

/-- Each slice is the front of what the stream holds behind the bytes popped before. -/
def Follows : Bytes → List (BufferCall × Bytes) → Prop
  | _, [] => True
  | stream, (i, slice) :: slices =>
      slice <+: stream ∧ Follows (if i.consumes then stream.drop slice.length else stream) slices

/-- The bytes popped by some calls. -/
def popped (slices : List (BufferCall × Bytes)) : Bytes :=
  ((slices.filter (·.1.consumes)).map Prod.snd).flatten

/-- The bytes that are gone with the buffer. -/
def gone (data : Bytes) (slices : List (BufferCall × Bytes)) : Release → Bytes
  | .revert => []
  | .drop => if slices.isEmpty then data else popped slices

theorem call_spec (i : BufferCall) (b : ReadBuffer) :
    (call i b).1 <+: b.unread ∧ (call i b).2.data = b.data ∧ (call i b).2.used ∧
      (call i b).2.consumed = b.consumed + if i.consumes then (call i b).1.length else 0 := by
  have hlen : ∀ n, ((b.data.drop b.consumed).take (min b.len n)).length = min b.len n := fun n => by
    rw [List.length_take, List.length_drop, len]
    omega
  have hall := hlen b.len
  rw [Nat.min_self] at hall
  cases i <;>
    simp [call, peek, peekAll, pop, popAll, popInto, BufferCall.consumes, unread, List.take_prefix,
      -List.length_take, hlen, hall]

theorem call_unread (i : BufferCall) (b : ReadBuffer) :
    (call i b).2.unread = if i.consumes then b.unread.drop (call i b).1.length else b.unread := by
  obtain ⟨-, hdata, -, hconsumed⟩ := call_spec i b
  rw [unread, hdata, hconsumed]
  split
  · rw [unread, List.drop_drop]
  · rfl

theorem callAll_cons (i : BufferCall) (calls : List BufferCall) (b : ReadBuffer) :
    callAll (i :: calls) b = ((i, (call i b).1) :: (callAll calls (call i b).2).1,
      (callAll calls (call i b).2).2) := rfl

theorem callAll_follows (calls : List BufferCall) (b : ReadBuffer) (rest : Bytes) :
    Follows (b.unread ++ rest) (callAll calls b).1 := by
  induction calls generalizing b with
  | nil => trivial
  | cons i calls ih =>
      have hslice := (call_spec i b).1
      simp only [callAll_cons, Follows]
      refine ⟨hslice.trans (List.prefix_append _ _), ?_⟩
      have hrest := ih (call i b).2
      rw [call_unread] at hrest
      split
      next hc =>
        rw [if_pos hc] at hrest
        rwa [List.drop_append_of_le_length hslice.length_le]
      next hc => rwa [if_neg hc] at hrest

/-- What was popped is the front of what was there. -/
theorem callAll_popped (calls : List BufferCall) (b : ReadBuffer) :
    popped (callAll calls b).1 <+: b.unread ∧
      (callAll calls b).2.consumed = b.consumed + (popped (callAll calls b).1).length ∧
      (callAll calls b).2.data = b.data ∧
      (callAll calls b).2.used = (b.used || !(callAll calls b).1.isEmpty) := by
  induction calls generalizing b with
  | nil => simp [callAll, popped]
  | cons i calls ih =>
      obtain ⟨hslice, hdata, hused, hconsumed⟩ := call_spec i b
      obtain ⟨hpopped, hcount, hdata', hused'⟩ := ih (call i b).2
      rw [call_unread] at hpopped
      have htotal : popped ((i, (call i b).1) :: (callAll calls (call i b).2).1) =
          (if i.consumes then (call i b).1 else []) ++ popped (callAll calls (call i b).2).1 := by
        simp only [popped, List.filter_cons]
        split <;> simp
      simp only [callAll_cons, htotal]
      refine ⟨?_, ?_, hdata'.trans hdata, by simp [hused', hused]⟩
      · split
        next hc =>
          rw [if_pos hc] at hpopped
          obtain ⟨t, ht⟩ := hslice
          rw [← ht, List.drop_left] at hpopped
          rw [← ht]
          exact (List.prefix_append_right_inj _).mpr hpopped
        next hc => rwa [if_neg hc] at hpopped
      · rw [hcount, hconsumed, List.length_append]
        split
        · omega
        · simp

/-- What is gone with a buffer are the bytes the connection counts as consumed. -/
theorem gone_eq (data : Bytes) (calls : List BufferCall) (release : Release) :
    gone data (callAll calls (new data)).1 release =
      data.take ((callAll calls (new data)).2.released release) := by
  obtain ⟨hpopped, hcount, hdata, hused⟩ := callAll_popped calls (new data)
  cases release with
  | revert => simp [gone, released]
  | drop =>
      simp only [gone, released, hused, hcount, hdata]
      cases (callAll calls (new data)).1.isEmpty with
      | true => simp [new]
      | false =>
          simp only [new, unread, List.drop_zero] at hpopped
          simpa [new] using List.prefix_iff_eq_take.mp hpopped

end ReadBuffer

end GatoPskTls
