import GatoPskTls.Lib.Sink
import GatoPskTls.Lib.Splice
import GatoPskTls.KeySchedule

/-!
# Crypto buffers

A window into a caller-owned byte buffer, filled front to back and sealed in
place. As a sink it has room for what lies behind its window.
-/
namespace GatoPskTls

open Stateful BigEndian Splice

@[ext] structure CryptoBuffer where
  buf : Bytes
  offset : Nat
  len : Nat
  deriving DecidableEq

namespace CryptoBuffer

abbrev M := EStateM TlsError CryptoBuffer

def wrap (buf : Bytes) : CryptoBuffer := ⟨buf, 0, 0⟩

def wrapWithPos (buf : Bytes) (pos : Nat) : CryptoBuffer := ⟨buf, 0, pos⟩

def capacity (b : CryptoBuffer) : Nat := b.buf.length

def space (b : CryptoBuffer) : Nat := b.capacity - (b.offset + b.len)

def asSlice (b : CryptoBuffer) : Bytes := (b.buf.drop b.offset).take b.len

def extendFromSlice (other : Bytes) : M Unit := fun b =>
  if b.space < other.length then .error .insufficientSpace b
  else .ok () { b with buf := splice b.buf (b.offset + b.len) other, len := b.len + other.length }

def push (byte : UInt8) : M Unit := fun b =>
  if b.space > 0 then .ok () { b with buf := b.buf.set (b.offset + b.len) byte, len := b.len + 1 }
  else .error .insufficientSpace b

def pushU16 (num : Nat) : M Unit := extendFromSlice (bigEndian 2 num)

def pushU24 (num : Nat) : M Unit := extendFromSlice (bigEndian 3 num)

def pushU32 (num : Nat) : M Unit := extendFromSlice (bigEndian 4 num)

/-- `set`: overwrite a byte already written. -/
def setAt (idx : Nat) (val : UInt8) : M Unit := fun b =>
  if idx < b.len then .ok () { b with buf := b.buf.set (b.offset + idx) val }
  else .error .insufficientSpace b

/-- `set_u16` and `set_u24`: overwrite the bytes from `idx` on, one at a time. -/
def setBytes : Nat → Bytes → M Unit
  | _, [] => pure ()
  | idx, val :: vals => do
      setAt idx val
      setBytes (idx + 1) vals

def truncate (len : Nat) (b : CryptoBuffer) : CryptoBuffer :=
  if len ≤ b.capacity - b.offset then { b with len } else b

/-- `offset`, `forward` and `rewind` keep the end of the window. -/
def moveTo (offset : Nat) (b : CryptoBuffer) : CryptoBuffer :=
  { b with offset, len := b.len + b.offset - offset }

/-- The three `with_uN_length`: a placeholder, the content, then the length written back. -/
def withLength (w : Nat) (placeholder : M Unit) (op : M Unit) : M Unit := do
  let lenPos := (← get).len
  placeholder
  let start := (← get).len
  op
  let len := (← get).len - start
  setBytes lenPos (bigEndian w len)

def withU8Length (op : M Unit) : M Unit := withLength 1 (push 0) op

def withU16Length (op : M Unit) : M Unit := withLength 2 (pushU16 0) op

def withU24Length (op : M Unit) : M Unit := withLength 3 (pushU24 0) op

/-- `encrypt_in_place`: the plaintext is overwritten first, then the tag is appended. -/
def encryptInPlace {cs : TlsCipherSuite} (P : Primitives cs) (key : GenericArray cs.keyLen)
    (nonce : GenericArray cs.ivLen) (aad : Bytes) : M Unit := do
  let b ← get
  match P.aeadSeal key nonce aad b.asSlice with
  | none => throw .cryptoError
  | some ciphertext =>
      set { b with buf := splice b.buf b.offset (ciphertext.take b.len) }
      extendFromSlice (ciphertext.drop b.len)

/-- `decrypt_in_place`: a failed check leaves the buffer alone. -/
def decryptInPlace {cs : TlsCipherSuite} (P : Primitives cs) (key : GenericArray cs.keyLen)
    (nonce : GenericArray cs.ivLen) (aad : Bytes) : M Unit := do
  let b ← get
  if b.len < cs.tagSize then throw .cryptoError
  else
    match P.aeadOpen key nonce aad b.asSlice with
    | none => throw .cryptoError
    | some plaintext =>
        set (truncate (b.len - cs.tagSize) { b with buf := splice b.buf b.offset plaintext })

/-- The window lies inside the buffer. -/
def WF (b : CryptoBuffer) : Prop := b.offset + b.len ≤ b.buf.length

/-- The buffer after `w` has been written behind its window. -/
def appended (b : CryptoBuffer) (w : Bytes) : CryptoBuffer :=
  { b with buf := splice b.buf (b.offset + b.len) w, len := b.len + w.length }

theorem appended_nil (b : CryptoBuffer) : b.appended [] = b := by
  simp [appended]

theorem appended_wf {b : CryptoBuffer} {w : Bytes} (hb : b.WF) (hw : w.length ≤ b.space) :
    (b.appended w).WF := by
  simp only [WF, space, capacity] at *
  simp only [appended]
  rw [splice_length (by omega)]
  omega

theorem appended_space {b : CryptoBuffer} {w : Bytes} (hb : b.WF) (hw : w.length ≤ b.space) :
    (b.appended w).space = b.space - w.length := by
  simp only [WF, space, capacity] at *
  simp only [appended]
  rw [splice_length (by omega)]
  omega

theorem appended_append {b : CryptoBuffer} {u v : Bytes} (hb : b.WF) :
    (b.appended u).appended v = b.appended (u ++ v) := by
  have hsplice := @splice_splice _ b.buf (b.offset + b.len) u v hb
  simp only [appended, List.length_append, Nat.add_assoc] at *
  rw [hsplice]

theorem appended_asSlice {b : CryptoBuffer} {w : Bytes} (hb : b.WF) :
    (b.appended w).asSlice = b.asSlice ++ w := by
  simp only [WF] at hb
  have hslice : ∀ (buf : Bytes) (offset len : Nat),
      (buf.drop offset).take len = (buf.take (offset + len)).drop offset := by
    intro buf offset len
    rw [List.drop_take, Nat.add_sub_cancel_left]
  simp only [asSlice, appended, hslice]
  rw [← Nat.add_assoc, take_splice_end hb, List.drop_append_of_le_length (by simp; omega)]

theorem asSlice_length {b : CryptoBuffer} (hb : b.WF) : b.asSlice.length = b.len := by
  simp only [WF] at hb
  simp only [asSlice, List.length_take, List.length_drop]
  omega

/-- What was written last stands behind what was there. -/
theorem appended_asSlice_drop {b : CryptoBuffer} {w : Bytes} (hb : b.WF) :
    (b.appended w).asSlice.drop b.len = w := by
  rw [appended_asSlice hb, List.drop_left' (asSlice_length hb)]

theorem asSlice_shorten {b : CryptoBuffer} {n : Nat} (h : n ≤ b.len) :
    ({ b with len := n } : CryptoBuffer).asSlice = b.asSlice.take n := by
  simp only [asSlice, List.take_take, Nat.min_eq_left h]

theorem truncate_eq {b : CryptoBuffer} (hb : b.WF) {n : Nat} (h : n ≤ b.len) :
    b.truncate n = { b with len := n } := by
  simp only [WF] at hb
  rw [truncate, if_pos]
  simp only [capacity]
  omega

def sink : Sink CryptoBuffer UInt8 where
  valid := WF
  room := space
  put := appended
  put_nil := appended_nil
  put_put := appended_append
  valid_put := appended_wf
  room_put := appended_space

abbrev Appends (m : M Unit) (w : Bytes) : Prop := sink.Appends m w

@[simp] theorem sink_valid : sink.valid = WF := rfl
@[simp] theorem sink_room : sink.room = space := rfl
@[simp] theorem sink_put : sink.put = appended := rfl

theorem appends_extendFromSlice (w : Bytes) : Appends (extendFromSlice w) w where
  ok := fun _ hw => if_neg (Nat.not_lt.mpr hw)
  full := fun _ hw => ⟨_, _, if_pos hw⟩

theorem appends_push (byte : UInt8) : Appends (push byte) [byte] where
  ok := by
    intro b hb hw
    simp only [sink_room, List.length_singleton, space, capacity] at hw
    rw [push, if_pos (by simp only [space, capacity]; omega), set_eq_splice _ (by omega)]
    rfl
  full := fun _ hw => ⟨_, _, if_neg (Nat.not_lt.mpr (Nat.le_of_lt_succ hw))⟩

theorem setBytes_eq {idx : Nat} {vals : Bytes} {b : CryptoBuffer} (hb : b.WF)
    (h : idx + vals.length ≤ b.len) :
    setBytes idx vals b = .ok () { b with buf := splice b.buf (b.offset + idx) vals } := by
  induction vals generalizing idx b with
  | nil => simp [setBytes]
  | cons v vals ih =>
      simp only [List.length_cons] at h
      simp only [WF] at hb
      have hset : setAt idx v b = .ok () { b with buf := splice b.buf (b.offset + idx) [v] } := by
        rw [setAt, if_pos (by omega), set_eq_splice _ (by omega)]
      have hlen : (splice b.buf (b.offset + idx) [v]).length = b.buf.length :=
        splice_length (by simp; omega)
      rw [setBytes, bind_of_ok hset, ih (by simp only [WF, hlen]; exact hb) (by simp; omega)]
      simp only [← Nat.add_assoc]
      rw [show b.offset + idx + 1 = b.offset + idx + [v].length from rfl,
        splice_splice (by omega), List.singleton_append]

theorem appends_withLength {w : Nat} {placeholder op : M Unit} {blank content : Bytes}
    (hp : Appends placeholder blank) (hblank : blank.length = w) (ho : Appends op content) :
    Appends (withLength w placeholder op) (sized w content) where
  ok := by
    intro b hb hw
    rw [sink_valid] at hb
    rw [sized_length, sink_room] at hw
    rw [sink_put]
    have hp' : placeholder b = .ok () (b.appended blank) := hp.ok hb (by simp; omega)
    have ho' : op (b.appended blank) = .ok () ((b.appended blank).appended content) :=
      ho.ok (appended_wf hb (by omega)) (by simp only [sink_room]; rw [appended_space hb] <;> omega)
    rw [appended_append hb] at ho'
    have hwf : (b.appended (blank ++ content)).WF :=
      appended_wf hb (by rw [List.length_append]; omega)
    simp only [withLength, get_bind_apply, bind_of_ok hp', bind_of_ok ho']
    rw [setBytes_eq hwf (by simp [appended, hblank])]
    have hlen : (b.appended (blank ++ content)).len - (b.appended blank).len = content.length := by
      simp only [appended, List.length_append]
      omega
    have hpatch : splice (blank ++ content) 0 (bigEndian w content.length) = sized w content := by
      have := @splice_append _ [] blank content (bigEndian w content.length) (by simp [hblank])
      simpa [sized] using this
    have hinside := @splice_splice_inside _ b.buf (b.offset + b.len) 0 (blank ++ content)
      (bigEndian w content.length) hb (by simp [hblank])
    rw [Nat.add_zero, hpatch] at hinside
    rw [hlen]
    simp only [appended, hinside, List.length_append, hblank, sized_length]
  full := by
    intro b hb hw
    rw [sink_valid] at hb
    rw [sized_length, sink_room] at hw
    by_cases hu : w ≤ b.space
    · have hp' : placeholder b = .ok () (b.appended blank) := hp.ok hb (hblank ▸ hu)
      obtain ⟨e, b', he⟩ : ∃ e b', op (b.appended blank) = .error e b' :=
        ho.full (appended_wf hb (hblank ▸ hu))
          (by simp only [sink_room]; rw [appended_space hb (hblank ▸ hu)]; omega)
      refine ⟨e, b', ?_⟩
      simp only [withLength, get_bind_apply, bind_of_ok hp', bind_of_error he]
    · obtain ⟨e, b', he⟩ := hp.full hb (show b.space < blank.length by omega)
      refine ⟨e, b', ?_⟩
      simp only [withLength, get_bind_apply, bind_of_error he]

theorem appends_withU8Length {op : M Unit} {content : Bytes} (h : Appends op content) :
    Appends (withU8Length op) (sized 1 content) :=
  appends_withLength (appends_push 0) rfl h

theorem appends_withU16Length {op : M Unit} {content : Bytes} (h : Appends op content) :
    Appends (withU16Length op) (sized 2 content) :=
  appends_withLength (appends_extendFromSlice _) (bigEndian_length 2 0) h

theorem appends_withU24Length {op : M Unit} {content : Bytes} (h : Appends op content) :
    Appends (withU24Length op) (sized 3 content) :=
  appends_withLength (appends_extendFromSlice _) (bigEndian_length 3 0) h

section InPlace

variable {cs : TlsCipherSuite} {P : Primitives cs} {key : GenericArray cs.keyLen}
  {nonce : GenericArray cs.ivLen} {aad : Bytes} {b : CryptoBuffer}

theorem wrapWithPos_wf (buf : Bytes) : (wrapWithPos buf buf.length).WF := by
  simp [WF, wrapWithPos]

theorem wrapWithPos_asSlice (buf : Bytes) : (wrapWithPos buf buf.length).asSlice = buf := by
  simp [asSlice, wrapWithPos]

/-- With room for the tag, sealing in place writes the whole ciphertext over the window. -/
theorem encryptInPlace_of_some {ciphertext : Bytes} (hb : b.WF) (hspace : cs.tagSize ≤ b.space)
    (h : P.aeadSeal key nonce aad b.asSlice = some ciphertext) :
    encryptInPlace P key nonce aad b =
      .ok () { b with buf := splice b.buf b.offset ciphertext, len := b.len + cs.tagSize } := by
  have hlen := P.aeadSeal_length h
  rw [asSlice_length hb] at hlen
  simp only [WF] at hb
  simp only [space, capacity] at hspace
  have htake : (ciphertext.take b.len).length = b.len := by simp; omega
  have hdrop : (ciphertext.drop b.len).length = cs.tagSize := by simp; omega
  have hbuf : (splice b.buf b.offset (ciphertext.take b.len)).length = b.buf.length :=
    splice_length (by omega)
  simp only [encryptInPlace, get_bind_apply, h, set_bind_apply, extendFromSlice]
  rw [if_neg (by simp only [space, capacity, hbuf]; omega)]
  have hjoin := @splice_splice _ b.buf b.offset (ciphertext.take b.len) (ciphertext.drop b.len)
    (by omega)
  rw [htake, List.take_append_drop] at hjoin
  simp only [hjoin, hdrop]

theorem encryptInPlace_of_none (h : P.aeadSeal key nonce aad b.asSlice = none) :
    encryptInPlace P key nonce aad b = .error .cryptoError b := by
  simp only [encryptInPlace, get_bind_apply, h, throw_apply]

/-- Opening in place succeeds exactly when the AEAD opens the window. -/
theorem decryptInPlace_eq (hb : b.WF) :
    decryptInPlace P key nonce aad b =
      match P.aeadOpen key nonce aad b.asSlice with
      | none => .error .cryptoError b
      | some plaintext =>
          .ok () { b with buf := splice b.buf b.offset plaintext, len := plaintext.length } := by
  simp only [decryptInPlace, get_bind_apply]
  cases h : P.aeadOpen key nonce aad b.asSlice with
  | none => split <;> rfl
  | some plaintext =>
      have hlen := P.aeadOpen_length h
      rw [asSlice_length hb] at hlen
      simp only [WF] at hb
      have hbuf : (splice b.buf b.offset plaintext).length = b.buf.length :=
        splice_length (by omega)
      rw [if_neg (by omega)]
      simp only [set_apply, truncate]
      rw [if_pos (by simp only [capacity, hbuf]; omega)]
      simp only [hlen, Nat.add_sub_cancel]

end InPlace

end CryptoBuffer

end GatoPskTls
