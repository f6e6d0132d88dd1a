import GatoPskTls.Lib.Simulation
import GatoPskTls.WriteBufferSpec

/-!
# A crypto buffer as a list of bytes

A buffer stands for the bytes written up to the end of its window, with the place where the window
starts. Every call on the buffer is set beside what it does to that list. A call made inside
`with_uN_length` may be followed by any other one, so what a closure does is a tree: each answer
picks the next call.
-/
namespace GatoPskTls

open Stateful BigEndian Splice

/-- The bytes up to the end of a window that starts at `base`. -/
@[ext] structure ByteList where
  written : Bytes
  base : Nat
  capacity : Nat
  base_le : base ≤ written.length
  fits : written.length ≤ capacity

namespace ByteList

abbrev Answer := EStateM.Result TlsError ByteList Unit

def slice (l : ByteList) : Bytes := l.written.drop l.base

/-- Append the bytes, or fail and leave the list alone. -/
def put (w : Bytes) : EStateM TlsError ByteList Unit := fun l =>
  if h : l.written.length + w.length ≤ l.capacity then
    .ok () ⟨l.written ++ w, l.base, l.capacity,
      List.length_append ▸ Nat.le_add_right_of_le l.base_le, List.length_append ▸ h⟩
  else .error .insufficientSpace l

/-- Keep the first `n` bytes of the slice. -/
def truncate (n : Nat) (l : ByteList) : ByteList where
  written := l.written.take (l.base + n)
  base := l.base
  capacity := l.capacity
  base_le := by
    rw [List.length_take]
    exact Nat.le_min.mpr ⟨Nat.le_add_right _ _, l.base_le⟩
  fits := Nat.le_trans (List.length_take_le' _ _) l.fits

/-- Start the slice elsewhere. -/
def moveTo (offset : Nat) (l : ByteList) (h : offset ≤ l.written.length) : ByteList :=
  { l with base := offset, base_le := h }

/-- Append the length of what `op` appends, followed by it. There is no answer where `op` has taken
bytes away that it found, or where the length does not fit. -/
def withLength (w : Nat) (op : ByteList → Option Answer) (l : ByteList) : Option Answer :=
  match put (List.replicate w 0) l with
  | .error e l => some (.error e l)
  | .ok _ found => do
      match ← op found with
      | .error e left => some (.error e left)
      | .ok _ left =>
          let content := left.written.drop found.written.length
          if found.written <+: left.written ∧ content.length < 256 ^ w then
            some (put (sized w content) l)
          else none

theorem slice_length (l : ByteList) : l.slice.length = l.written.length - l.base :=
  List.length_drop

theorem put_written {w : Bytes} {l l' : ByteList} (h : put w l = .ok () l') :
    l'.written = l.written ++ w := by
  rw [put] at h
  split at h
  · cases h
    rfl
  · cases h

theorem truncate_written (n : Nat) (l : ByteList) :
    (l.truncate n).written = l.written.take (l.base + n) := rfl

end ByteList

namespace CryptoBuffer

abbrev Answer := EStateM.Result TlsError CryptoBuffer Unit

inductive Call
  | push (byte : UInt8)
  | pushU16 (num : UInt16)
  | pushU24 (num : UInt32)
  | pushU32 (num : UInt32)
  | extendFromSlice (other : Bytes)
  | truncate (len : Nat)

inductive Width
  | u8
  | u16
  | u24

/-- What is called on a borrowed buffer: simple calls, and calls that take such a body. -/
inductive Body
  | finish (result : Except TlsError Unit)
  | call (c : Call) (next : Except TlsError Unit → Body)
  | withLength (w : Width) (op : Body) (next : Except TlsError Unit → Body)

/-- The calls that give the buffer up for one with another window. -/
inductive Move
  | offset (offset : Nat)
  | forward
  | rewind

/-- One step of a caller that owns the buffer. -/
inductive Step
  | calls (body : Body)
  | move (m : Move)

namespace Width

def bytes : Width → Nat
  | u8 => 1
  | u16 => 2
  | u24 => 3

def placeholder : Width → M Unit
  | u8 => push 0
  | u16 => pushU16 0
  | u24 => pushU24 0

end Width

/-- `with_u8_length`, `with_u16_length` and `with_u24_length` for a closure that does anything.
`self.len() - start` panics where the closure has left the buffer shorter than it was. -/
def withLengthOf (w : Width) (op : CryptoBuffer → Option Answer) (b : CryptoBuffer) :
    Option Answer :=
  match w.placeholder b with
  | .error e b => some (.error e b)
  | .ok _ found => do
      match ← op found with
      | .error e left => some (.error e left)
      | .ok _ left =>
          if found.len ≤ left.len then
            some (setBytes b.len (bigEndian w.bytes (left.len - found.len)) left)
          else none

def Call.run : Call → M Unit
  | .push byte => CryptoBuffer.push byte
  | .pushU16 num => CryptoBuffer.pushU16 num.toNat
  | .pushU24 num => CryptoBuffer.pushU24 num.toNat
  | .pushU32 num => CryptoBuffer.pushU32 num.toNat
  | .extendFromSlice other => CryptoBuffer.extendFromSlice other
  | .truncate len => modify (CryptoBuffer.truncate len)

def Call.onList : Call → EStateM TlsError ByteList Unit
  | .push byte => ByteList.put [byte]
  | .pushU16 num => ByteList.put (bigEndian 2 num.toNat)
  | .pushU24 num => ByteList.put (bigEndian 3 num.toNat)
  | .pushU32 num => ByteList.put (bigEndian 4 num.toNat)
  | .extendFromSlice other => ByteList.put other
  | .truncate len => modify (ByteList.truncate len)

/-- The body on the buffer; without an answer where it panics. -/
def Body.run : Body → CryptoBuffer → Option Answer
  | .finish result, b => some (fromResult result b)
  | .call c next, b => (next (outcome (c.run b))).run (after (c.run b))
  | .withLength w op next, b => do
      let r ← withLengthOf w op.run b
      (next (outcome r)).run (after r)

/-- The body on the list. -/
def Body.onList : Body → ByteList → Option ByteList.Answer
  | .finish result, l => some (fromResult result l)
  | .call c next, l => (next (outcome (c.onList l))).onList (after (c.onList l))
  | .withLength w op next, l => do
      let r ← l.withLength w.bytes op.onList
      (next (outcome r)).onList (after r)

/-- Where a call moves the window that has `len` bytes. -/
def Move.target : Move → Nat → Nat
  | .offset k, _ => k
  | .forward, len => len
  | .rewind, _ => 0

/-- A closure that leaves the buffer no shorter is run as `withLength` runs it. -/
theorem withLengthOf_eq_withLength {w : Width} {op : M Unit} {b : CryptoBuffer}
    (h : ∀ b b', op b = .ok () b' → b.len ≤ b'.len) :
    withLengthOf w (fun b => some (op b)) b = some (withLength w.bytes w.placeholder op b) := by
  simp only [withLengthOf, withLength, get_bind_apply]
  cases hplaceholder : w.placeholder b with
  | error e found => rw [bind_of_error hplaceholder]
  | ok _ found =>
      rw [bind_of_ok hplaceholder, get_bind_apply]
      cases hop : op found with
      | error e left =>
          rw [bind_of_error hop]
          simp only [Option.bind_eq_bind, Option.bind_some, hop]
      | ok _ left =>
          rw [bind_of_ok hop, get_bind_apply]
          simp only [Option.bind_eq_bind, Option.bind_some, hop, if_pos (h found left hop)]

/-- The buffer holds the list, up to the end of its window. -/
structure Stands (b : CryptoBuffer) (l : ByteList) : Prop where
  base : b.offset = l.base
  capacity : b.buf.length = l.capacity
  ends : b.offset + b.len = l.written.length
  written : b.buf.take (b.offset + b.len) = l.written

/-- What a caller sees of it: the window lies inside the buffer and shows the slice. -/
structure Shows (b : CryptoBuffer) (l : ByteList) : Prop where
  wf : b.WF
  slice : b.asSlice = l.slice

/-- The list a buffer stands for that is wrapped with its first `pos` bytes taken as written. -/
def wrapped (buf : Bytes) (pos : Nat) : ByteList :=
  ⟨buf.take pos, 0, buf.length, Nat.zero_le _, List.length_take_le' _ _⟩

section Stands

variable {b : CryptoBuffer} {l : ByteList}

theorem Stands.wf (h : Stands b l) : b.WF := by
  rw [WF, h.ends, h.capacity]
  exact l.fits

theorem Stands.shows (h : Stands b l) : Shows b l := by
  refine ⟨h.wf, ?_⟩
  rw [asSlice, ByteList.slice, ← h.base, ← h.written, List.drop_take, Nat.add_sub_cancel_left]

theorem Stands.len_eq (h : Stands b l) : b.len = l.slice.length := by
  rw [ByteList.slice_length, ← h.ends, ← h.base, Nat.add_sub_cancel_left]

theorem Stands.space_eq (h : Stands b l) : b.space = l.capacity - l.written.length := by
  rw [space, CryptoBuffer.capacity, h.capacity, h.ends]

theorem stands_wrapWithPos {buf : Bytes} {pos : Nat} (h : pos ≤ buf.length) :
    Stands (wrapWithPos buf pos) (wrapped buf pos) := by
  refine ⟨rfl, rfl, ?_, ?_⟩
  · simp [wrapWithPos, wrapped, h]
  · simp [wrapWithPos, wrapped]

/-- A write behind the window is an append. -/
theorem Stands.extendFromSlice (h : Stands b l) (w : Bytes) :
    Alike Stands (extendFromSlice w b) (ByteList.put w l) := by
  have hfits := l.fits
  rw [CryptoBuffer.extendFromSlice, ByteList.put, h.space_eq]
  by_cases hroom : l.written.length + w.length ≤ l.capacity
  · rw [dif_pos hroom, if_neg (by omega)]
    refine ⟨rfl, h.base, ?_, ?_, ?_⟩
    · rw [splice_length (by rw [h.ends, h.capacity]; exact hroom)]
      exact h.capacity
    · simp only [List.length_append, ← h.ends, Nat.add_assoc]
    · have htake := @take_splice_end _ b.buf (b.offset + b.len) w h.wf
      rw [h.written, Nat.add_assoc] at htake
      exact htake
  · rw [dif_neg hroom, if_pos (by omega)]
    exact ⟨rfl, h⟩

theorem push_eq (hb : b.WF) (byte : UInt8) : push byte b = CryptoBuffer.extendFromSlice [byte] b := by
  simp only [WF] at hb
  rw [push, CryptoBuffer.extendFromSlice, List.length_singleton]
  by_cases hroom : b.space > 0
  · have hinside : b.offset + b.len < b.buf.length := by
      simp only [space, capacity] at hroom
      omega
    rw [if_pos hroom, if_neg (by omega), set_eq_splice _ hinside]
  · rw [if_neg hroom, if_pos (by omega)]

/-- A window is cut as the list is, unless it grows. -/
theorem Stands.truncate (h : Stands b l) {n : Nat}
    (hn : n ≤ l.slice.length ∨ l.capacity - l.base < n) :
    Stands (b.truncate n) (l.truncate n) := by
  have hbase := l.base_le
  have hfits := l.fits
  have hslice := l.slice_length
  have hends := h.ends
  have hoffset := h.base
  rcases hn with hshort | hlong
  · have hcode : b.truncate n = { b with len := n } := truncate_eq h.wf (by rw [h.len_eq]; exact hshort)
    have hcut : (l.truncate n).written = b.buf.take (b.offset + n) := by
      rw [ByteList.truncate_written, ← h.written, List.take_take, h.base, Nat.min_eq_left (by omega)]
    rw [hcode]
    refine ⟨h.base, h.capacity, ?_, hcut.symm⟩
    rw [hcut, List.length_take, h.capacity]
    simp only
    omega
  · have hcode : b.truncate n = b := by
      rw [CryptoBuffer.truncate, CryptoBuffer.capacity, h.capacity, h.base, if_neg (by omega)]
    have hcut : (l.truncate n).written = l.written := by
      rw [ByteList.truncate_written, List.take_of_length_le (by omega)]
    rw [hcode]
    exact ⟨h.base, h.capacity, h.ends.trans (congrArg List.length hcut.symm), h.written.trans hcut.symm⟩

/-- A window that grows shows more than the list has. -/
theorem Stands.truncate_shows (h : Stands b l) {n : Nat}
    (hshows : Shows (b.truncate n) (l.truncate n)) :
    n ≤ l.slice.length ∨ l.capacity - l.base < n := by
  by_contra hn
  have hgrows : b.truncate n = { b with len := n } := by
    rw [CryptoBuffer.truncate, CryptoBuffer.capacity, h.capacity, h.base, if_pos (by omega)]
  have hlen := asSlice_length hshows.wf
  rw [hshows.slice, hgrows, ByteList.slice_length, ByteList.truncate_written, List.length_take] at hlen
  have hslice := l.slice_length
  change min (l.base + n) l.written.length - l.base = n at hlen
  omega

/-- Another start with the same end. -/
theorem Stands.offsetTo (h : Stands b l) {offset : Nat} (hoffset : offset ≤ l.written.length) :
    ∃ b', CryptoBuffer.offsetTo offset b = .ok () b' ∧ Stands b' (l.moveTo offset hoffset) := by
  have hends := h.ends
  have hend : offset + (b.len + b.offset - offset) = b.offset + b.len := by omega
  refine ⟨b.moveTo offset, offsetTo_eq (by omega), rfl, h.capacity, ?_, ?_⟩
  · rw [CryptoBuffer.moveTo, hend]
    exact h.ends
  · rw [CryptoBuffer.moveTo, hend]
    exact h.written

end Stands

/-- What keeps a call to the list: a truncation that does not let the window grow. -/
def Call.Within : Call → ByteList → Prop
  | .truncate len, l => len ≤ l.slice.length ∨ l.capacity - l.base < len
  | _, _ => True

theorem Call.alike {b : CryptoBuffer} {l : ByteList} (h : Stands b l) {c : Call} (hc : c.Within l) :
    Alike Stands (c.run b) (c.onList l) := by
  cases c with
  | push byte =>
      rw [Call.run, push_eq h.wf]
      exact h.extendFromSlice [byte]
  | pushU16 num => exact h.extendFromSlice _
  | pushU24 num => exact h.extendFromSlice _
  | pushU32 num => exact h.extendFromSlice _
  | extendFromSlice other => exact h.extendFromSlice other
  | truncate len => exact ⟨rfl, h.truncate hc⟩

theorem Call.within {b : CryptoBuffer} {l : ByteList} (h : Stands b l) {c : Call}
    (hc : Alike Shows (c.run b) (c.onList l)) : c.Within l := by
  cases c with
  | truncate len => exact h.truncate_shows hc.2
  | _ => trivial

theorem Width.alike_placeholder {b : CryptoBuffer} {l : ByteList} (h : Stands b l) (w : Width) :
    Alike Stands (w.placeholder b) (ByteList.put (List.replicate w.bytes 0) l) := by
  cases w with
  | u8 =>
      rw [Width.placeholder, push_eq h.wf]
      exact h.extendFromSlice [0]
  | u16 => exact h.extendFromSlice [0, 0]
  | u24 => exact h.extendFromSlice [0, 0, 0]

/-- The same window start in a buffer of the same size. -/
structure SameFrame (l l' : ByteList) : Prop where
  base : l'.base = l.base
  capacity : l'.capacity = l.capacity

theorem SameFrame.trans {l l' l'' : ByteList} (h : SameFrame l l') (h' : SameFrame l' l'') :
    SameFrame l l'' :=
  ⟨h'.base.trans h.base, h'.capacity.trans h.capacity⟩

theorem sameFrame_put (w : Bytes) (l : ByteList) : SameFrame l (after (ByteList.put w l)) := by
  rw [ByteList.put]
  split
  · exact ⟨rfl, rfl⟩
  · exact ⟨rfl, rfl⟩

theorem Call.sameFrame (c : Call) (l : ByteList) : SameFrame l (after (c.onList l)) := by
  cases c with
  | truncate len => exact ⟨rfl, rfl⟩
  | _ => exact sameFrame_put _ l

theorem sameFrame_withLength {w : Nat} {op : ByteList → Option ByteList.Answer}
    (hop : ∀ l r, op l = some r → SameFrame l (after r)) {l : ByteList} {r : ByteList.Answer}
    (h : l.withLength w op = some r) : SameFrame l (after r) := by
  have hput := sameFrame_put (List.replicate w 0) l
  rw [ByteList.withLength] at h
  cases hblank : ByteList.put (List.replicate w 0) l with
  | error e found =>
      simp only [hblank, Option.some.injEq] at h
      subst h
      rwa [hblank] at hput
  | ok _ found =>
      simp only [hblank, Option.bind_eq_bind, Option.bind_eq_some_iff] at h
      rw [hblank] at hput
      obtain ⟨answer, hanswer, h⟩ := h
      cases answer with
      | error e left =>
          cases h
          exact hput.trans (hop found _ hanswer)
      | ok _ left =>
          dsimp only at h
          split at h
          · cases h
            exact sameFrame_put _ l
          · cases h

theorem Body.sameFrame {body : Body} {l : ByteList} {r : ByteList.Answer}
    (h : body.onList l = some r) : SameFrame l (after r) := by
  induction body generalizing l r with
  | finish result =>
      cases h
      cases result with
      | ok _ => exact ⟨rfl, rfl⟩
      | error e => exact ⟨rfl, rfl⟩
  | call c next ih => exact (c.sameFrame l).trans (ih _ h)
  | withLength w op next ihop ih =>
      simp only [Body.onList, Option.bind_eq_bind, Option.bind_eq_some_iff] at h
      obtain ⟨answer, hanswer, h⟩ := h
      exact (sameFrame_withLength (fun _ _ => ihop) hanswer).trans (ih _ h)

/-- The length is written over the placeholder. -/
theorem alike_setBytes {b left : CryptoBuffer} {l l' : ByteList} {w : Nat} {blank content : Bytes}
    (h : Stands b l) (hleft : Stands left l') (hframe : SameFrame l l') (hblank : blank.length = w)
    (hwritten : l'.written = l.written ++ blank ++ content) :
    Alike Stands (setBytes b.len (bigEndian w content.length) left)
      (ByteList.put (sized w content) l) := by
  have hlength : l'.written.length = l.written.length + w + content.length := by
    rw [hwritten, List.length_append, List.length_append, hblank]
  have hbig : (bigEndian w content.length).length = w := bigEndian_length w _
  have hsized : l.written.length + (sized w content).length ≤ l.capacity := by
    have hfits := l'.fits
    rw [hlength, hframe.capacity] at hfits
    rw [sized_length]
    omega
  have hoffset : left.offset = b.offset := by rw [hleft.base, hframe.base, h.base]
  have hends := h.ends
  have hlends := hleft.ends
  rw [setBytes_eq hleft.wf (by omega), ByteList.put, dif_pos hsized]
  have hpos : left.offset + b.len = l.written.length := by rw [hoffset, h.ends]
  have hinside : left.offset + b.len ≤ left.buf.length := by
    have hwf := hleft.wf
    simp only [WF] at hwf
    omega
  refine ⟨rfl, hoffset.trans h.base, ?_, ?_, ?_⟩
  · rw [splice_length (by have hwf := hleft.wf; simp only [WF] at hwf; omega), hleft.capacity,
      hframe.capacity]
  · simp only [List.length_append, sized_length]
    omega
  · simp only
    rw [take_splice_inside hinside (by omega), hleft.written, hwritten, hpos,
      splice_append (hbig.trans hblank.symm), sized, List.append_assoc]

/-- Where the closure is within the list, so is the call that takes it. -/
theorem alike_withLengthOf {b : CryptoBuffer} {l : ByteList} (h : Stands b l) {w : Width}
    {op : CryptoBuffer → Option Answer} {op' : ByteList → Option ByteList.Answer}
    (hframe : ∀ l r, op' l = some r → SameFrame l (after r))
    (hop : ∀ found found', ByteList.put (List.replicate w.bytes 0) l = .ok () found' →
      Stands found found' → ∃ r r', op found = some r ∧ op' found' = some r' ∧ Alike Stands r r')
    (hfit : ∀ found left, ByteList.put (List.replicate w.bytes 0) l = .ok () found →
      op' found = some (.ok () left) → found.written <+: left.written ∧
        (left.written.drop found.written.length).length < 256 ^ w.bytes) :
    ∃ r r', withLengthOf w op b = some r ∧ l.withLength w.bytes op' = some r' ∧
      Alike Stands r r' := by
  obtain ⟨⟨⟩, found, found', hb, hl, hfound⟩ | ⟨e, found, found', hb, hl, hfound⟩ :=
    (w.alike_placeholder h).cases
  · obtain ⟨r, r', hr, hr', halike⟩ := hop found found' hl hfound
    simp only [withLengthOf, ByteList.withLength, hb, hl, hr, hr', Option.bind_eq_bind,
      Option.bind_some]
    obtain ⟨⟨⟩, left, left', rfl, rfl, hleft⟩ | ⟨e, left, left', rfl, rfl, hleft⟩ := halike.cases
    · obtain ⟨hfront, hsize⟩ := hfit found' left' hl hr'
      obtain ⟨content, hcontent⟩ := id hfront
      have hrest : left'.written.drop found'.written.length = content := by
        rw [← hcontent, List.drop_left]
      have hsame : SameFrame found' left' := hframe found' _ hr'
      have hlen : left.len = found.len + content.length := by
        have hends := congrArg List.length hcontent
        have hbase : left.offset = found.offset := by rw [hleft.base, hsame.base, hfound.base]
        rw [List.length_append, ← hfound.ends, ← hleft.ends, hbase] at hends
        omega
      have hgrown : left.len - found.len = content.length := by omega
      refine ⟨_, _, if_pos (by omega), if_pos ⟨hfront, hsize⟩, ?_⟩
      have hput := sameFrame_put (List.replicate w.bytes 0) l
      rw [hl] at hput
      have hwritten : left'.written = l.written ++ List.replicate w.bytes 0 ++ content := by
        rw [← ByteList.put_written hl, hcontent]
      rw [hrest, hgrown]
      exact alike_setBytes h hleft (hput.trans hsame) List.length_replicate hwritten
    · exact ⟨_, _, rfl, rfl, rfl, hleft⟩
  · simp only [withLengthOf, ByteList.withLength, hb, hl]
    exact ⟨_, _, rfl, rfl, rfl, hfound⟩

/-- What keeps every call of a body to the list, nested ones included. A closure may take away only
what it has written, and what it leaves must have a length that fits. -/
def Body.Within : Body → ByteList → Prop
  | .finish _, _ => True
  | .call c next, l => c.Within l ∧ (next (outcome (c.onList l))).Within (after (c.onList l))
  | .withLength w op next, l =>
      (∀ found, ByteList.put (List.replicate w.bytes 0) l = .ok () found →
        op.Within found ∧ ∀ left, op.onList found = some (.ok () left) →
          found.written <+: left.written ∧
            (left.written.drop found.written.length).length < 256 ^ w.bytes) ∧
      ∀ r, l.withLength w.bytes op.onList = some r → (next (outcome r)).Within (after r)

/-- Every call of a body, nested ones included, answers as on the list and shows the list it
leaves. -/
def Body.Conforms : Body → CryptoBuffer → ByteList → Prop
  | .finish _, _, _ => True
  | .call c next, b, l => Alike Shows (c.run b) (c.onList l) ∧
      (next (outcome (c.run b))).Conforms (after (c.run b)) (after (c.onList l))
  | .withLength w op next, b, l =>
      (∀ found found', w.placeholder b = .ok () found →
        ByteList.put (List.replicate w.bytes 0) l = .ok () found' → op.Conforms found found') ∧
      ∃ r r', withLengthOf w op.run b = some r ∧ l.withLength w.bytes op.onList = some r' ∧
        Alike Shows r r' ∧ (next (outcome r)).Conforms (after r) (after r')

theorem Body.alike {body : Body} {b : CryptoBuffer} {l : ByteList} (h : Stands b l)
    (hbody : body.Within l) :
    ∃ r r', body.run b = some r ∧ body.onList l = some r' ∧ Alike Stands r r' := by
  induction body generalizing b l with
  | finish result =>
      refine ⟨_, _, rfl, rfl, ?_⟩
      cases result with
      | ok _ => exact ⟨rfl, h⟩
      | error e => exact ⟨rfl, h⟩
  | call c next ih =>
      obtain ⟨hc, hnext⟩ := hbody
      have halike := c.alike h hc
      rw [Body.run, Body.onList, halike.outcome_eq]
      exact ih _ halike.after hnext
  | withLength w op next ihop ih =>
      obtain ⟨hop, hnext⟩ := hbody
      obtain ⟨r, r', hr, hr', halike⟩ := alike_withLengthOf h (fun _ _ => Body.sameFrame)
        (fun found found' hput hfound => ihop hfound (hop found' hput).1)
        (fun found left hput => (hop found hput).2 left)
      simp only [Body.run, Body.onList, hr, hr', Option.bind_eq_bind, Option.bind_some,
        halike.outcome_eq]
      exact ih _ halike.after (hnext r' hr')

/-- The list has an answer only for a closure it can follow. -/
theorem fit_of_withLength {w : Nat} {op : ByteList → Option ByteList.Answer}
    {l found left : ByteList} {r : ByteList.Answer} (h : l.withLength w op = some r)
    (hput : ByteList.put (List.replicate w 0) l = .ok () found)
    (hop : op found = some (.ok () left)) :
    found.written <+: left.written ∧
      (left.written.drop found.written.length).length < 256 ^ w := by
  simp only [ByteList.withLength, hput, hop, Option.bind_eq_bind, Option.bind_some] at h
  split at h
  next hfit => exact hfit
  next => cases h

theorem Body.conforms_iff {body : Body} {b : CryptoBuffer} {l : ByteList} (h : Stands b l) :
    body.Conforms b l ↔ body.Within l := by
  induction body generalizing b l with
  | finish result => exact Iff.rfl
  | call c next ih =>
      constructor
      · rintro ⟨hshows, hnext⟩
        have hc := c.within h hshows
        have halike := c.alike h hc
        rw [halike.outcome_eq] at hnext
        exact ⟨hc, (ih _ halike.after).mp hnext⟩
      · rintro ⟨hc, hnext⟩
        have halike := c.alike h hc
        rw [Body.Conforms, halike.outcome_eq]
        exact ⟨halike.mono fun _ _ hst => hst.shows, (ih _ halike.after).mpr hnext⟩
  | withLength w op next ihop ih =>
      constructor
      · rintro ⟨hop, r, r', hr, hr', hshows, hnext⟩
        have hwithin : ∀ found, ByteList.put (List.replicate w.bytes 0) l = .ok () found →
            op.Within found ∧ ∀ left, op.onList found = some (.ok () left) →
              found.written <+: left.written ∧
                (left.written.drop found.written.length).length < 256 ^ w.bytes := by
          intro found' hput
          have hplaceholder := w.alike_placeholder h
          rw [hput] at hplaceholder
          obtain ⟨a, found, t, hb, ht, hfound⟩ | ⟨e, s, t, -, ht, -⟩ := hplaceholder.cases
          · cases ht
            exact ⟨(ihop hfound).mp (hop found found' hb hput),
              fun left => fit_of_withLength hr' hput⟩
          · cases ht
        obtain ⟨s, s', hs, hs', halike⟩ := alike_withLengthOf h (fun _ _ => Body.sameFrame)
          (fun found found' hput hfound => Body.alike hfound (hwithin found' hput).1)
          (fun found left hput => (hwithin found hput).2 left)
        refine ⟨hwithin, ?_⟩
        intro answer hanswer
        cases hr.symm.trans hs
        cases hs'.symm.trans hanswer
        cases hr'.symm.trans hanswer
        rw [halike.outcome_eq] at hnext
        exact (ih _ halike.after).mp hnext
      · rintro ⟨hop, hnext⟩
        obtain ⟨r, r', hr, hr', halike⟩ := alike_withLengthOf h (fun _ _ => Body.sameFrame)
          (fun found found' hput hfound => Body.alike hfound (hop found' hput).1)
          (fun found left hput => (hop found hput).2 left)
        refine ⟨?_, r, r', hr, hr', halike.mono fun _ _ hst => hst.shows, ?_⟩
        · intro found found' hb hput
          have hplaceholder := w.alike_placeholder h
          rw [hb, hput] at hplaceholder
          exact (ihop hplaceholder.2).mpr (hop found' hput).1
        · rw [halike.outcome_eq]
          exact (ih _ halike.after).mpr (hnext r' hr')

/-- What keeps a sequence of calls to the list. A call past the end ends what is looked at. -/
def Within : List Step → ByteList → Prop
  | [], _ => True
  | .calls body :: ops, l => body.Within l ∧
      ∀ r, body.onList l = some r → Within ops (after r)
  | .move m :: ops, l =>
      ∀ h : m.target l.slice.length ≤ l.written.length, Within ops (l.moveTo _ h)

/-- Every call of a sequence does to the buffer what it does to the list. -/
def Conforms : List Step → CryptoBuffer → ByteList → Prop
  | [], _, _ => True
  | .calls body :: ops, b, l => body.Conforms b l ∧
      ∃ r r', body.run b = some r ∧ body.onList l = some r' ∧ Alike Shows r r' ∧
        Conforms ops (after r) (after r')
  | .move m :: ops, b, l =>
      ∀ h : m.target l.slice.length ≤ l.written.length,
        ∃ b', offsetTo (m.target b.len) b = .ok () b' ∧ Shows b' (l.moveTo _ h) ∧
          Conforms ops b' (l.moveTo _ h)

theorem conforms_iff {ops : List Step} {b : CryptoBuffer} {l : ByteList} (h : Stands b l) :
    Conforms ops b l ↔ Within ops l := by
  induction ops generalizing b l with
  | nil => exact Iff.rfl
  | cons op ops ih =>
      cases op with
      | calls body =>
          rw [Conforms, Within, Body.conforms_iff h]
          refine and_congr_right ?_
          intro hbody
          obtain ⟨r, r', hr, hr', halike⟩ := Body.alike h hbody
          constructor
          · rintro ⟨s, s', hs, hs', -, hrest⟩ answer hanswer
            cases hr.symm.trans hs
            cases hr'.symm.trans hs'
            cases hr'.symm.trans hanswer
            exact (ih halike.after).mp hrest
          · intro hrest
            exact ⟨r, r', hr, hr', halike.mono fun _ _ hst => hst.shows,
              (ih halike.after).mpr (hrest r' hr')⟩
      | move m =>
          rw [Conforms, Within]
          refine forall_congr' ?_
          intro htarget
          obtain ⟨moved, hmoved, hstands⟩ := h.offsetTo htarget
          rw [h.len_eq]
          constructor
          · rintro ⟨b', hb', -, hrest⟩
            cases hmoved.symm.trans hb'
            exact (ih hstands).mp hrest
          · intro hrest
            exact ⟨moved, hmoved, hstands.shows, (ih hstands).mpr hrest⟩

/-- A buffer is a list of bytes exactly as long as no truncation lets its window grow, no closure
takes away what it has found, and every length fits its field. -/
theorem refines_list_iff (buf : Bytes) {pos : Nat} (hpos : pos ≤ buf.length) (ops : List Step) :
    Conforms ops (wrapWithPos buf pos) (wrapped buf pos) ↔ Within ops (wrapped buf pos) :=
  conforms_iff (stands_wrapWithPos hpos)

namespace Sample

def stale : Bytes := [7, 8, 9, 10]

/-- One byte is pushed, and three are kept. -/
def growing : List Step := [.calls (.call (.push 1) fun _ => .call (.truncate 3) .finish)]

/-- Truncating to three bytes a window of one shows two that were never written. -/
theorem truncate_exposes_stale :
    (after (push 1 (wrap stale))).asSlice = [1] ∧
      ((after (push 1 (wrap stale))).truncate 3).asSlice = [1, 8, 9] ∧
      ¬Conforms growing (wrap stale) (wrapped stale 0) := by
  refine ⟨rfl, rfl, ?_⟩
  rintro ⟨⟨-, ⟨-, hshows⟩, -⟩, -⟩
  have hslice := hshows.slice
  revert hslice
  decide

/-- A list of two entries with a length in front, of which the first is kept. -/
def shrinking : List Step :=
  [.calls (.withLength .u8 (.call (.pushU16 5) fun _ => .call (.push 9) fun _ =>
    .call (.truncate 3) .finish) .finish), .move .forward, .move .rewind]

theorem refines_shrinking :
    Conforms shrinking (wrapWithPos stale 0) (wrapped stale 0) := by
  refine (refines_list_iff stale (Nat.zero_le _) shrinking).mpr ⟨⟨?_, ?_⟩, ?_⟩
  · intro found hput
    cases hput
    refine ⟨⟨trivial, trivial, .inl (by decide), trivial⟩, ?_⟩
    intro left hleft
    cases hleft
    exact ⟨by decide, by decide⟩
  · intro r hr
    trivial
  · intro r hr h h'
    trivial

end Sample

end CryptoBuffer

end GatoPskTls
