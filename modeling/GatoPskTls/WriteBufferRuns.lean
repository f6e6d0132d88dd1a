import GatoPskTls.FailedWrite

/-!
# The room in a write buffer

Any sequence of calls on the buffer of a connection. The overhead kept free at its end covers
the header, the content type and the tag of a record, as long as a record is only started where
the header itself does not eat into the overhead.
-/
namespace GatoPskTls

open Stateful BigEndian Splice

variable {cs : TlsCipherSuite}

namespace WriteBuffer

inductive Call (cs : TlsCipherSuite)
  | startRecord (header : ClientRecordHeader)
  | append (buf : Bytes)
  | closeRecord (s : KeyScheduleState cs)
  | isFull
  | space

variable (P : Primitives cs)

/-- The buffer behind a call. -/
def Call.next : Call cs → WriteBuffer → WriteBuffer
  | .startRecord header, w => after (WriteBuffer.startRecord header w)
  | .append buf, w => after (WriteBuffer.append buf w)
  | .closeRecord s, w => after (WriteBuffer.closeRecord P s w)
  | .isFull, w => w
  | .space, w => w

/-- A record is started when none is open, and closed when one is. -/
def Call.Proper : Call cs → WriteBuffer → Prop
  | .startRecord _, w => w.currentHeader = none
  | .closeRecord _, w => w.currentHeader.isSome
  | _, _ => True

/-- What holds between calls: an open record lies between the header and the overhead, and the
space can be asked for. -/
structure Bounded (w : WriteBuffer) : Prop where
  opened : w.currentHeader.isSome →
    HEADER_SIZE ≤ w.pos ∧ w.pos ≤ w.buffer.length - TLS_RECORD_OVERHEAD
  space : w.space = .ok (w.buffer.length - TLS_RECORD_OVERHEAD - w.pos)

/-- What a call does. A record is closed with room for its content type and the tag, so only the
AEAD can refuse. -/
def Call.Serves : Call cs → WriteBuffer → Prop
  | .startRecord header, w => outcome (WriteBuffer.startRecord header w) = .ok ()
  | .append buf, w =>
      let n := min buf.length (w.buffer.length - TLS_RECORD_OVERHEAD - w.pos)
      ∃ w', WriteBuffer.append buf w = .ok n w' ∧
        w'.buffer.take w'.pos = w.buffer.take w.pos ++ buf.take n
  | .closeRecord s, w => w.pos + 1 + cs.tagSize ≤ w.buffer.length ∧
      ((∃ out, outcome (WriteBuffer.closeRecord P s w) = .ok out) ∨
        outcome (WriteBuffer.closeRecord P s w) = .error (.err .invalidApplicationData) ∧
          ∃ header, w.currentHeader = some header ∧
            sealedRecord P s (w.plaintext header) = none)
  | .isFull, w => w.isFull = .ok (w.pos == w.buffer.length - TLS_RECORD_OVERHEAD)
  | .space, w => w.space = .ok (w.buffer.length - TLS_RECORD_OVERHEAD - w.pos)

/-- Along a sequence of proper calls, each serves and the bounds hold throughout. -/
def Conforms : List (Call cs) → WriteBuffer → Prop
  | [], w => w.Bounded
  | c :: calls, w => w.Bounded ∧ (c.Proper w → c.Serves P w ∧ Conforms calls (c.next P w))

/-- A record is started where the header ends in front of the overhead. -/
def Call.HasRoom : Call cs → WriteBuffer → Prop
  | .startRecord _, w => w.pos + HEADER_SIZE + TLS_RECORD_OVERHEAD ≤ w.buffer.length
  | _, _ => True

instance (c : Call cs) (w : WriteBuffer) : Decidable (c.HasRoom w) :=
  match c with
  | .startRecord _ => inferInstanceAs (Decidable (_ ≤ _))
  | .append _ | .closeRecord _ | .isFull | .space => .isTrue trivial

def StartsWithRoom : List (Call cs) → WriteBuffer → Prop
  | [], _ => True
  | c :: calls, w => c.Proper w → c.HasRoom w ∧ StartsWithRoom calls (c.next P w)

/-- The position never enters the overhead. -/
structure Clear (w : WriteBuffer) : Prop where
  pos_le : w.pos + TLS_RECORD_OVERHEAD ≤ w.buffer.length
  opened : w.currentHeader.isSome → HEADER_SIZE ≤ w.pos

variable {P} {w : WriteBuffer}

theorem Clear.maxBlockSize (h : w.Clear) :
    w.maxBlockSize = .ok (w.buffer.length - TLS_RECORD_OVERHEAD) :=
  if_pos (Nat.le_trans (Nat.le_add_left _ _) h.pos_le)

theorem Clear.bounded (h : w.Clear) : w.Bounded := by
  have hpos : w.pos ≤ w.buffer.length - TLS_RECORD_OVERHEAD := Nat.le_sub_of_add_le h.pos_le
  refine ⟨fun hopen => ⟨h.opened hopen, hpos⟩, ?_⟩
  rw [WriteBuffer.space, h.maxBlockSize, ok_bind, checkedSub, if_pos hpos]

theorem Clear.isFull (h : w.Clear) :
    w.isFull = .ok (w.pos == w.buffer.length - TLS_RECORD_OVERHEAD) := by
  rw [WriteBuffer.isFull, h.maxBlockSize, ok_bind]
  rfl

theorem Clear.append (h : w.Clear) (buf : Bytes) :
    (Call.append buf : Call cs).Serves P w ∧ ((Call.append buf : Call cs).next P w).Clear := by
  have hclear := h.pos_le
  simp only [Call.Serves, Call.next]
  generalize hn : min buf.length (w.buffer.length - TLS_RECORD_OVERHEAD - w.pos) = n
  have htake : (buf.take n).length = n := by
    rw [List.length_take]
    omega
  have happend : WriteBuffer.append buf w =
      .ok n { w with buffer := splice w.buffer w.pos (buf.take n), pos := w.pos + n } := by
    simp only [WriteBuffer.append, get_bind_apply, h.bounded.space, fromResult_ok_bind,
      set_bind_apply, pure_apply, hn]
  have hlen : (splice w.buffer w.pos (buf.take n)).length = w.buffer.length :=
    splice_length (by rw [htake]; omega)
  refine ⟨⟨_, happend, ?_⟩, ?_⟩
  · have hend := @take_splice_end _ w.buffer w.pos (buf.take n) (by omega)
    rwa [htake] at hend
  · rw [happend, after_ok]
    refine ⟨?_, fun hopen => Nat.le_add_right_of_le (h.opened hopen)⟩
    simp only [hlen]
    omega

theorem Clear.startRecord (h : w.Clear) {header : ClientRecordHeader}
    (hproper : (Call.startRecord header : Call cs).Proper w) :
    WriteBuffer.startRecord header w =
      .ok () ⟨splice w.buffer w.pos (header.bytes ++ [0, 0]), w.pos + 5, some header⟩ ∧
      (splice w.buffer w.pos (header.bytes ++ [0, 0])).length = w.buffer.length := by
  have hroom : w.pos + HEADER_SIZE ≤ w.buffer.length :=
    Nat.le_trans (Nat.add_le_add_left (by decide) _) h.pos_le
  refine ⟨startRecord_of_room hproper hroom, splice_length ?_⟩
  rw [List.length_append, header.bytes_length]
  exact hroom

theorem Clear.closeRecord (h : w.Clear) {s : KeyScheduleState cs}
    (hproper : (Call.closeRecord s).Proper w) :
    (Call.closeRecord s).Serves P w ∧ ((Call.closeRecord s).next P w).Clear := by
  obtain ⟨header, hheader⟩ := Option.isSome_iff_exists.mp hproper
  have hclear := h.pos_le
  have hfive := h.opened hproper
  have hroom : w.pos + 1 + cs.tagSize ≤ w.buffer.length := by
    simp only [TlsCipherSuite.tagSize, TLS_RECORD_OVERHEAD] at hclear ⊢
    omega
  have hpos : w.pos ≤ w.buffer.length := by omega
  simp only [Call.Serves, Call.next]
  by_cases hseal : header.isEncrypted → Sealable P s w header
  · obtain ⟨out, buffer, hclose, hlen⟩ := closeRecord_of_sealable hheader hfive hpos hseal
    rw [hclose]
    refine ⟨⟨hroom, .inl ⟨out, rfl⟩⟩, ?_, ?_⟩
    · rw [after_ok, hlen]
      simp only
      omega
    · intro hopen
      cases hopen
  · obtain ⟨henc, hrefused⟩ := Classical.not_imp.mp hseal
    have hnone : sealedRecord P s (w.plaintext header) = none :=
      Option.not_isSome_iff_eq_none.mp fun hsome => hrefused ⟨hroom, hsome⟩
    obtain ⟨buffer, hclose, hlen⟩ := closeRecord_of_refused hfive henc hheader hroom hnone
    rw [hclose]
    refine ⟨⟨hroom, .inr ⟨rfl, header, hheader, hnone⟩⟩, ?_, ?_⟩
    · rw [after_error, hlen]
      exact hclear
    · intro hopen
      cases hopen

/-- A proper call with room serves, and keeps the overhead clear. -/
theorem Clear.step (h : w.Clear) {c : Call cs} (hproper : c.Proper w) (hroom : c.HasRoom w) :
    c.Serves P w ∧ (c.next P w).Clear := by
  cases c with
  | startRecord header =>
      obtain ⟨hstart, hlen⟩ := h.startRecord hproper
      simp only [Call.Serves, Call.next, hstart]
      refine ⟨rfl, ?_, fun _ => Nat.le_add_left _ _⟩
      rw [after_ok, hlen]
      exact hroom
  | append buf => exact h.append buf
  | closeRecord s => exact h.closeRecord hproper
  | isFull => exact ⟨h.isFull, h⟩
  | space => exact ⟨h.bounded.space, h⟩

/-- A record started without room reaches into the overhead. -/
theorem Clear.hasRoom (h : w.Clear) {c : Call cs} (hproper : c.Proper w)
    (hbounded : (c.next P w).Bounded) : c.HasRoom w := by
  cases c with
  | startRecord header =>
      obtain ⟨hstart, hlen⟩ := h.startRecord hproper
      rw [Call.next, hstart, after_ok] at hbounded
      have hpos := (hbounded.opened rfl).2
      have hclear := h.pos_le
      simp only [hlen] at hpos
      simp only [Call.HasRoom, HEADER_SIZE]
      omega
  | _ => trivial

theorem Conforms.bounded {calls : List (Call cs)} (h : Conforms P calls w) : w.Bounded := by
  cases calls with
  | nil => exact h
  | cons c calls => exact h.1

theorem Clear.conforms_iff {calls : List (Call cs)} (h : w.Clear) :
    Conforms P calls w ↔ StartsWithRoom P calls w := by
  induction calls generalizing w with
  | nil => exact iff_of_true h.bounded trivial
  | cons c calls ih =>
      constructor
      · rintro ⟨-, hcall⟩ hproper
        obtain ⟨-, hrest⟩ := hcall hproper
        have hroom := h.hasRoom hproper hrest.bounded
        exact ⟨hroom, (ih (h.step hproper hroom).2).mp hrest⟩
      · intro hstarts
        refine ⟨h.bounded, ?_⟩
        intro hproper
        obtain ⟨hroom, hrest⟩ := hstarts hproper
        obtain ⟨hserves, hclear⟩ := h.step hproper hroom
        exact ⟨hserves, (ih hclear).mpr hrest⟩

theorem clear_new {buffer : Bytes} (h : WriteBuffer.new buffer = .ok w) : w.Clear := by
  rw [WriteBuffer.new] at h
  split at h
  next hlen =>
    cases h
    refine ⟨?_, fun hopen => by cases hopen⟩
    simp only
    omega
  next => cases h

/-- The bounds hold along a sequence of calls exactly if every record is started with room for
its header in front of the overhead. -/
theorem conforms_iff_startsWithRoom {buffer : Bytes} (hnew : WriteBuffer.new buffer = .ok w)
    (P : Primitives cs) (calls : List (Call cs)) :
    Conforms P calls w ↔ StartsWithRoom P calls w :=
  (clear_new hnew).conforms_iff

/-- A record in the smallest buffer starts behind its own end, and asking for the space
panics. -/
theorem smallest_buffer_overruns :
    let P := Primitives.checksumming .aes128GcmSha256
    let w : WriteBuffer := ⟨List.replicate 129 0, 0, none⟩
    let started := after (startRecord .applicationData w)
    WriteBuffer.new w.buffer = .ok w ∧ started.pos = 5 ∧
      started.buffer.length - TLS_RECORD_OVERHEAD = 1 ∧ started.space = .error .panic ∧
      outcome (append [1] started) = .error .panic ∧
      ¬Conforms P [.startRecord .applicationData] w := by
  intro P w started
  have hpos : started.pos = 5 := by decide +kernel
  have hroom : started.buffer.length - TLS_RECORD_OVERHEAD = 1 := by decide +kernel
  have hopen : started.currentHeader.isSome := by decide +kernel
  refine ⟨by decide +kernel, hpos, hroom, by decide +kernel, by decide +kernel, ?_⟩
  rintro ⟨-, hcall⟩
  have hbounds : started.pos ≤ started.buffer.length - TLS_RECORD_OVERHEAD :=
    ((hcall rfl).2.opened hopen).2
  omega

/-- Two records in a buffer of 140 bytes. -/
theorem conforms_two_records :
    let P := Primitives.checksumming .aes128GcmSha256
    Conforms P [.startRecord .applicationData, .append [1, 2, 3], .isFull, .closeRecord .new,
      .startRecord (.alert true), .space] ⟨List.replicate 140 0, 0, none⟩ := by
  intro P
  refine (conforms_iff_startsWithRoom (show new (List.replicate 140 0) = _ by decide +kernel) P _).mpr ?_
  refine fun _ => ⟨by decide +kernel, fun _ => ⟨trivial, fun _ => ⟨trivial, fun _ => ⟨trivial,
    fun _ => ⟨?_, fun _ => ⟨trivial, trivial⟩⟩⟩⟩⟩⟩
  decide +kernel

end WriteBuffer

end GatoPskTls
