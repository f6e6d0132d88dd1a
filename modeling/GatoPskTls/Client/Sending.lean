import GatoPskTls.Lib.Ends
import GatoPskTls.WriteBufferSpec
import GatoPskTls.Client.TlsConnection
import GatoPskTls.Client.Peer

/-!
# Sending

What the calls that write do to the transport, the write key schedule and the write buffer:
a record leaves the buffer sealed under the current count, and the count moves on when the
transport has taken it.
-/
namespace GatoPskTls.Client

open Stateful BigEndian

variable {cs : TlsCipherSuite} {P : Primitives cs}

theorem IoOutcome.result_of_ne_done {outcome : IoOutcome} (h : outcome ≠ .done) :
    ∃ e, outcome.result = .error e ∧ e ≠ .panic := by
  cases outcome with
  | done => exact absurd rfl h
  | failed taken kind => exact ⟨_, rfl, nofun⟩
  | abandoned taken => exact ⟨_, rfl, nofun⟩

namespace Outgoing

/-- The entry a `write_all` leaves in the log. -/
def entry (o : Outgoing cs) (s : KeyScheduleState cs) (record : Bytes) : Sent cs :=
  let outcome := o.plan.headD .done
  ⟨record, outcome.taken record.length, outcome == .done, s.key, KeyScheduleState.nonce s.counter s.iv⟩

/-- The transport after a `write_all`. -/
def wrote (o : Outgoing cs) (s : KeyScheduleState cs) (record : Bytes) : Outgoing cs :=
  ⟨o.plan.tail, o.entry s record :: o.sent⟩

theorem writeAll_eq (s : KeyScheduleState cs) (record : Bytes) (o : Outgoing cs) :
    writeAll s record o = fromResult (o.plan.headD .done).result (o.wrote s record) := by
  obtain ⟨plan, sent⟩ := o
  cases plan <;> rfl

theorem flush_eq (o : Outgoing cs) :
    flush o = fromResult (o.plan.headD .done).result { o with plan := o.plan.tail } := by
  obtain ⟨plan, sent⟩ := o
  cases plan <;> rfl

end Outgoing

namespace Channel

abbrev writeState (c : Channel cs) : KeyScheduleState cs := c.schedule.clientState.state

/-- The channel after a record was given to the transport. -/
def wrote (c : Channel cs) (record : Bytes) : Channel cs :=
  { c with outgoing := c.outgoing.wrote c.writeState record }

/-- The channel after a record was taken by the transport. -/
def counted (c : Channel cs) (record : Bytes) : Channel cs :=
  { c.wrote record with schedule.clientState.state.counter := c.writeState.counter + 1 }

theorem transmit_eq (slice : Bytes) (c : Channel cs) :
    transmit slice c =
      match (c.outgoing.plan.headD .done).result with
      | .error e => .error e (c.wrote slice)
      | .ok () =>
          if CanCount c.writeState then .ok () (c.counted slice) else .error .panic (c.wrote slice) := by
  have hwrite : onOutgoing (Outgoing.writeAll c.writeState slice) c =
      fromResult (c.outgoing.plan.headD .done).result (c.wrote slice) := by
    simp only [onOutgoing, onPart, Outgoing.writeAll_eq]
    cases (c.outgoing.plan.headD .done).result <;> rfl
  simp only [transmit, get_bind_apply]
  cases hresult : (c.outgoing.plan.headD .done).result with
  | error e =>
      rw [hresult] at hwrite
      exact bind_of_error hwrite
  | ok u =>
      rw [hresult] at hwrite
      rw [bind_of_ok hwrite]
      by_cases hcount : CanCount c.writeState
      · have hnext : KeyScheduleState.incrementCounter (c.wrote slice).writeState = _ :=
          (incrementCounter_eq c.writeState).trans (if_pos hcount)
        simp only [if_pos hcount]
        exact onPart_of_ok (onPart_of_ok hnext)
      · have hnext : KeyScheduleState.incrementCounter (c.wrote slice).writeState = _ :=
          (incrementCounter_eq c.writeState).trans (if_neg hcount)
        simp only [if_neg hcount]
        exact onPart_of_error (onPart_of_error hnext)

theorem flushTransport_eq (c : Channel cs) :
    flushTransport c = fromResult (c.outgoing.plan.headD .done).result
      { c with outgoing.plan := c.outgoing.plan.tail } := by
  simp only [flushTransport, onOutgoing, onPart, Outgoing.flush_eq]
  cases (c.outgoing.plan.headD .done).result <;> rfl

end Channel

namespace TlsConnection

variable {c : TlsConnection cs} {payload : Bytes}

/-- The connection with another write buffer. -/
abbrev withBuffer (c : TlsConnection cs) (buffer : WriteBuffer) : TlsConnection cs :=
  { c with channel.buffer := buffer }

/-- A record goes to the transport, which is flushed when the policy says so. -/
def send (record : Bytes) : M cs Unit := do
  let c ← get
  onChannel (Channel.transmit record)
  if c.flushPolicy.flushTransport then onChannel Channel.flushTransport

theorem flush_of_isEmpty (h : c.channel.buffer.isEmpty) : flush P c = .ok () c := by
  simp only [flush, get_bind_apply, h, Bool.not_true, Bool.false_eq_true, if_false, pure_apply]

theorem closeRecord_eq (c : TlsConnection cs) :
    onChannel (Channel.closeRecord P) c =
      onPart (·.channel.buffer) withBuffer (WriteBuffer.closeRecord P c.channel.writeState) c := by
  simp only [onChannel, onPart, Channel.closeRecord, get_bind_apply, Channel.onBuffer]
  cases WriteBuffer.closeRecord P c.channel.writeState c.channel.buffer <;> rfl

section Holding

variable (hw : c.channel.buffer.Holds .applicationData payload)
  (hroom : c.channel.buffer.pos + 1 + cs.tagSize ≤ c.channel.buffer.buffer.length)
include hw

theorem not_isEmpty_of_holds : (!c.channel.buffer.isEmpty) = true := by
  have hpos := hw.pos_eq
  simp only [HEADER_SIZE] at hpos
  simp [WriteBuffer.isEmpty, hpos]

include hroom

theorem flush_of_some {record : Bytes}
    (hseal : sealedRecord P c.channel.writeState (ClientRecordHeader.applicationData.plaintext payload) =
      some record) :
    ∃ buffer, flush P c = send record (c.withBuffer ⟨buffer, 0, none⟩) ∧
      buffer.length = c.channel.buffer.buffer.length := by
  obtain ⟨buffer, hclose, hlen⟩ := WriteBuffer.closeRecord_of_some hw rfl hroom hseal
  refine ⟨buffer, ?_, hlen⟩
  simp only [flush, get_bind_apply, not_isEmpty_of_holds hw, if_true, send]
  rw [bind_of_ok ((closeRecord_eq c).trans (onPart_of_ok hclose))]

theorem flush_of_none
    (hseal : sealedRecord P c.channel.writeState (ClientRecordHeader.applicationData.plaintext payload) =
      none) :
    ∃ buffer, flush P c = .error (.err .invalidApplicationData)
        (c.withBuffer ⟨buffer, c.channel.buffer.pos, none⟩) ∧
      buffer.length = c.channel.buffer.buffer.length := by
  obtain ⟨buffer, hclose, hlen⟩ := WriteBuffer.closeRecord_of_none hw rfl hroom hseal
  refine ⟨buffer, ?_, hlen⟩
  simp only [flush, get_bind_apply, not_isEmpty_of_holds hw, if_true]
  rw [bind_of_error ((closeRecord_eq c).trans (onPart_of_error hclose))]

end Holding

/-- A record the AEAD has refused is still in the buffer, and cannot be closed again. -/
theorem flush_of_broken (hpos : c.channel.buffer.pos ≠ 0)
    (hheader : c.channel.buffer.currentHeader = none) : flush P c = .error .panic c := by
  have hclose : WriteBuffer.closeRecord P c.channel.writeState c.channel.buffer =
      .error .panic c.channel.buffer := by
    simp only [WriteBuffer.closeRecord, get_bind_apply, hheader, throw_apply]
  have hnonempty : (!c.channel.buffer.isEmpty) = true := by simp [WriteBuffer.isEmpty, hpos]
  simp only [flush, get_bind_apply, hnonempty, if_true]
  rw [bind_of_error ((closeRecord_eq c).trans (onPart_of_error hclose))]

theorem onBuffer_eq {α : Type} (x : WriteBuffer.M α) (c : TlsConnection cs) :
    onChannel (Channel.onBuffer x) c = onPart (·.channel.buffer) withBuffer x c := by
  simp only [onChannel, Channel.onBuffer, onPart]
  cases x c.channel.buffer <;> rfl

theorem startRecord_of_holds (hw : c.channel.buffer.Holds .applicationData payload) :
    startRecord P c = .ok () c := by
  have hcontains : c.channel.buffer.contains .applicationData = true := by
    simp [WriteBuffer.contains, hw.currentHeader]
  simp only [startRecord, get_bind_apply, hcontains, Bool.not_true, Bool.false_eq_true, if_false,
    pure_apply]

theorem startRecord_of_idle (hw : c.channel.buffer.Idle)
    (hroom : HEADER_SIZE ≤ c.channel.buffer.buffer.length) :
    ∃ w, startRecord P c = .ok () (c.withBuffer w) ∧ w.Holds .applicationData [] ∧
      w.buffer.length = c.channel.buffer.buffer.length := by
  obtain ⟨w, hstart, hholds, hlen⟩ := WriteBuffer.startRecord_of_idle hw hroom
  refine ⟨w, ?_, hholds, hlen⟩
  have hcontains : c.channel.buffer.contains .applicationData = false := by
    simp [WriteBuffer.contains, hw.currentHeader]
  have hempty : c.channel.buffer.isEmpty = true := by simp [WriteBuffer.isEmpty, hw.pos]
  simp only [startRecord, get_bind_apply, hcontains, Bool.not_false, if_true]
  rw [bind_of_ok (flush_of_isEmpty hempty), onBuffer_eq]
  exact onPart_of_ok hstart

theorem startRecord_of_broken (hpos : c.channel.buffer.pos ≠ 0)
    (hheader : c.channel.buffer.currentHeader = none) : startRecord P c = .error .panic c := by
  have hcontains : c.channel.buffer.contains .applicationData = false := by
    simp [WriteBuffer.contains, hheader]
  simp only [startRecord, get_bind_apply, hcontains, Bool.not_false, if_true]
  exact bind_of_error (flush_of_broken hpos hheader)

/-- The room for payload in a record. -/
def roomIn (w : WriteBuffer) : Nat := w.buffer.length - TLS_RECORD_OVERHEAD - w.pos

/-- What `write` does once a record is open. -/
def collect (P : Primitives cs) (buf : Bytes) : M cs Nat := do
  let buffered ← onChannel (Channel.onBuffer (WriteBuffer.append buf))
  if ← fromResult (← get).channel.buffer.isFull then flush P
  return buffered

theorem write_eq (P : Primitives cs) (hopen : c.opened) (buf : Bytes) :
    write P buf c = (startRecord P >>= fun _ => collect P buf) c := by
  simp only [write, get_bind_apply, hopen, if_true]
  rfl

/-- Bytes are taken as far as there is room, and a full record goes out at once. -/
theorem collect_eq (hw : c.channel.buffer.Holds .applicationData payload)
    (hlen : TLS_RECORD_OVERHEAD ≤ c.channel.buffer.buffer.length)
    (hpos : c.channel.buffer.pos ≤ c.channel.buffer.buffer.length - TLS_RECORD_OVERHEAD)
    (buf : Bytes) :
    ∃ w, w.Holds .applicationData (payload ++ buf.take (min buf.length (roomIn c.channel.buffer))) ∧
      w.buffer.length = c.channel.buffer.buffer.length ∧
      collect P buf c = (do
        if roomIn c.channel.buffer ≤ buf.length then flush P
        return min buf.length (roomIn c.channel.buffer) : M cs Nat) (c.withBuffer w) := by
  obtain ⟨w, happend, hholds, hwlen⟩ := WriteBuffer.append_eq hw hlen hpos buf
  refine ⟨w, hholds, hwlen, ?_⟩
  have hfull : w.isFull = .ok (decide (roomIn c.channel.buffer ≤ buf.length)) := by
    have hpos' := hholds.pos_eq
    have hpos₀ := hw.pos_eq
    simp only [WriteBuffer.isFull, WriteBuffer.maxBlockSize, checkedSub, hwlen, if_pos hlen, ok_bind]
    refine congrArg Except.ok ?_
    rw [Bool.eq_iff_iff, beq_iff_eq, decide_eq_true_iff, roomIn]
    simp only [List.length_append, List.length_take] at hpos'
    omega
  have hbuffer : onChannel (Channel.onBuffer (WriteBuffer.append buf)) c =
      .ok (min buf.length (roomIn c.channel.buffer)) (c.withBuffer w) :=
    (onBuffer_eq _ c).trans (onPart_of_ok happend)
  simp only [collect]
  rw [bind_of_ok hbuffer, get_bind_apply, hfull, fromResult_ok_bind]
  simp only [decide_eq_true_eq]

/-- A buffer too short for any payload. -/
theorem collect_of_overfull (hlen : TLS_RECORD_OVERHEAD ≤ c.channel.buffer.buffer.length)
    (hpos : c.channel.buffer.buffer.length - TLS_RECORD_OVERHEAD < c.channel.buffer.pos)
    (buf : Bytes) : collect P buf c = .error .panic c := by
  have hspace : c.channel.buffer.space = .error .panic := by
    simp only [WriteBuffer.space, WriteBuffer.maxBlockSize, checkedSub, if_pos hlen, ok_bind,
      if_neg (Nat.not_le.mpr hpos)]
  have happend : WriteBuffer.append buf c.channel.buffer = .error .panic c.channel.buffer := by
    simp only [WriteBuffer.append, get_bind_apply, hspace, fromResult_error_bind]
  exact bind_of_error ((onBuffer_eq _ c).trans (onPart_of_error happend))

/-- The bytes of a `CloseNotify`. -/
def goodbyePayload : Bytes := [AlertLevel.warning.toU8, AlertDescription.closeNotify.toU8]

/-- The last record is sealed while the connection is open, and unprotected behind that. -/
theorem writeRecord_closeNotify (hw : c.channel.buffer.Idle)
    (hlen : TLS_RECORD_OVERHEAD ≤ c.channel.buffer.buffer.length) (opened : Bool) :
    Ends (onChannel (Channel.writeRecord P (.closeNotify opened)) c)
      (fun record c' => c'.channel.outgoing = c.channel.outgoing ∧
        c'.channel.schedule = c.channel.schedule ∧
        if opened then sealedRecord P c.channel.writeState
          ((ClientRecordHeader.alert true).plaintext goodbyePayload) = some record
        else record = (ClientRecordHeader.alert false).bytes ++ sized 2 goodbyePayload)
      fun _ c' => c'.channel.outgoing = c.channel.outgoing := by
  simp only [TLS_RECORD_OVERHEAD] at hlen
  have hfits : HEADER_SIZE + goodbyePayload.length ≤ c.channel.buffer.buffer.length := by
    simp only [HEADER_SIZE, goodbyePayload, List.length_cons, List.length_nil]
    omega
  obtain ⟨m, w, hmessage, hholds, hwlen, hwrite⟩ := @RecordWriter.writeRecord_of_idle _ P
    c.channel.schedule.clientState (.later (.closeNotify opened))
    ⟨c.channel.buffer, some c.channel.schedule.serverState.transcriptHash⟩ _ hw hfits rfl rfl trivial
  obtain rfl : goodbyePayload = m := Except.ok.inj hmessage
  rw [show (SentRecord.later (ClientRecord.closeNotify opened : ClientRecord cs)).transcribed
    goodbyePayload = [] from rfl, List.append_nil] at hwrite
  have hpos := hholds.pos_eq
  simp only [HEADER_SIZE, goodbyePayload, List.length_cons, List.length_nil] at hpos
  refine .onPart ?_
  simp only [Channel.writeRecord, get_bind_apply]
  refine .onPart ?_
  rw [hwrite]
  refine .onPart ?_
  cases opened with
  | true =>
      have hroom : w.pos + 1 + cs.tagSize ≤ w.buffer.length := by
        rw [hpos, hwlen, TlsCipherSuite.tagSize]
        dsimp only
        omega
      cases hseal : sealedRecord P c.channel.writeState
          ((ClientRecordHeader.alert true).plaintext goodbyePayload) with
      | some record =>
          obtain ⟨buffer, hclose, -⟩ := WriteBuffer.closeRecord_of_some hholds rfl hroom hseal
          rw [hclose]
          exact ⟨rfl, rfl, rfl⟩
      | none =>
          obtain ⟨buffer, hclose, -⟩ := WriteBuffer.closeRecord_of_none hholds rfl hroom hseal
          rw [hclose]
          exact rfl
  | false =>
      obtain ⟨buffer, hclose, -⟩ := WriteBuffer.closeRecord_plain hholds rfl
      rw [hclose]
      exact ⟨rfl, rfl, rfl⟩

end TlsConnection

/-- The records handed to the transport. -/
def Phase.sent {π : Type} (s : Phase cs π) : List (Sent cs) := s.connection.channel.outgoing.sent

/-- A connection as `open` leaves it: nothing is buffered, and nothing was sent yet under the
keys of the connection. -/
structure TlsConnection.Fresh (c : TlsConnection cs) : Prop where
  opened : c.opened
  sent : c.channel.outgoing.sent = []
  idle : c.channel.buffer.Idle
  length : TLS_RECORD_OVERHEAD < c.channel.buffer.buffer.length

namespace Peer

/-- An open connection whose transport follows a plan. -/
def sender (plan : List IoOutcome) : TlsConnection Peer.cs :=
  ⟨{ channel [] with outgoing.plan := plan }, true, .default, .relaxed⟩

theorem sender_fresh (plan : List IoOutcome) : (sender plan).Fresh :=
  ⟨rfl, rfl, ⟨rfl, rfl⟩, by simp [sender, channel, TLS_RECORD_OVERHEAD]⟩

end Peer

end GatoPskTls.Client
