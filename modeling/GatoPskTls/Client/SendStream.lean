import GatoPskTls.Aead
import GatoPskTls.Client.Sending

/-!
# The stream a client sends

A peer that opens the client's records one after the other, counting as it goes, gets the bytes
the client's writes have accepted, up to those still in the buffer.
-/
namespace GatoPskTls.Client

open Stateful BigEndian History

variable {cs : TlsCipherSuite} {P : Primitives cs}

/-- The application data of a record, opened under these keys and this count. -/
def receive (P : Primitives cs) (s : KeyScheduleState cs) (record : Bytes) : Option Bytes := do
  let header := record.take HEADER_SIZE
  let body := record.drop HEADER_SIZE
  if header = additionalData body.length then
    let plaintext ← P.aeadOpen s.key (KeyScheduleState.nonce s.counter s.iv) header body
    if plaintext.getLast? = some ContentType.applicationData.toU8 then some plaintext.dropLast
    else none
  else none

/-- The count, some records later. -/
def advanced (s : KeyScheduleState cs) (n : Nat) : KeyScheduleState cs :=
  { s with counter := UInt64.ofNat (s.counter.toNat + n) }

/-- The application data of records in order. -/
def receiveAll (P : Primitives cs) (s : KeyScheduleState cs) : Nat → List Bytes → Option (List Bytes)
  | _, [] => some []
  | n, record :: records => do
      let payload ← receive P (advanced s n) record
      let payloads ← receiveAll P s (n + 1) records
      return payload :: payloads

theorem receive_sealedRecord (hP : P.AeadCorrect) {s : KeyScheduleState cs} {payload record : Bytes}
    (h : sealedRecord P s (ClientRecordHeader.applicationData.plaintext payload) = some record) :
    receive P s record = some payload := by
  obtain ⟨ciphertext, hseal, rfl⟩ := Option.map_eq_some_iff.mp h
  have haad : ∀ n, (additionalData n).length = HEADER_SIZE := fun n => by
    simp [additionalData, HEADER_SIZE]
  have hlen := P.aeadSeal_length hseal
  simp only [receive, List.take_left' (haad _), List.drop_left' (haad _), hlen, if_true, hP.opens hseal]
  simp [ClientRecordHeader.plaintext, ClientRecordHeader.trailerContentType]

theorem receiveAll_concat {s : KeyScheduleState cs} {n : Nat} {records payloads : List Bytes}
    {record payload : Bytes} (hs : receiveAll P s n records = some payloads)
    (h : receive P (advanced s (n + records.length)) record = some payload) :
    receiveAll P s n (records ++ [record]) = some (payloads ++ [payload]) := by
  induction records generalizing n payloads with
  | nil =>
      cases hs
      have h' : receive P (advanced s n) record = some payload := h
      simp [receiveAll, h']
  | cons r records ih =>
      simp only [receiveAll, Option.bind_eq_bind, Option.bind_eq_some_iff] at hs
      obtain ⟨p, hp, ps, hps, hpayloads⟩ := hs
      cases hpayloads
      have hrest := ih hps (by rw [Nat.add_assoc, Nat.add_comm 1]; exact h)
      simp [receiveAll, hp, hrest]

namespace TlsConnection

/-- An open connection on a transport that accepts everything. What the peer has got so far are
the payloads, and `pending` is in the buffer. -/
structure Streaming (P : Primitives cs) (s₀ : KeyScheduleState cs) (c : TlsConnection cs)
    (payloads : List Bytes) (pending : Bytes) : Prop where
  opened : c.opened
  accepts : ∀ outcome ∈ c.channel.outgoing.plan, outcome = .done
  key : c.channel.writeState.key = s₀.key
  iv : c.channel.writeState.iv = s₀.iv
  counter : c.channel.writeState.counter.toNat = s₀.counter.toNat + c.channel.outgoing.sent.length
  received : receiveAll P s₀ 0 (c.channel.outgoing.sent.reverse.map (·.record)) = some payloads
  length : TLS_RECORD_OVERHEAD + 6 ≤ c.channel.buffer.buffer.length ∧
    c.channel.buffer.buffer.length ≤ 16640
  buffer : c.channel.buffer.Idle ∧ pending = [] ∨
    c.channel.buffer.Holds .applicationData pending ∧
      c.channel.buffer.pos ≤ c.channel.buffer.buffer.length - TLS_RECORD_OVERHEAD

variable {c : TlsConnection cs} {s₀ : KeyScheduleState cs} {payloads : List Bytes} {pending : Bytes}

theorem headD_of_accepts {plan : List IoOutcome} (h : ∀ outcome ∈ plan, outcome = .done) :
    plan.headD .done = .done := by
  cases plan with
  | nil => rfl
  | cons outcome plan => exact h outcome List.mem_cons_self

/-- The record goes to the transport and is counted. -/
theorem send_of_accepts {record : Bytes} (haccepts : ∀ outcome ∈ c.channel.outgoing.plan, outcome = .done)
    (hcount : CanCount c.channel.writeState) :
    ∃ plan, (∀ outcome ∈ plan, outcome = .done) ∧ send record c =
      .ok () { c with channel := { c.channel.counted record with outgoing.plan := plan } } := by
  have htransmit : onChannel (Channel.transmit record) c =
      .ok () { c with channel := c.channel.counted record } := by
    refine onPart_of_ok ?_
    rw [Channel.transmit_eq, headD_of_accepts haccepts]
    exact if_pos hcount
  have htail : ∀ outcome ∈ c.channel.outgoing.plan.tail, outcome = .done :=
    fun outcome h => haccepts outcome (List.mem_of_mem_tail h)
  simp only [send, get_bind_apply]
  rw [bind_of_ok htransmit]
  split
  · refine ⟨c.channel.outgoing.plan.tail.tail, fun o h => htail o (List.mem_of_mem_tail h), ?_⟩
    refine onPart_of_ok ?_
    rw [Channel.flushTransport_eq]
    rw [show (c.channel.counted record).outgoing.plan = c.channel.outgoing.plan.tail from rfl,
      headD_of_accepts htail]
    rfl
  · exact ⟨c.channel.outgoing.plan.tail, htail, rfl⟩

theorem Streaming.receive_eq (hc : Streaming P s₀ c payloads pending) (record : Bytes) :
    receive P (advanced s₀ c.channel.outgoing.sent.length) record =
      receive P c.channel.writeState record := by
  have hcounter : UInt64.ofNat (s₀.counter.toNat + c.channel.outgoing.sent.length) =
      c.channel.writeState.counter := by
    rw [← hc.counter, UInt64.ofNat_toNat]
  simp only [receive, advanced, hcounter, ← hc.key, ← hc.iv]

/-- A flush brings what was pending to the peer. -/
theorem flush_streams (hP : P.AeadCorrect) (hc : Streaming P s₀ c payloads pending)
    (hcount : CanCount c.channel.writeState) :
    ∃ c' payloads', flush P c = .ok () c' ∧ Streaming P s₀ c' payloads' [] ∧
      payloads'.flatten = payloads.flatten ++ pending ∧ c'.channel.buffer.Idle ∧
      c'.channel.outgoing.sent.length ≤ c.channel.outgoing.sent.length + 1 := by
  rcases hc.buffer with ⟨hidle, rfl⟩ | ⟨hholds, hpos⟩
  · exact ⟨c, payloads, flush_of_isEmpty (by simp [WriteBuffer.isEmpty, hidle.pos]), hc,
      (List.append_nil _).symm, hidle, Nat.le_succ _⟩
  · obtain ⟨hlow, hhigh⟩ := hc.length
    simp only [TLS_RECORD_OVERHEAD] at hlow hpos
    have hroom : c.channel.buffer.pos + 1 + cs.tagSize ≤ c.channel.buffer.buffer.length := by
      rw [TlsCipherSuite.tagSize]
      omega
    have hshort : (ClientRecordHeader.applicationData.plaintext pending).length ≤ 2 ^ 36 := by
      have := hholds.pos_eq
      simp only [ClientRecordHeader.plaintext, List.length_append, List.length_singleton]
      omega
    obtain ⟨ciphertext, hseal⟩ := hP.seals c.channel.writeState.key
      (KeyScheduleState.nonce c.channel.writeState.counter c.channel.writeState.iv)
      (additionalData ((ClientRecordHeader.applicationData.plaintext pending).length + cs.tagSize))
      (ClientRecordHeader.applicationData.plaintext pending) (by simp [additionalData]) hshort
    have hrecord : sealedRecord P c.channel.writeState
        (ClientRecordHeader.applicationData.plaintext pending) = some _ :=
      Option.map_eq_some_iff.mpr ⟨ciphertext, hseal, rfl⟩
    obtain ⟨buffer, hflush, hbuffer⟩ := flush_of_some hholds hroom hrecord
    obtain ⟨plan, hplan, hsend⟩ := send_of_accepts (c := c.withBuffer ⟨buffer, 0, none⟩)
      hc.accepts hcount
    have hreceive := receive_sealedRecord hP hrecord
    rw [← hc.receive_eq] at hreceive
    refine ⟨_, payloads ++ [pending], hflush.trans hsend, ⟨hc.opened, hplan, hc.key, hc.iv, ?_, ?_,
      hbuffer ▸ hc.length, .inl ⟨⟨rfl, rfl⟩, rfl⟩⟩, by simp, ⟨rfl, rfl⟩, le_refl _⟩
    · exact (canCount_next hcount).trans (congrArg (· + 1) hc.counter)
    · have hall := receiveAll_concat hc.received (by simpa using hreceive)
      simpa [Channel.counted, Channel.wrote, Outgoing.wrote, Outgoing.entry] using hall

/-- A write takes some of the bytes behind what is pending. -/
theorem collect_streams (hP : P.AeadCorrect) (hc : Streaming P s₀ c payloads pending)
    (hcount : CanCount c.channel.writeState)
    (hholds : c.channel.buffer.Holds .applicationData pending)
    (hpos : c.channel.buffer.pos ≤ c.channel.buffer.buffer.length - TLS_RECORD_OVERHEAD)
    (buf : Bytes) :
    ∃ n c' payloads' pending', collect P buf c = .ok n c' ∧
      Streaming P s₀ c' payloads' pending' ∧
      payloads'.flatten ++ pending' = payloads.flatten ++ pending ++ buf.take n ∧
      c'.channel.outgoing.sent.length ≤ c.channel.outgoing.sent.length + 1 := by
  have hlen : TLS_RECORD_OVERHEAD ≤ c.channel.buffer.buffer.length := by
    have := hc.length.1
    omega
  obtain ⟨w, hw, hwlen, hcollect⟩ := collect_eq (P := P) hholds hlen hpos buf
  generalize hn : min buf.length (roomIn c.channel.buffer) = n at hw hcollect
  have hfits : w.pos ≤ w.buffer.length - TLS_RECORD_OVERHEAD := by
    have hwpos := hw.pos_eq
    rw [List.length_append, List.length_take, ← Nat.add_assoc, ← hholds.pos_eq, ← hn, roomIn] at hwpos
    omega
  have hc' : Streaming P s₀ (c.withBuffer w) payloads (pending ++ buf.take n) :=
    ⟨hc.opened, hc.accepts, hc.key, hc.iv, hc.counter, hc.received, hwlen ▸ hc.length,
      .inr ⟨hw, hfits⟩⟩
  rw [hcollect]
  split
  · obtain ⟨c'', payloads', hflush, hstream, hflat, -, hsent⟩ := flush_streams hP hc' hcount
    exact ⟨n, c'', payloads', [], bind_of_ok hflush, hstream, by
      rw [List.append_nil, hflat, List.append_assoc], hsent⟩
  · exact ⟨n, _, payloads, _, rfl, hc', (List.append_assoc _ _ _).symm, Nat.le_succ _⟩

theorem write_streams (hP : P.AeadCorrect) (hc : Streaming P s₀ c payloads pending)
    (hcount : CanCount c.channel.writeState) (buf : Bytes) :
    ∃ n c' payloads' pending', write P buf c = .ok n c' ∧ Streaming P s₀ c' payloads' pending' ∧
      payloads'.flatten ++ pending' = payloads.flatten ++ pending ++ buf.take n ∧
      c'.channel.outgoing.sent.length ≤ c.channel.outgoing.sent.length + 1 := by
  rw [write_eq P hc.opened]
  rcases hc.buffer with ⟨hidle, rfl⟩ | ⟨hholds, hpos⟩
  · obtain ⟨hlow, hhigh⟩ := hc.length
    simp only [TLS_RECORD_OVERHEAD] at hlow
    obtain ⟨w, hstart, hw, hwlen⟩ := startRecord_of_idle (P := P) hidle (by
      simp only [HEADER_SIZE]
      omega)
    have hfits : w.pos ≤ w.buffer.length - TLS_RECORD_OVERHEAD := by
      rw [hw.pos_eq, hwlen]
      simp only [HEADER_SIZE, TLS_RECORD_OVERHEAD, List.length_nil]
      omega
    have hc' : Streaming P s₀ (c.withBuffer w) payloads [] :=
      ⟨hc.opened, hc.accepts, hc.key, hc.iv, hc.counter, hc.received, hwlen ▸ hc.length,
        .inr ⟨hw, hfits⟩⟩
    rw [bind_of_ok hstart]
    exact collect_streams hP hc' hcount hw hfits buf
  · rw [bind_of_ok (startRecord_of_holds hholds)]
    exact collect_streams hP hc hcount hholds hpos buf

end TlsConnection

section Run

variable {π : Type} {pr : CryptoProvider π}

/-- The payload of the record in the buffer. -/
def Phase.buffered (s : Phase cs π) : Bytes :=
  let w := s.connection.channel.buffer
  (w.buffer.take w.pos).drop HEADER_SIZE

/-- The two calls that send application data. -/
def Call.sends : Call → Bool
  | write _ => true
  | flush => true
  | _ => false

/-- What a call has taken. -/
def acceptedBy : Call → Option (Except Stop Answer) → Bytes
  | .write buf, some (.ok (.count n)) => buf.take n
  | _, _ => []

/-- The bytes the writes of a history have taken, in order. -/
def accepted : List (ClientEvent cs π) → Bytes
  | [] => []
  | e :: older => accepted older ++ acceptedBy e.call e.out

theorem TlsConnection.Streaming.buffered {c : TlsConnection cs} {s₀ : KeyScheduleState cs}
    {payloads : List Bytes} {pending : Bytes} (h : c.Streaming P s₀ payloads pending) :
    (Phase.connected c : Phase cs π).buffered = pending := by
  simp only [Phase.buffered, Phase.connection]
  rcases h.buffer with ⟨hidle, rfl⟩ | ⟨hholds, -⟩
  · rw [hidle.pos]
    rfl
  · rw [hholds.content, ← List.append_assoc, List.drop_left' (by
      rw [List.length_append, ClientRecordHeader.bytes_length]
      rfl)]

/-- A run so far: the stream is what was accepted, and every call has succeeded. -/
structure Streamed (P : Primitives cs) (pr : CryptoProvider π) (s₀ : KeyScheduleState cs)
    (h : List (ClientEvent cs π)) (c : TlsConnection cs) (payloads : List Bytes) (pending : Bytes) :
    Prop where
  streaming : c.Streaming P s₀ payloads pending
  flatten : payloads.flatten ++ pending = accepted h
  sent : c.channel.outgoing.sent.length ≤ h.length
  flushed : ∀ e ∈ h, e.call = .flush → (Phase.step P pr e.pre e.call).2.buffered = []
  answered : ∀ e ∈ h, ∃ answer, e.out = some (.ok answer)

theorem Streamed.step (hP : P.AeadCorrect) {s₀ : KeyScheduleState cs} {h : List (ClientEvent cs π)}
    {c : TlsConnection cs} {payloads : List Bytes} {pending : Bytes}
    (hs : Streamed P pr s₀ h c payloads pending) (hcount : s₀.counter.toNat + (h.length + 1) < 2 ^ 64)
    {call : Call} (hcall : call.sends) :
    ∃ c' payloads' pending', (Phase.step P pr (.connected c) call).2 = .connected c' ∧
      Streamed P pr s₀ (⟨.connected c, call, (Phase.step P pr (.connected c) call).1⟩ :: h)
        c' payloads' pending' := by
  have hcan : CanCount c.channel.writeState := by
    have hcounter := hs.streaming.counter
    have hsent := hs.sent
    simp only [CanCount]
    omega
  have hlen := hs.sent
  obtain rfl | ⟨buf, rfl⟩ : call = .flush ∨ ∃ buf, call = .write buf := by
    cases call with
    | flush => exact .inl rfl
    | write buf => exact .inr ⟨buf, rfl⟩
    | process | turn | peek | pop | close => cases hcall
  · obtain ⟨c', payloads', hflush, hstream, hflat, -, hsent⟩ :=
      TlsConnection.flush_streams hP hs.streaming hcan
    have hstep : Phase.step P pr (.connected c) .flush = (some (.ok .done), .connected c') := by
      simp only [Phase.step, hflush, Phase.answered]
    rw [hstep]
    refine ⟨c', payloads', [], rfl, hstream, ?_, by rw [List.length_cons]; omega, ?_, ?_⟩
    · rw [List.append_nil, hflat, hs.flatten]
      exact (List.append_nil _).symm
    · refine List.forall_mem_cons.mpr ⟨fun _ => ?_, hs.flushed⟩
      rw [hstep]
      exact hstream.buffered
    · exact List.forall_mem_cons.mpr ⟨⟨_, rfl⟩, hs.answered⟩
  · obtain ⟨n, c', payloads', pending', hwrite, hstream, hflat, hsent⟩ :=
      TlsConnection.write_streams hP hs.streaming hcan buf
    have hstep : Phase.step P pr (.connected c) (.write buf) =
        (some (.ok (.count n)), .connected c') := by
      simp only [Phase.step, hwrite, Phase.answered]
    rw [hstep]
    refine ⟨c', payloads', pending', rfl, hstream, ?_, by rw [List.length_cons]; omega, ?_, ?_⟩
    · rw [hflat, hs.flatten]
      rfl
    · exact List.forall_mem_cons.mpr ⟨nofun, hs.flushed⟩
    · exact List.forall_mem_cons.mpr ⟨⟨_, rfl⟩, hs.answered⟩

/-- While the counter lasts, what the peer gets and what is still in the buffer are what the
writes have accepted; a flush leaves nothing behind, and no call fails. -/
theorem send_stream (hP : P.AeadCorrect) {c : TlsConnection cs} (hc : c.Fresh)
    (haccepts : ∀ outcome ∈ c.channel.outgoing.plan, outcome = .done)
    (hlength : TLS_RECORD_OVERHEAD + 6 ≤ c.channel.buffer.buffer.length ∧
      c.channel.buffer.buffer.length ≤ 16640)
    {h : List (ClientEvent cs π)} {s : Phase cs π}
    (hr : Reaches (Phase.step P pr) (.connected c) h s) (hcalls : ∀ e ∈ h, e.call.sends)
    (hcount : c.channel.writeState.counter.toNat + h.length < 2 ^ 64) :
    (∃ payloads, receiveAll P c.channel.writeState 0 (s.sent.reverse.map (·.record)) = some payloads ∧
      payloads.flatten ++ s.buffered = accepted h) ∧
    (∀ e ∈ h, e.call = .flush → (Phase.step P pr e.pre e.call).2.buffered = []) ∧
    ∀ e ∈ h, ∃ answer, e.out = some (.ok answer) := by
  have hrun : (∀ e ∈ h, e.call.sends) → c.channel.writeState.counter.toNat + h.length < 2 ^ 64 →
      ∃ c' payloads pending, s = .connected c' ∧
        Streamed P pr c.channel.writeState h c' payloads pending := by
    refine hr.invariant (fun h s => (∀ e ∈ h, e.call.sends) →
      c.channel.writeState.counter.toNat + h.length < 2 ^ 64 →
      ∃ c' payloads pending, s = .connected c' ∧
        Streamed P pr c.channel.writeState h c' payloads pending) ?_ ?_
    · intro _ _
      refine ⟨c, [], [], rfl, ⟨hc.opened, haccepts, rfl, rfl, ?_, ?_, hlength, .inl ⟨hc.idle, rfl⟩⟩,
        rfl, ?_, List.forall_mem_nil _, List.forall_mem_nil _⟩
      · rw [hc.sent]
        rfl
      · rw [hc.sent]
        rfl
      · rw [hc.sent]
        exact Nat.zero_le _
    · intro h s call _ ih hcalls hcount
      obtain ⟨hcall, hcalls⟩ := List.forall_mem_cons.mp hcalls
      rw [List.length_cons] at hcount
      obtain ⟨c', payloads, pending, rfl, hstreamed⟩ := ih hcalls (by omega)
      exact hstreamed.step hP hcount hcall
  obtain ⟨c', payloads, pending, rfl, hstreamed⟩ := hrun hcalls hcount
  refine ⟨⟨payloads, hstreamed.streaming.received, ?_⟩, hstreamed.flushed, hstreamed.answered⟩
  rw [hstreamed.streaming.buffered, hstreamed.flatten]

end Run

namespace Peer

/-- A write that fills the buffer, one that does not, and a flush in between. -/
def stream (c : TlsConnection Peer.cs) : List (ClientEvent Peer.cs Unit) × Phase Peer.cs Unit :=
  runAll (Phase.step suite (provider true)) ([], .connected c)
    [.write (List.replicate 40 7), .flush, .write [1, 2]]

theorem stream_reaches (c : TlsConnection Peer.cs) :
    Reaches (Phase.step suite (provider true)) (.connected c) (stream c).1 (stream c).2 := by
  unfold stream
  exact runAll_reaches .nil _

theorem stream_calls : (∀ e ∈ (stream (sender [])).1, e.call.sends) ∧
    (stream (sender [])).1.length = 3 ∧ accepted (stream (sender [])).1 =
      List.replicate 27 7 ++ [1, 2] := by
  decide +kernel

/-- A connection that has no count left but one. -/
def exhausted : TlsConnection Peer.cs :=
  { sender [] with channel.schedule.clientState.state.counter := .ofNat (2 ^ 64 - 1) }

end Peer

theorem stream_arrives :
    (∃ payloads, receiveAll Peer.suite (Peer.sender []).channel.writeState 0
        ((Peer.stream (Peer.sender [])).2.sent.reverse.map (·.record)) = some payloads ∧
      payloads.flatten ++ (Peer.stream (Peer.sender [])).2.buffered =
        accepted (Peer.stream (Peer.sender [])).1) ∧
    (∀ e ∈ (Peer.stream (Peer.sender [])).1, e.call = .flush →
      (Phase.step Peer.suite (Peer.provider true) e.pre e.call).2.buffered = []) ∧
    ∀ e ∈ (Peer.stream (Peer.sender [])).1, ∃ answer, e.out = some (.ok answer) :=
  send_stream (Primitives.checksumming_aeadCorrect _) (Peer.sender_fresh []) (List.forall_mem_nil _)
    (by simp [Peer.sender, Peer.channel, TLS_RECORD_OVERHEAD]) (Peer.stream_reaches _)
    Peer.stream_calls.1 (by rw [Peer.stream_calls.2.1]; decide +kernel)

/-- The record behind which the counter would wrap is the last: the write that fills it panics. -/
theorem exhausted_write_panics :
    Peer.exhausted.Fresh ∧ (∀ e ∈ (Peer.stream Peer.exhausted).1, e.call.sends) ∧
      ∃ e ∈ (Peer.stream Peer.exhausted).1, e.out = some (.error .panic) := by
  refine ⟨⟨rfl, rfl, ⟨rfl, rfl⟩, (Peer.sender_fresh []).length⟩, ?_⟩
  decide +kernel

end GatoPskTls.Client
