import GatoPskTls.RecordReaderSpec
import GatoPskTls.Client.Authentication
import GatoPskTls.Client.Injection

/-!
# What makes an open client panic

The records that take the handler of an open connection to an `unwrap` or an `unimplemented!`,
and the reads that take it out of its buffer. Nothing else a peer can send does.
-/
namespace GatoPskTls.Client

open Stateful Splice ParseBuffer

variable {cs : TlsCipherSuite} {π : Type}

/-- The types of the messages of a record, and whether they are all of it. -/
def messageTypes (cs : TlsCipherSuite) (n : Nat) (buf : ParseBuffer) : List HandshakeType :=
  (readMessages cs n buf).1.map Heard.handshakeType

def readable (cs : TlsCipherSuite) (n : Nat) (buf : ParseBuffer) : Bool := (readMessages cs n buf).2

/-- The record is handled to its end, so that it is counted. -/
def counts (P : Primitives cs) (s : KeyScheduleState cs) (f : RecordReader.Fetched) : Bool :=
  match f.header.contentType with
  | .applicationData =>
      match openRecord P s ⟨f.header, .wrapWithPos f.body f.body.length⟩ with
      | .ok (.applicationData, _) => true
      | .ok (.handshake, appData) => readable cs appData.asSlice.length (.new appData.asSlice)
      | _ => false
  | _ => false

/-- A handshake message other than a ticket, protected or not; a protected record without
content type; or a record behind which the counter would wrap. -/
def Detonates (P : Primitives cs) (s : KeyScheduleState cs) (f : RecordReader.Fetched) : Prop :=
  (∃ t ∈ carriedBy P s f, t ≠ .newSessionTicket) ∨ Authentic P s f [] ∨ ¬CanCount s ∧ counts P s f

section Message

variable {P : Primitives cs} {start : Nat} {r : Reading cs Handling}

theorem handler_message_ends (start : Nat) (r : Reading cs Handling) (m : ServerHandshake cs) :
    Ends (handler start (.handshake m) r)
      (fun _ r' => m.handshakeType = .newSessionTicket ∧ r' = r)
      fun e r' => e = .panic ∧ m.handshakeType ≠ .newSessionTicket ∧ r' = r := by
  cases m with
  | newSessionTicket => exact ⟨rfl, rfl⟩
  | serverHello _ | encryptedExtensions | certificate _ | certificateRequest _ | certificateVerify _
  | finished _ => exact ⟨rfl, nofun, rfl⟩

theorem read_of_parse {buf buf' : ParseBuffer} {m : ServerHandshake cs}
    (h : ServerHandshake.parse buf = .ok m buf') (d : Bytes) :
    ∃ (m' : ServerHandshake cs) (t : Bytes), ServerHandshake.read P d buf = .ok (m', t) buf' ∧
      m'.handshakeType = m.handshakeType := by
  obtain ⟨m', t, hread⟩ := ServerHandshake.read_of_parse (P := P) (d := d) h
  obtain ⟨parsed, hparse, rfl⟩ := ServerHandshake.read_parse hread
  cases h.symm.trans hparse
  exact ⟨_, t, hread, ServerHandshake.handshakeType_withHash _ _⟩

theorem read_of_parse_error {buf buf' : ParseBuffer} {e : TlsError}
    (h : (ServerHandshake.parse : Parser TlsError (ServerHandshake cs)) buf = .error e buf')
    (d : Bytes) : ServerHandshake.read P d buf = .error e buf' :=
  (bind_of_ok rfl).trans (bind_of_error h)

/-- Messages are delivered until one cannot be read or is not a ticket. -/
theorem deliverMessages_ends (n : Nat) (buf : ParseBuffer) :
    Ends (deliverMessages P (handler start) n buf r)
      (fun _ r' => (¬∃ t ∈ messageTypes cs n buf, t ≠ .newSessionTicket) ∧ readable cs n buf ∧
        r'.schedule.state = r.schedule.state ∧ r'.captured = r.captured)
      fun e r' => (e = .panic ↔ ∃ t ∈ messageTypes cs n buf, t ≠ .newSessionTicket) ∧
        (readable cs n buf → e = .panic) ∧ r'.captured = r.captured := by
  induction n generalizing buf r with
  | zero => exact ⟨by simp [messageTypes, readMessages], rfl, rfl, rfl⟩
  | succ n ih =>
      simp only [deliverMessages, messageTypes, readable, readMessages]
      split
      next hrem =>
        cases hparse : (ServerHandshake.parse : Parser TlsError (ServerHandshake cs)) buf with
        | error e buf' =>
            have hread : Reading.readMessage P buf r = .error (.err e) r := by
              simp only [Reading.readMessage, read_of_parse_error hparse]
            rw [bind_of_error hread]
            exact ⟨by simp, fun hcounts => absurd hcounts Bool.false_ne_true, rfl⟩
        | ok m buf' =>
            obtain ⟨m', t, hmessage, htype⟩ := read_of_parse (P := P) hparse r.schedule.transcriptHash
            have hread : Reading.readMessage P buf r =
                .ok (m', buf') { r with schedule.transcriptHash := t } := by
              simp only [Reading.readMessage, hmessage]
            rw [bind_of_ok hread]
            have hfirst := handler_message_ends start { r with schedule.transcriptHash := t } m'
            rw [htype] at hfirst
            refine .bind (hfirst.mono ?_ ?_)
            · rintro _ _ ⟨hticket, rfl⟩
              refine (ih (r := { r with schedule.transcriptHash := t }) buf').mono ?_ ?_
              · rintro _ r' ⟨hnone, hwhole, hstate, hcaptured⟩
                exact ⟨by simpa [messageTypes, hticket] using hnone, hwhole, hstate, hcaptured⟩
              · rintro e r' ⟨hpanic, hwhole, hcaptured⟩
                exact ⟨hpanic.trans (by simp [messageTypes, hticket]), hwhole, hcaptured⟩
            · rintro e _ ⟨rfl, hother, rfl⟩
              exact ⟨⟨fun _ => ⟨_, List.mem_cons_self, hother⟩, fun _ => rfl⟩, fun _ => rfl, rfl⟩
      next hrem => exact ⟨by simp, rfl, rfl, rfl⟩

/-- What is opened has a content type, unless the plaintext is empty. -/
theorem openRecord_panics_iff {s : KeyScheduleState cs} {f : RecordReader.Fetched} :
    openRecord P s ⟨f.header, .wrapWithPos f.body f.body.length⟩ = .error .panic ↔
      P.aeadOpen s.key (KeyScheduleState.nonce s.counter s.iv) f.header.header.val f.body = some [] := by
  cases hopen : P.aeadOpen s.key (KeyScheduleState.nonce s.counter s.iv) f.header.header.val f.body with
  | none => simp [openRecord_eq, hopen]
  | some plaintext =>
      rcases padded_cases plaintext with ⟨_ | n, heq⟩ | ⟨front, byte, n, hbyte, heq⟩
      · simp [openRecord_of_empty hopen heq, heq]
      · simp [openRecord_of_zeros hopen heq, heq]
      · rw [openRecord_of_padded hopen hbyte heq]
        cases ContentType.of byte <;> simp [heq]

/-- The window lies inside the buffer, whose length never changes. -/
def Handling.Within (n : Nat) (h : Handling) : Prop :=
  h.source.length = n ∧ h.bufferInfo.offset + h.bufferInfo.len ≤ n

theorem Handling.Within.showing {h : Handling} {n : Nat} {data : CryptoBuffer} (hh : h.Within n)
    (hbuf : start + data.buf.length ≤ n) (hshort : data.asSlice.length < data.buf.length) :
    (showing start data h).Within n :=
  ⟨(splice_length (hh.1 ▸ hbuf)).trans hh.1, show start + data.asSlice.length ≤ n by omega⟩

theorem handleData_of_within {h : Handling} {n : Nat} {data : CryptoBuffer} (hh : h.Within n)
    (hoffset : data.offset = 0) (hbuf : start + data.buf.length ≤ n)
    (hshort : data.asSlice.length < data.buf.length) :
    Handling.handleData start data h = .ok () (h.showing start data) := by
  rw [Handling.handleData_eq hoffset, hh.1, if_pos (by omega)]

/-- Delivering the content of a record panics exactly at a message that is not a ticket. -/
theorem deliver_ends {n : Nat} {f : RecordReader.Fetched} {appData : CryptoBuffer}
    (contentType : ContentType) (hr : r.captured.Within n) (hoffset : appData.offset = 0)
    (hbuf : start + appData.buf.length ≤ n) (hshort : appData.asSlice.length < appData.buf.length)
    {s : KeyScheduleState cs} (htype : f.header.contentType = .applicationData)
    (hopen : openRecord P s ⟨f.header, .wrapWithPos f.body f.body.length⟩ = .ok (contentType, appData)) :
    Ends (deliver P (handler start) f.header appData contentType r)
      (fun _ r' => (¬∃ t ∈ carriedBy P s f, t ≠ .newSessionTicket) ∧ counts P s f ∧
        r'.schedule.state = r.schedule.state ∧ r'.captured.Within n)
      fun e r' => (e = .panic ↔ ∃ t ∈ carriedBy P s f, t ≠ .newSessionTicket) ∧
        (counts P s f → e = .panic) ∧ r'.captured.Within n := by
  simp only [carriedBy, heardIn, counts, htype, hopen]
  cases contentType with
  | handshake =>
      refine (deliverMessages_ends (r := r) _ _).mono ?_ ?_
      · rintro _ r' ⟨hnone, hwhole, hstate, hcaptured⟩
        exact ⟨hnone, hwhole, hstate, hcaptured ▸ hr⟩
      · rintro e r' ⟨hpanic, hwhole, hcaptured⟩
        exact ⟨hpanic, hwhole, hcaptured ▸ hr⟩
  | applicationData =>
      simp only [deliver, handler, Reading.onCaptured, Handling.handle]
      refine .onPart ?_
      rw [handleData_of_within hr hoffset hbuf hshort]
      exact ⟨by simp, trivial, rfl, hr.showing hbuf hshort⟩
  | alert =>
      simp only [deliver]
      cases hparse : ServerRecord.parsed Alert.parse appData.asSlice with
      | error e =>
          obtain ⟨e', -, -, rfl⟩ := ServerRecord.parsed_eq_error.mp hparse
          exact ⟨by simp, fun hcounts => absurd hcounts Bool.false_ne_true, hr⟩
      | ok a =>
          obtain ⟨e, hcall⟩ := @handler_alert cs start r a
          rw [fromResult_ok_bind, hcall]
          exact ⟨by simp, fun hcounts => absurd hcounts Bool.false_ne_true, hr⟩
  | invalid => exact ⟨by simp, fun hcounts => absurd hcounts Bool.false_ne_true, hr⟩
  | changeCipherSpec => exact ⟨by simp, fun hcounts => absurd hcounts Bool.false_ne_true, hr⟩

theorem count_ends (r : Reading cs Handling) :
    Ends (Reading.onState KeyScheduleState.incrementCounter r)
      (fun _ r' => CanCount r.schedule.state ∧ r'.captured = r.captured)
      fun e r' => ¬CanCount r.schedule.state ∧ e = .panic ∧ r'.captured = r.captured := by
  refine .onPart ?_
  rw [incrementCounter_eq]
  split
  next h => exact ⟨h, rfl⟩
  next h => exact ⟨h, rfl, rfl⟩

/-- A record makes the handler panic exactly when it detonates. -/
theorem received_ends {n : Nat} {f : RecordReader.Fetched}
    (hlen : f.body.length = f.header.contentLength) (hr : r.captured.Within n)
    (hbody : f.start + f.body.length ≤ n) :
    Ends (received P (handler f.start) f r)
      (fun _ r' => ¬Detonates P r.schedule.state f ∧ r'.captured.Within n)
      fun e r' => (e = .panic ↔ Detonates P r.schedule.state f) ∧ r'.captured.Within n := by
  simp only [received, ServerRecord.decode_eq hlen]
  cases hc : f.header.contentType with
  | invalid => exact ⟨by simp [Detonates, carriedBy, heardIn, counts, Authentic, hc], hr⟩
  | changeCipherSpec => exact ⟨by simp [Detonates, carriedBy, heardIn, counts, Authentic, hc], hr⟩
  | alert =>
      have hnot : ¬Detonates P r.schedule.state f := by
        simp [Detonates, carriedBy, heardIn, counts, Authentic, hc]
      cases hp : ServerRecord.parsed Alert.parse f.body with
      | error e =>
          obtain ⟨e', -, -, rfl⟩ := ServerRecord.parsed_eq_error.mp hp
          exact ⟨iff_of_false (by simp) hnot, hr⟩
      | ok a =>
          obtain ⟨e, hcall⟩ := @handler_alert cs f.start r a
          simp only [decryptRecord]
          rw [show handler f.start (.alert a) { r with schedule.transcriptHash := _ } = _ from hcall]
          exact ⟨iff_of_false (by simp) hnot, hr⟩
  | handshake =>
      cases hparse : (ServerHandshake.parse : Parser TlsError (ServerHandshake cs)) (.new f.body) with
      | error e buf =>
          have hp : ServerRecord.parsed (ServerHandshake.read P r.schedule.transcriptHash) f.body =
              .error (.err e) :=
            ServerRecord.parsed_eq_error.mpr ⟨e, buf, read_of_parse_error hparse _, rfl⟩
          rw [hp]
          exact ⟨by simp [Detonates, carriedBy, heardIn, counts, Authentic, hc, hparse], hr⟩
      | ok m buf =>
          obtain ⟨m', t, hread, htype⟩ := read_of_parse (P := P) hparse r.schedule.transcriptHash
          have hdet : Detonates P r.schedule.state f ↔ m'.handshakeType ≠ .newSessionTicket := by
            simp [Detonates, carriedBy, heardIn, counts, Authentic, hc, hparse, htype]
          rw [ServerRecord.parsed_eq_ok.mpr ⟨buf, hread⟩, hdet]
          refine (handler_message_ends f.start { r with schedule.transcriptHash := t } m').mono ?_ ?_
          · rintro _ _ ⟨hticket, rfl⟩
            exact ⟨not_not.mpr hticket, hr⟩
          · rintro e _ ⟨rfl, hother, rfl⟩
            exact ⟨iff_of_true rfl hother, hr⟩
  | applicationData =>
      simp only [decryptRecord, get_bind_apply]
      cases hopen : openRecord P r.schedule.state ⟨f.header, .wrapWithPos f.body f.body.length⟩ with
      | error e =>
          have hpanics := openRecord_panics_iff (P := P) (s := r.schedule.state) (f := f)
          rw [hopen, Except.error.injEq] at hpanics
          refine ⟨hpanics.trans ?_, hr⟩
          simp [Detonates, carriedBy, heardIn, counts, Authentic, hc, hopen]
      | ok opened =>
          obtain ⟨contentType, appData⟩ := opened
          obtain ⟨plaintext, haead, ⟨pad, hholds⟩, hbuf, hoffset⟩ := openRecord_eq_ok hopen
          have hfilled : ¬Authentic P r.schedule.state f [] := by
            rintro ⟨-, hempty⟩
            rw [haead, hholds] at hempty
            simp at hempty
          have hshort : appData.asSlice.length < appData.buf.length := by
            have hopened := P.aeadOpen_length haead
            rw [hholds, List.length_append, List.length_cons] at hopened
            omega
          rw [fromResult_ok_bind]
          refine .bind ((deliver_ends contentType hr hoffset (hbuf ▸ hbody) hshort hc hopen).mono ?_ ?_)
          · rintro _ r₁ ⟨htickets, hcounts, hstate, hwithin⟩
            have hdet : Detonates P r.schedule.state f ↔ ¬CanCount r₁.schedule.state := by
              rw [hstate]
              simp [Detonates, htickets, hfilled, hcounts]
            rw [hdet]
            refine (count_ends r₁).mono ?_ ?_
            · rintro _ r' ⟨hcan, hcaptured⟩
              exact ⟨not_not.mpr hcan, hcaptured ▸ hwithin⟩
            · rintro e r' ⟨hcan, hpanic, hcaptured⟩
              exact ⟨iff_of_true hpanic hcan, hcaptured ▸ hwithin⟩
          · rintro e r₁ ⟨hpanic, hcounts, hwithin⟩
            refine ⟨hpanic.trans ⟨.inl, ?_⟩, hwithin⟩
            rintro (h | h | ⟨-, h⟩)
            · exact h
            · exact absurd h hfilled
            · exact hpanic.mp (hcounts h)

end Message

namespace Channel

/-- The reader's cursors stay inside its buffer. -/
def ReaderKept (c c' : Channel cs) : Prop := c.intake.reader.Valid → c'.intake.reader.Valid

instance : Std.Refl (@ReaderKept cs) := ⟨fun _ h => h⟩

instance : IsTrans (Channel cs) ReaderKept := ⟨fun _ _ _ h h' hv => h' (h hv)⟩

theorem SameInput.readerKept {c c' : Channel cs} (h : SameInput c c') : ReaderKept c c' :=
  fun hv => h.intake ▸ hv

theorem readerKept_writeRecord (P : Primitives cs) (record : ClientRecord cs) :
    Keeps ReaderKept (writeRecord P record) :=
  Keeps.get.bind fun _ => Keeps.onPart (R := fun _ _ => True) (fun _ => trivial) fun _ _ _ hv => hv

theorem readerKept_read (P : Primitives cs) : Keeps ReaderKept (read P) := by
  intro c hv
  have hends := RecordReader.fetch_ends hv
  cases hf : RecordReader.fetch c.intake with
  | error e i =>
      rw [read_of_fetch_error hf]
      exact (hends.error hf).2.2
  | ok f i =>
      rw [read_of_fetch hf]
      have hvalid := (hends.ok hf).2.2.2
      cases ServerRecord.decode P f.header f.body c.schedule.serverState.transcriptHash <;>
        exact hvalid

end Channel

namespace Opening

variable {P : Primitives cs} {pr : CryptoProvider π}

abbrev ReaderKept : Opening cs π → Opening cs π → Prop := Order.Preimage channel Channel.ReaderKept

theorem readerKept_onChannel {α : Type} {x : Channel.M cs α} (hx : Keeps Channel.ReaderKept x) :
    Keeps ReaderKept (onChannel x : M cs π α) := hx.onPart fun _ _ h => h

theorem readerKept_respond (tx : Bytes) :
    Keeps ReaderKept (onChannel (Channel.respond tx) : M cs π Unit) :=
  readerKept_onChannel fun c => (Channel.keeps_respond tx c).readerKept

theorem readerKept_processServerVerify (record : ServerRecord cs) :
    Keeps ReaderKept (processServerVerify P pr record) :=
  Keeps.onPart (R := fun _ _ => True) (fun _ => trivial) fun _ _ _ hv => hv

theorem readerKept_handleProcessingError {x : M cs π State} (hx : Keeps ReaderKept x) :
    Keeps ReaderKept (handleProcessingError P x) := by
  intro o
  have hkept := hx o
  cases hrun : x o with
  | ok state o' =>
      simp only [handleProcessingError, hrun]
      rwa [hrun] at hkept
  | error e o' =>
      obtain ⟨e', o'', herror, hsame⟩ := handleProcessingError_of_error (P := P) hrun
      rw [hrun] at hkept
      rw [herror]
      exact fun hv => Channel.SameInput.readerKept hsame (hkept hv)

theorem readerKept_onProvider {α : Type} (x : EStateM Stop π α) :
    Keeps ReaderKept (onProvider x : M cs π α) :=
  Keeps.onPart (R := fun _ _ => True) (fun _ => trivial) fun _ _ _ hv => hv

variable (P pr) in
theorem readerKept_clientCertVerify : Keeps ReaderKept (clientCertVerify P pr) := by
  intro o
  have hwrite : ∀ record, Keeps ReaderKept (onChannel (Channel.writeRecord P record) : M cs π Bytes) :=
    fun record => readerKept_onChannel (Channel.readerKept_writeRecord P record)
  simp only [clientCertVerify]
  cases pr.signer o.provider with
  | error e provider => exact ((hwrite _).bind fun _ => .pure _) { o with provider }
  | ok scheme provider =>
      refine Keeps.bind .get (fun _ => (readerKept_onProvider _).bind fun signature => ?_)
        { o with provider }
      split
      · exact .throw _
      · exact (hwrite _).bind fun _ => .pure _

variable (P) in
theorem readerKept_clientFinishedFinalize :
    Keeps ReaderKept (clientFinishedFinalize P : M cs π State) := by
  refine Keeps.get.bind fun o => ?_
  cases hhash : o.handshake.trafficHash with
  | none =>
      simp only [hhash]
      exact .throw _
  | some hash =>
      simp only [hhash]
      refine (Keeps.modify fun _ hv => hv).bind fun _ => (readerKept_onChannel ?_).bind fun _ => .pure _
      exact Keeps.onPart (R := fun _ _ => True) (fun _ => trivial) fun _ _ _ hv => hv

theorem readerKept_process (state : State) : Keeps ReaderKept (process P pr state) := by
  cases state with
  | serverVerify =>
      exact (readerKept_onChannel (Channel.readerKept_read P)).bind fun read =>
        readerKept_handleProcessingError (readerKept_processServerVerify read.2)
  | clientCert =>
      refine Keeps.bind ?_ fun result => (readerKept_respond _).bind fun _ => .pure _
      refine Keeps.bind (fun o hv => hv) fun _ => Keeps.get.bind fun o => ?_
      split
      · exact .throw _
      · exact (readerKept_onProvider _).bind fun _ =>
          (readerKept_onChannel (Channel.readerKept_writeRecord P _)).bind fun _ => .pure _
  | clientCertVerify =>
      exact (readerKept_clientCertVerify P pr).bind fun _ =>
        (readerKept_respond _).bind fun _ => .fromResult _
  | clientFinished =>
      refine (readerKept_onChannel ?_).bind fun tx => (readerKept_respond tx).bind fun _ => ?_
      · exact Keeps.get.bind fun _ => (Keeps.fromResult _).bind fun _ =>
          Channel.readerKept_writeRecord P _
      · exact readerKept_clientFinishedFinalize P
  | applicationData => exact .pure _

end Opening

namespace TlsConnection

/-- The cursors of the reader and the window lie inside the buffer. -/
structure Valid (c : TlsConnection cs) : Prop where
  reader : c.channel.intake.reader.Valid
  window : c.decrypted.offset + c.decrypted.len ≤ c.channel.intake.reader.buf.length

/-- The next record overruns the buffer or detonates. -/
def Explosive (P : Primitives cs) (c : TlsConnection cs) : Prop :=
  RecordReader.OverrunsNext c.channel.intake ∨
    ∃ f i, RecordReader.fetch c.channel.intake = .ok f i ∧
      Detonates P c.channel.schedule.serverState.state f

variable {P : Primitives cs} {c : TlsConnection cs}

theorem putHandling_valid {r : Reading cs Handling} (hreader : c.channel.intake.reader.Valid)
    (hr : r.captured.Within c.channel.intake.reader.buf.length) : (c.putHandling r).Valid := by
  obtain ⟨hsource, hwindow⟩ := hr
  simp only [RecordReader.Valid] at hreader
  constructor
  · simp only [putHandling, RecordReader.Valid]
    omega
  · simp only [putHandling]
    omega

theorem readApplicationData_ends (hc : c.Valid) :
    Ends (readApplicationData P c)
      (fun _ c' => ¬Explosive P c ∧ c'.Valid ∧ c'.channel.intake.size < c.channel.intake.size)
      fun e c' => (e = .panic ↔ Explosive P c) ∧ c'.Valid := by
  have hends := RecordReader.fetch_ends hc.reader
  cases hf : RecordReader.fetch c.channel.intake with
  | error e i =>
      obtain ⟨hpanic, hbuf, hvalid⟩ := hends.error hf
      rw [readApplicationData_of_fetch_error hf]
      exact ⟨by simp [Explosive, hf, hpanic], hvalid, hbuf ▸ hc.window⟩
  | ok f i =>
      obtain ⟨hover, hsize, hbuf, hvalid⟩ := hends.ok hf
      obtain ⟨hlen, hbody, -⟩ := RecordReader.fetch_eq_ok hf
      have hexplosive : Explosive P c ↔ Detonates P c.channel.schedule.serverState.state f := by
        simp [Explosive, hf, hover]
      have hwithin : (handling { c with channel.intake := i }).captured.Within i.reader.buf.length :=
        ⟨rfl, hbuf ▸ hc.window⟩
      rw [readApplicationData_of_fetch hf, hexplosive]
      refine .onPart ((received_ends hlen hwithin hbody).mono ?_ ?_)
      · rintro _ r ⟨hnot, hr⟩
        refine ⟨hnot, putHandling_valid hvalid hr, ?_⟩
        simp only [putHandling, Intake.size, RecordHeader.LEN] at hsize ⊢
        omega
      · rintro e r ⟨hpanic, hr⟩
        exact ⟨hpanic, putHandling_valid hvalid hr⟩

/-- A turn of the loop that takes a record without failing. -/
def Turn (P : Primitives cs) (c c' : TlsConnection cs) : Prop :=
  c.decrypted.isEmpty ∧ readApplicationData P c = .ok () c'

/-- Among the records the loop comes to there is an explosive one. -/
def Perilous (P : Primitives cs) (c : TlsConnection cs) : Prop :=
  ∃ c', Relation.ReflTransGen (Turn P) c c' ∧ c'.decrypted.isEmpty ∧ Explosive P c'

theorem not_perilous_iff : ¬Perilous P c ↔
    ∀ c', Relation.ReflTransGen (Turn P) c c' → c'.decrypted.isEmpty → ¬Explosive P c' := by
  simp only [Perilous, not_exists, not_and]

theorem perilous_iff : Perilous P c ↔ c.decrypted.isEmpty ∧
    (Explosive P c ∨ ∃ c', readApplicationData P c = .ok () c' ∧ Perilous P c') := by
  constructor
  · rintro ⟨c', hturns, hempty, hexplosive⟩
    rcases hturns.cases_head with rfl | ⟨c₁, ⟨hempty₁, hturn⟩, hturns⟩
    · exact ⟨hempty, .inl hexplosive⟩
    · exact ⟨hempty₁, .inr ⟨c₁, hturn, c', hturns, hempty, hexplosive⟩⟩
  · rintro ⟨hempty, hexplosive | ⟨c₁, hturn, c', hturns, hempty', hexplosive⟩⟩
    · exact ⟨c, .refl, hempty, hexplosive⟩
    · exact ⟨c', .head ⟨hempty, hturn⟩ hturns, hempty', hexplosive⟩

/-- The loop ends before it runs out of turns, and panics exactly at an explosive record. -/
theorem fillWindow_ends {n : Nat} (hc : c.Valid) (hn : c.channel.intake.size < n) :
    Ends (fillWindow P n c) (fun _ c' => ¬Perilous P c ∧ c'.Valid)
      fun e c' => (e = .panic ↔ Perilous P c) ∧ c'.Valid := by
  induction n generalizing c with
  | zero => omega
  | succ n ih =>
      simp only [fillWindow, get_bind_apply]
      split
      next hempty =>
        have hturn := readApplicationData_ends (P := P) hc
        refine .bind ?_
        cases hread : readApplicationData P c with
        | error e c' =>
            obtain ⟨hpanic, hvalid⟩ := hturn.error hread
            exact ⟨hpanic.trans (by simp [perilous_iff (c := c), hempty, hread]), hvalid⟩
        | ok u c' =>
            obtain ⟨hnot, hvalid, hsize⟩ := hturn.ok hread
            have hperil : Perilous P c ↔ Perilous P c' := by
              simp [perilous_iff (c := c), hempty, hread, hnot]
            simp only [hperil]
            exact ih hvalid (by omega)
      next hfull => exact ⟨fun h => hfull (perilous_iff.mp h).1, hc⟩

theorem createReadBuffer_of_valid (hc : c.Valid) : createReadBuffer c = .ok c.window c := by
  simp only [createReadBuffer, get_bind_apply, DecryptedBufferInfo.createReadBuffer, if_pos hc.window]
  rfl

theorem readBuffered_ends (hopen : c.opened) (hc : c.Valid) :
    Ends (readBuffered P c) (fun _ c' => ¬Perilous P c ∧ c'.Valid)
      fun e _ => e = .panic ↔ Perilous P c := by
  simp only [readBuffered, get_bind_apply, if_pos hopen]
  refine .bind ((fillWindow_ends hc (Nat.lt_succ_self _)).mono ?_ fun _ _ h => h.1)
  rintro _ c' ⟨hnot, hvalid⟩
  rw [createReadBuffer_of_valid hvalid]
  exact ⟨hnot, hvalid⟩

theorem readBuffered_panics_iff (hopen : c.opened) (hc : c.Valid) :
    outcome (readBuffered P c) = .error .panic ↔ Perilous P c :=
  ((readBuffered_ends hopen hc).mono (fun _ _ h => h.1) fun _ _ h => h).outcome_iff

theorem read_ends (hopen : c.opened) (hc : c.Valid) {n : Nat} (hn : n ≠ 0) :
    Ends (read P n c) (fun _ _ => ¬Perilous P c) fun e _ => e = .panic ↔ Perilous P c := by
  simp only [read, if_neg hn]
  refine .bind ((readBuffered_ends hopen hc).mono ?_ fun _ _ h => h)
  rintro _ c' ⟨hnot, hvalid⟩
  simp only [pop]
  rw [bind_of_ok (createReadBuffer_of_valid hvalid)]
  exact hnot

theorem SameInput.valid {c c' : TlsConnection cs} (h : SameInput c c') (hc : c.Valid) : c'.Valid :=
  ⟨h.channel.intake ▸ hc.reader, h.channel.intake ▸ h.decrypted ▸ hc.window⟩

theorem valid_of_default {c : TlsConnection cs} (hreader : c.channel.intake.reader.Valid)
    (h : c.decrypted = .default) : c.Valid :=
  ⟨hreader, h ▸ Nat.zero_le _⟩

end TlsConnection

section Run

open History

variable {P : Primitives cs} {pr : CryptoProvider π}

theorem Phase.step_valid {s : Phase cs π} (hs : s.connection.Valid) (call : Call) :
    (step P pr s call).2.connection.Valid := by
  cases s with
  | gone c => cases call <;> exact hs
  | opening o state flushPolicy =>
      cases call with
      | process =>
          have hkept := @Opening.readerKept_process _ _ P pr state o hs.reader
          simp only [step]
          cases hrun : o.process P pr state with
          | error e o' =>
              rw [hrun] at hkept
              rw [processed, leftBy_connection]
              exact TlsConnection.valid_of_default hkept rfl
          | ok state' o' =>
              rw [hrun] at hkept
              cases state' <;> exact TlsConnection.valid_of_default hkept rfl
      | turn => exact hs
      | peek => exact hs
      | pop count => exact hs
      | write buf => exact hs
      | flush => exact hs
      | close => exact hs
  | connected c =>
      have hc : c.Valid := hs
      cases call with
      | process => exact hs
      | turn =>
          simp only [step]
          split
          · rw [answered_connection]
            have hends := TlsConnection.readApplicationData_ends (P := P) hs
            cases hread : c.readApplicationData P with
            | ok u c' => exact (hends.ok hread).2.1
            | error e c' => exact (hends.error hread).2
          · exact hs
      | peek =>
          rw [step, answered_connection, TlsConnection.createReadBuffer_of_valid hc]
          exact hs
      | pop count =>
          have hpop : c.pop count = .ok _ { c with decrypted := c.decrypted.pop count } :=
            bind_of_ok (TlsConnection.createReadBuffer_of_valid hc)
          rw [step, answered_connection, hpop]
          exact ⟨hs.reader, hs.window⟩
      | write buf =>
          rw [step, answered_connection]
          exact (TlsConnection.keeps_write P buf c).valid hs
      | flush =>
          rw [step, answered_connection]
          exact (TlsConnection.keeps_flush P c).valid hs
      | close => exact (TlsConnection.keeps_closeInternal P c).valid hs

variable {o : Opening cs π} {state : State} {flushPolicy : FlushPolicy}

theorem run_valid (hreader : o.channel.intake.reader.Valid) {h : List (ClientEvent cs π)}
    {s : Phase cs π} (hr : Reaches (Phase.step P pr) (.opening o state flushPolicy) h s) :
    s.connection.Valid :=
  hr.invariant (fun _ s => s.connection.Valid) (TlsConnection.valid_of_default hreader rfl)
    fun _ _ call _ hs => Phase.step_valid hs call

theorem connected_valid (hreader : o.channel.intake.reader.Valid) {h : List (ClientEvent cs π)}
    {c : TlsConnection cs}
    (hr : Reaches (Phase.step P pr) (.opening o state flushPolicy) h (.connected c)) : c.Valid :=
  run_valid hreader hr

/-- On an open connection, `read_buffered` and `read` never panic, exactly when no record they
come to is explosive. -/
theorem reading_never_panics_iff (hreader : o.channel.intake.reader.Valid)
    {h : List (ClientEvent cs π)} {c : TlsConnection cs} (hopen : c.opened)
    (hr : Reaches (Phase.step P pr) (.opening o state flushPolicy) h (.connected c)) :
    (outcome (c.readBuffered P) ≠ .error .panic ∧ ∀ n, outcome (c.read P n) ≠ .error .panic) ↔
      ∀ c', Relation.ReflTransGen (TlsConnection.Turn P) c c' → c'.decrypted.isEmpty →
        ¬c'.Explosive P := by
  have hvalid := connected_valid hreader hr
  rw [ne_eq, TlsConnection.readBuffered_panics_iff hopen hvalid, ← TlsConnection.not_perilous_iff]
  refine ⟨fun h => h.1, fun hnot => ⟨hnot, fun n hpanic => ?_⟩⟩
  by_cases hn : n = 0
  · rw [TlsConnection.read, if_pos hn] at hpanic
    cases hpanic
  · exact hnot ((TlsConnection.read_ends hopen hvalid hn).outcome_iff.mp hpanic)

end Run

def Phase.isConnected : Phase cs π → Bool
  | connected _ => true
  | _ => false

theorem Phase.eq_connected {s : Phase cs π} (h : s.isConnected) : s = .connected s.connection := by
  cases s with
  | connected c => rfl
  | opening o state flushPolicy => cases h
  | gone c => cases h

namespace Peer

open History

/-- Two turns open the connection. -/
def connect (behind : Bytes) : List (ClientEvent Peer.cs Unit) × Phase Peer.cs Unit :=
  runAll (Phase.step suite (provider true))
    ([], .opening (opening (flight encryptedExtensions ++ behind)) .serverVerify .relaxed)
    [.process, .process]

def connection (behind : Bytes) : TlsConnection Peer.cs := (connect behind).2.connection

theorem connect_reaches {behind : Bytes} (h : (connect behind).2.isConnected) :
    Reaches (Phase.step suite (provider true))
      (.opening (opening (flight encryptedExtensions ++ behind)) .serverVerify .relaxed)
      (connect behind).1 (.connected (connection behind)) := by
  unfold connection
  rw [← Phase.eq_connected h]
  unfold connect
  exact runAll_reaches .nil _

/-- A protected record with nothing in it, not even a content type. -/
def hollow : Bytes :=
  let s := (connect []).2.readState
  let aad := additionalData Peer.cs.tagSize
  aad ++ (suite.aeadSeal s.key (KeyScheduleState.nonce s.counter s.iv) aad []).getD []

theorem greeting_opened : (connect greeting).2.isConnected ∧ (connection greeting).opened ∧
    outcome ((connection greeting).readBuffered suite) = .ok [104, 105] := by
  decide +kernel

theorem hollow_opened : (connect hollow).2.isConnected ∧ (connection hollow).opened ∧
    outcome ((connection hollow).readBuffered suite) = .error .panic := by
  decide +kernel

theorem extensions_opened :
    (connect (plain .handshake encryptedExtensions)).2.isConnected ∧
      (connection (plain .handshake encryptedExtensions)).opened ∧
      outcome ((connection (plain .handshake encryptedExtensions)).readBuffered suite) =
        .error .panic := by
  decide +kernel

theorem reader_valid (arriving : Bytes) : (opening arriving).channel.intake.reader.Valid :=
  Nat.zero_le _

end Peer

theorem greeting_never_panics :
    outcome ((Peer.connection Peer.greeting).readBuffered Peer.suite) = .ok [104, 105] ∧
      ∀ n, outcome ((Peer.connection Peer.greeting).read Peer.suite n) ≠ .error .panic := by
  obtain ⟨hconnected, hopened, hread⟩ := Peer.greeting_opened
  have hreaches := Peer.connect_reaches hconnected
  refine ⟨hread, ((reading_never_panics_iff (Peer.reader_valid _) hopened hreaches).mpr ?_).2⟩
  rw [← TlsConnection.not_perilous_iff,
    ← TlsConnection.readBuffered_panics_iff hopened (connected_valid (Peer.reader_valid _) hreaches),
    hread]
  nofun

/-- A protected record without content type, which needs the keys, and an unprotected
`EncryptedExtensions`, which needs nothing. -/
theorem open_connection_panics :
    ((∃ h, History.Reaches (Phase.step Peer.suite (Peer.provider true))
          (.opening (Peer.opening (Peer.flight Peer.encryptedExtensions ++ Peer.hollow))
            .serverVerify .relaxed) h (.connected (Peer.connection Peer.hollow))) ∧
        (Peer.connection Peer.hollow).opened ∧
        outcome ((Peer.connection Peer.hollow).readBuffered Peer.suite) = .error .panic) ∧
      (Peer.connection (Peer.plain .handshake Peer.encryptedExtensions)).opened ∧
      outcome ((Peer.connection (Peer.plain .handshake Peer.encryptedExtensions)).readBuffered
        Peer.suite) = .error .panic :=
  ⟨⟨⟨_, Peer.connect_reaches Peer.hollow_opened.1⟩, Peer.hollow_opened.2⟩, Peer.extensions_opened.2⟩

end GatoPskTls.Client
