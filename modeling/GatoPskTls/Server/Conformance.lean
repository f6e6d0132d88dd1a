import GatoPskTls.Server.SessionSpec
import GatoPskTls.Server.Peer

/-!
# Server: the key schedule of a handshake

Along a handshake, direct or after a retry, the mutable schedule holds exactly the keys of
the TLS 1.3 key schedule over the messages on the wire.
-/
namespace GatoPskTls.Server

open GatoPskTls Stateful Rfc8446

variable {cs : TlsCipherSuite} {P : Primitives cs} {X : X25519} {config : TlsServerConfig}

namespace Session

/-- A session that is about to get the ClientHello it answers with a flight, and the
messages that stand before that ClientHello in the transcript. -/
inductive Opening (P : Primitives cs) (X : X25519) (config : TlsServerConfig) :
    Session cs → Bytes → Prop
  | fresh : Opening P X config new []
  | retried {ch1 out record : Bytes} {s : Session cs} :
      processClientHello P X ch1 config out new = .ok (.helloRetryRequest record) s →
      Opening P X config s (messageHash P ch1 ++ record.drop RECORD_HEADER_LEN)

theorem plaintextRecord_drop (message : Bytes) :
    (plaintextRecord message).drop RECORD_HEADER_LEN = message := by
  simp [plaintextRecord, BigEndian.sized, RECORD_HEADER_LEN]

/-- Whichever way the session got there: the early secret of the config's PSK. -/
theorem Opening.prepared_eq {s : Session cs} {before : Bytes} (h : Opening P X config s before) :
    (prepared P config s).schedule =
      withTranscript (early P config.pskSecret KeySchedule.new) before := by
  cases h with
  | fresh => rfl
  | retried hretry =>
      obtain ⟨r, rfl, -, rfl⟩ := processClientHello_retry.mp hretry
      rw [prepared_of_sent rfl, plaintextRecord_drop]
      rfl

theorem Opening.transcript_eq {s : Session cs} {before : Bytes} (h : Opening P X config s before) :
    s.schedule.serverState.transcriptHash = before := by
  rw [← @prepared_transcript _ P config, h.prepared_eq]
  rfl

theorem Opening.binderBase_eq {s : Session cs} {before : Bytes} (h : Opening P X config s before) :
    s.binderBase = before := by
  have htranscript := h.transcript_eq
  cases h with
  | fresh => rfl
  | retried hretry =>
      obtain ⟨r, -, -, rfl⟩ := processClientHello_retry.mp hretry
      exact htranscript

/-- The input of the handshake secret for a key exchange mode: the Diffie-Hellman result, or
a hash length of zeros. -/
def KexInput (cs : TlsCipherSuite) (X : X25519) (config : TlsServerConfig) : KexMode → Bytes → Prop
  | .pskKe, dhe => dhe = List.replicate cs.hashLen 0
  | .pskDheKe share, dhe => ∃ keypair, ∃ h : share.length = X25519_LEN,
      config.dheKeypair = some keypair ∧ dhe = (X.mult keypair.secret ⟨share, h⟩).val

theorem kexInput_of_sharedSecret {mode : KexMode} {ikm : Bytes}
    (h : sharedSecret cs X config mode = some ikm) : KexInput cs X config mode ikm := by
  cases mode with
  | pskKe => exact (Option.some.inj h).symm
  | pskDheKe share =>
      simp only [sharedSecret] at h
      split at h
      · cases h
      next keypair hkeypair =>
        split at h
        next hlen =>
          split at h
          · cases h
          · exact ⟨keypair, hlen, hkeypair, (Option.some.inj h).symm⟩
        · cases h

/-- The traffic secrets of the key schedule, given the PSK and the input of the handshake
secret, over the messages so far. -/
def handshakeTraffic (P : Primitives cs) (psk dhe : Bytes) (label : Label) (messages : Bytes) :
    GenericArray cs.hashLen :=
  deriveSecret P (handshakeSecret P psk dhe) label messages

def applicationTraffic (P : Primitives cs) (psk dhe : Bytes) (label : Label) (messages : Bytes) :
    GenericArray cs.hashLen :=
  deriveSecret P (masterSecret P psk dhe) label messages

/-- A handshake by the book: `t1` is the transcript up to the ClientHello that was answered
with `flight`; `s₁` is the session after the flight and `s₂` the session after the client's
Finished. Every direction starts an epoch with counter 0: the server has sealed two records
of its handshake epoch in `s₁`, and nothing else has been sealed or opened yet. -/
structure ByTheBook (P : Primitives cs) (psk dhe t1 flight : Bytes) (s₁ s₂ : Session cs) where
  sh : Bytes
  sf : Bytes
  sealedExtensions : Bytes
  sealedFinished : Bytes
  serverHello : ∃ body, sh = serverHelloMessage body
  onWire : flight =
    plaintextRecord sh ++ protectedRecord sealedExtensions ++ protectedRecord sealedFinished
  clientHandshake : s₁.schedule.clientState.state =
    freshState P (handshakeTraffic P psk dhe .clientHandshakeTraffic (t1 ++ sh))
  serverHandshake : s₁.schedule.serverState.state =
    { freshState P (handshakeTraffic P psk dhe .serverHandshakeTraffic (t1 ++ sh)) with counter := 2 }
  extensions : sealedWith P
    (freshState P (handshakeTraffic P psk dhe .serverHandshakeTraffic (t1 ++ sh)))
    encryptedExtensionsMessage .handshake = some sealedExtensions
  finished : sealedWith P
    { freshState P (handshakeTraffic P psk dhe .serverHandshakeTraffic (t1 ++ sh)) with counter := 1 }
    sf .handshake = some sealedFinished
  finishedMac : sf = finishedMessage (finishedMac P
    (handshakeTraffic P psk dhe .serverHandshakeTraffic (t1 ++ sh))
    (t1 ++ sh ++ encryptedExtensionsMessage))
  clientApplication : s₂.schedule.clientState.state =
    freshState P (applicationTraffic P psk dhe .clientApplicationTraffic
      (t1 ++ sh ++ encryptedExtensionsMessage ++ sf))
  serverApplication : s₂.schedule.serverState.state =
    freshState P (applicationTraffic P psk dhe .serverApplicationTraffic
      (t1 ++ sh ++ encryptedExtensionsMessage ++ sf))

section Flight

variable {s : Session cs} {before msg flight : Bytes} (f : FirstFlight P X msg config s)

theorem FirstFlight.keyed_eq (ho : Opening P X config s before) :
    f.keyed = handshakeStage P f.ikm
      (withTranscript (early P config.pskSecret KeySchedule.new) (before ++ msg ++ f.sh)) := by
  rw [FirstFlight.keyed, ho.prepared_eq]
  rfl

theorem FirstFlight.serverSecret_eq (ho : Opening P X config s before) :
    f.serverSecret = handshakeTraffic P config.pskSecret f.ikm .serverHandshakeTraffic
      (before ++ msg ++ f.sh) := by
  rw [FirstFlight.serverSecret, ho.prepared_eq, ho.transcript_eq]
  rfl

theorem FirstFlight.fin_eq (ho : Opening P X config s before) :
    f.fin = finishedMessage (finishedMac P
      (handshakeTraffic P config.pskSecret f.ikm .serverHandshakeTraffic (before ++ msg ++ f.sh))
      (before ++ msg ++ f.sh ++ encryptedExtensionsMessage)) := by
  rw [FirstFlight.fin, f.serverSecret_eq ho, FirstFlight.afterExtensions, f.keyed_eq ho]
  rfl

theorem FirstFlight.session_schedule (ho : Opening P X config s before) :
    f.session.schedule = bumpServer (absorb (bumpServer (absorb (handshakeStage P f.ikm
      (withTranscript (early P config.pskSecret KeySchedule.new) (before ++ msg ++ f.sh)))
        encryptedExtensionsMessage)) f.fin) := by
  rw [FirstFlight.session, FirstFlight.afterExtensions, f.keyed_eq ho]

end Flight

/-- The server's key schedule is the one of the specification, in every handshake it
completes. -/
theorem handshake_by_the_book {s s₁ s₂ : Session cs} {before msg out flight record : Bytes}
    (ho : Opening P X config s before)
    (hflight : processClientHello P X msg config out s = .ok (.firstFlight flight) s₁)
    (hfinished : processClientFinished P record s₁ = .ok () s₂) :
    ∃ hello mode dhe, parseClientHello msg = .ok hello ∧
      decideKex hello config s.hrrState.sent = .ok (.use mode) ∧ KexInput cs X config mode dhe ∧
      Nonempty (ByTheBook P config.pskSecret dhe (before ++ msg) flight s₁ s₂) := by
  obtain ⟨f, ⟨ee, fin, hee, hfin, hbytes⟩, -, rfl⟩ := processClientHello_firstFlight.mp hflight
  obtain ⟨g, rfl⟩ := processClientFinished_eq_ok.mp hfinished
  obtain ⟨hparse, -, -, -, hkex, -⟩ := examine_eq_ok.mp f.examined
  rw [f.decided] at hkex
  have hschedule := f.session_schedule ho
  rw [f.keyed_eq ho] at hee
  rw [FirstFlight.afterExtensions, f.keyed_eq ho] at hfin
  refine ⟨f.offer.hello, f.mode, f.ikm, hparse, hkex, kexInput_of_sharedSecret f.shared, ⟨{
    sh := f.sh
    sf := f.fin
    sealedExtensions := ee
    sealedFinished := fin
    serverHello := ⟨_, rfl⟩
    onWire := hbytes
    clientHandshake := by rw [hschedule]; rfl
    serverHandshake := by rw [hschedule]; rfl
    extensions := hee
    finished := hfin
    finishedMac := f.fin_eq ho
    clientApplication := ?_
    serverApplication := ?_ }⟩⟩
  · simp only [ClientFinished.schedule, hschedule]
    rfl
  · simp only [ClientFinished.schedule, hschedule]
    rfl

/-- The session after the retry, after the flight, and after the client's Finished. -/
def retriedSession : Session .aes128GcmSha256 :=
  after (processClientHello Peer.suite Peer.additive Peer.shareless Peer.config Peer.room new)

def flownSession : Session .aes128GcmSha256 :=
  after (processClientHello Peer.suite Peer.additive Peer.answering Peer.config Peer.room
    retriedSession)

def finishedSession : Session .aes128GcmSha256 :=
  after (processClientFinished Peer.suite (Peer.finishing flownSession.schedule) flownSession)

/-- The flight that answers the second ClientHello. -/
def retriedFlight : Bytes :=
  ((outcome (processClientHello Peer.suite Peer.additive Peer.answering Peer.config Peer.room
    retriedSession)).toOption.map HandshakeOutput.bytes).getD []

theorem retriedSession_eq :
    processClientHello Peer.suite Peer.additive Peer.shareless Peer.config Peer.room new =
      .ok (.helloRetryRequest Peer.retryRecord) retriedSession := by decide +kernel

theorem flownSession_eq :
    processClientHello Peer.suite Peer.additive Peer.answering Peer.config Peer.room retriedSession =
      .ok (.firstFlight retriedFlight) flownSession := by decide +kernel

theorem finishedSession_eq :
    processClientFinished Peer.suite (Peer.finishing flownSession.schedule) flownSession =
      .ok () finishedSession := by decide +kernel

theorem retried_handshake_by_the_book :
    ∃ dhe, Nonempty (ByTheBook Peer.suite Peer.config.pskSecret dhe
      (messageHash Peer.suite Peer.shareless ++ Peer.retryRecord.drop RECORD_HEADER_LEN ++
        Peer.answering) retriedFlight flownSession finishedSession) := by
  obtain ⟨_, _, dhe, -, -, -, h⟩ :=
    handshake_by_the_book (.retried retriedSession_eq) flownSession_eq finishedSession_eq
  exact ⟨dhe, h⟩

end Session

end GatoPskTls.Server
