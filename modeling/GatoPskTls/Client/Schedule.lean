import GatoPskTls.Client.Establishing

/-!
# The client's key schedule

Which messages the secrets of a handshake cover. The messages are those on the wire: the
client's in the order it sent them, the server's as they were read from its records.
-/
namespace GatoPskTls.Client

open Stateful BigEndian ParseBuffer

variable {cs : TlsCipherSuite} {π : Type} {C : P256}

def wireOf (messages : List (Heard cs)) : Bytes := messages.flatMap Prod.snd

/-- Nothing follows a Finished. -/
def FinishedLast (messages : List (Heard cs)) : Prop :=
  ∀ before m later, messages = before ++ m :: later → m.isFinished → later = []

theorem FinishedLast.split {messages : List (Heard cs)} (h : FinishedLast messages)
    (hany : messages.any Heard.isFinished) :
    ∃ before finished w, messages = before ++ [(.finished finished, w)] ∧
      before.any Heard.isFinished = false := by
  obtain ⟨m, hm, hfinished⟩ := List.any_eq_true.mp hany
  obtain ⟨before, later, rfl⟩ := List.append_of_mem hm
  obtain rfl := h before m later rfl hfinished
  obtain ⟨message, w⟩ := m
  cases message with
  | finished finished =>
      refine ⟨before, finished, w, rfl, ?_⟩
      rw [← Bool.not_eq_true, List.any_eq_true]
      rintro ⟨m', hm', hfinished'⟩
      obtain ⟨first, rest, rfl⟩ := List.append_of_mem hm'
      have hrest := h first m' (rest ++ [(.finished finished, w)]) (by simp) hfinished'
      exact List.append_ne_nil_of_right_ne_nil _ (List.cons_ne_nil _ _) hrest
  | serverHello hello => cases hfinished
  | encryptedExtensions => cases hfinished
  | newSessionTicket => cases hfinished
  | certificate certificate => cases hfinished
  | certificateRequest request => cases hfinished
  | certificateVerify verify => cases hfinished

def Heard.isRequest (m : Heard cs) : Bool := m.handshakeType == .certificateRequest

section Hearing

variable {P : Primitives cs} {pr : CryptoProvider π} {r r' : Reading cs (Verifying π)}

/-- Messages without a Finished: the keys are the same, the messages stand in the transcript,
and a CertificateRequest among them is remembered. -/
structure Quiet (messages : List (Heard cs)) (r r' : Reading cs (Verifying π)) : Prop where
  secret : r'.schedule.state.trafficSecret = r.schedule.state.trafficSecret
  transcript : r'.schedule.transcriptHash = r.schedule.transcriptHash ++ wireOf messages
  state : r'.captured.state = r.captured.state
  trafficHash : r'.captured.handshake.trafficHash = r.captured.handshake.trafficHash
  request : r'.captured.handshake.certificateRequest.isSome =
    (r.captured.handshake.certificateRequest.isSome || messages.any Heard.isRequest)

theorem Quiet.append {xs ys : List (Heard cs)} {r'' : Reading cs (Verifying π)}
    (h : Quiet xs r r') (h' : Quiet ys r' r'') : Quiet (xs ++ ys) r r'' where
  secret := h'.secret.trans h.secret
  transcript := by
    rw [h'.transcript, h.transcript, wireOf, wireOf, wireOf, List.flatMap_append, List.append_assoc]
  state := h'.state.trans h.state
  trafficHash := h'.trafficHash.trans h.trafficHash
  request := by rw [h'.request, h.request, List.any_append, Bool.or_assoc]

theorem Verifying.checkWith_keeps (pr : CryptoProvider π) (check : Check)
    (verify : EStateM Stop π Unit) :
    Keeps (fun v v' : Verifying π => v'.handshake = v.handshake ∧ v'.state = v.state)
      (checkWith pr check verify) := by
  intro v
  simp only [checkWith]
  split
  · exact ⟨rfl, rfl⟩
  · split
    · exact ⟨rfl, rfl⟩
    · exact ⟨rfl, rfl⟩

theorem verifyMessage_captured {message : ServerHandshake cs}
    (hquiet : message.handshakeType ≠ .finished) (h : verifyMessage P pr message r = .ok () r') :
    r'.captured.state = r.captured.state ∧
      r'.captured.handshake.trafficHash = r.captured.handshake.trafficHash ∧
      r'.captured.handshake.certificateRequest.isSome =
        (r.captured.handshake.certificateRequest.isSome ||
          message.handshakeType == .certificateRequest) := by
  cases message with
  | serverHello hello => cases h
  | newSessionTicket => cases h
  | finished finished => exact absurd rfl hquiet
  | encryptedExtensions =>
      cases h
      exact ⟨rfl, rfl, (Bool.or_false _).symm⟩
  | certificate certificate =>
      simp only [verifyMessage, get_bind_apply] at h
      obtain ⟨v, hv, rfl⟩ := onPart_eq_ok.mp h
      obtain ⟨hhandshake, hstate⟩ := (Verifying.checkWith_keeps pr _ _).ok hv
      rw [hhandshake]
      exact ⟨hstate, rfl, (Bool.or_false _).symm⟩
  | certificateVerify verify =>
      simp only [verifyMessage] at h
      obtain ⟨v, hv, rfl⟩ := onPart_eq_ok.mp h
      obtain ⟨hhandshake, hstate⟩ := (Verifying.checkWith_keeps pr _ _).ok hv
      rw [hhandshake]
      exact ⟨hstate, rfl, (Bool.or_false _).symm⟩
  | certificateRequest request =>
      simp only [verifyMessage] at h
      obtain ⟨v, hv, rfl⟩ := onPart_eq_ok.mp h
      obtain ⟨stored, v₁, hstored, hv⟩ := bind_eq_ok.mp hv
      obtain ⟨-, rfl⟩ := fromResult_eq_ok.mp hstored
      cases hv
      exact ⟨rfl, rfl, (Bool.or_true _).symm⟩

theorem verifyMessage_quiet {message : ServerHandshake cs} {w : Bytes}
    (hquiet : Heard.isFinished (message, w) = false)
    (h : verifyMessage P pr (message.withHash (P.hash r.schedule.transcriptHash))
      { r with schedule.transcriptHash := r.schedule.transcriptHash ++ w } = .ok () r') :
    Quiet [(message, w)] r r' := by
  have hsame : r'.schedule = { r.schedule with
      transcriptHash := r.schedule.transcriptHash ++ w } :=
    (keeps_verifyRecord P pr (.handshake _)).ok h
  have htype : (message.withHash (P.hash r.schedule.transcriptHash)).handshakeType ≠ .finished := by
    rw [ServerHandshake.handshakeType_withHash]
    exact ne_of_beq_false hquiet
  obtain ⟨hstate, hhash, hrequest⟩ := verifyMessage_captured htype h
  rw [ServerHandshake.handshakeType_withHash] at hrequest
  refine ⟨by rw [hsame], ?_, hstate, hhash, ?_⟩
  · rw [hsame, wireOf, List.flatMap_singleton]
  · rw [hrequest, List.any_cons, List.any_nil, Bool.or_false]
    rfl

theorem Hears.quiet {messages : List (Heard cs)} (hquiet : messages.any Heard.isFinished = false)
    (h : Hears P pr messages r r') : Quiet messages r r' := by
  induction h with
  | nil r => exact ⟨rfl, (List.append_nil _).symm, rfl, rfl, (Bool.or_false _).symm⟩
  | cons first rest ih =>
      rw [List.any_cons, Bool.or_eq_false_iff] at hquiet
      exact (verifyMessage_quiet hquiet.1 first).append (ih hquiet.2)

end Hearing

namespace Establishing

variable {P : Primitives cs} {pr : CryptoProvider π} {config : TlsConfig} {random : GenericArray 32}
  {secret : C.Secret} {e e' : Establishing cs π C}

/-- What the client sends before its Finished, on each of the three routes. -/
inductive Route (flight : List (Heard cs)) : List (ClientHandshake cs) → Prop
  | unasked (h : flight.any Heard.isRequest = false) : Route flight []
  | withoutCertificate (h : flight.any Heard.isRequest) (context : Bytes) :
      Route flight [.clientCert ⟨[], context, []⟩]
  | withCertificate (h : flight.any Heard.isRequest) (context : Bytes) (cert : CertificateEntryRef)
      (verify : CertificateVerify) :
      Route flight [.clientCert ⟨[], context, [cert]⟩, .clientCertVerify verify]

/-- The records of messages that are sent one after the other under one key. -/
def sealedAll (P : Primitives cs) :
    KeyScheduleState cs → List (ClientHandshake cs) → List (Option Bytes)
  | _, [] => []
  | s, message :: messages =>
      sealedRecord P s ((ClientRecordHeader.handshake true).plaintext message.wire) ::
        sealedAll P { s with counter := s.counter + 1 } messages

def replyWire (reply : List (ClientHandshake cs)) : Bytes := reply.flatMap ClientHandshake.wire

/-- The Finished that covers a transcript. -/
def finishedOf (P : Primitives cs) (secret : GenericArray cs.hashLen) (messages : Bytes) :
    ClientHandshake cs := .finished ⟨Rfc8446.finishedMac P secret messages, none⟩

/-- The client has sent its reply and its Finished, and has installed the keys that come from
the messages given. -/
structure Finishes (P : Primitives cs) (secret : GenericArray cs.hashLen)
    (reply : List (ClientHandshake cs)) (messages : Bytes) (c c' : Channel cs) : Prop where
  sent : ∃ entries : List (Sent cs), c'.outgoing.sent = entries.reverse ++ c.outgoing.sent ∧
    entries.map (fun entry => some entry.record) = sealedAll P c.writeState (reply ++
      [finishedOf P secret (c.schedule.serverState.transcriptHash ++ replyWire reply)])
  keys : ∃ ks : KeySchedule cs, ks.shared = c.schedule.shared ∧ ks.serverState.transcriptHash = messages ∧
    c'.schedule = Rfc8446.advance P (KeySchedule.zero cs) .clientApplicationTraffic
      .serverApplicationTraffic ks

theorem Finishes.cons {clientSecret : GenericArray cs.hashLen} {reply : List (ClientHandshake cs)}
    {message : ClientHandshake cs} {messages : Bytes} {c c' c'' : Channel cs}
    (hspeaks : Channel.Speaks P message c c')
    (h : Finishes P clientSecret reply messages c' c'') :
    Finishes P clientSecret (message :: reply) messages c c'' := by
  obtain ⟨entry, hentry, hsealed⟩ := hspeaks.sent
  obtain ⟨entries, hentries, hrecords⟩ := h.sent
  obtain ⟨ks, hshared, htranscript, hkeys⟩ := h.keys
  refine ⟨⟨entry :: entries, ?_, ?_⟩, ks, ?_, htranscript, hkeys⟩
  · rw [hentries, hentry, List.reverse_cons, List.append_assoc, List.singleton_append]
  · rw [List.map_cons, hrecords, List.cons_append, sealedAll, hsealed, Channel.writeState,
      hspeaks.schedule]
    simp only [replyWire, List.flatMap_cons, List.append_assoc]
  · rw [hshared, hspeaks.schedule]

section Reply

variable {n : Nat} {clientSecret : GenericArray cs.hashLen}
  (hidle : e.opening.channel.buffer.Idle)
  (hsecret : e.opening.channel.writeState.trafficSecret = .initialized clientSecret)
include hidle hsecret

end Reply

end Establishing

/-- The messages of a handshake, in the order of the transcript: the flight stands between
ServerHello and the server's Finished, the reply before the client's. -/
structure Messages (cs : TlsCipherSuite) where
  clientHello : Bytes
  serverHello : Bytes
  flight : List (Heard cs)
  serverFinished : Bytes
  reply : List (ClientHandshake cs)

namespace Messages

variable (m : Messages cs)

def hellos : Bytes := m.clientHello ++ m.serverHello

def beforeServerFinished : Bytes := m.hellos ++ wireOf m.flight

def throughServerFinished : Bytes := m.beforeServerFinished ++ m.serverFinished

def beforeClientFinished : Bytes := m.throughServerFinished ++ Establishing.replyWire m.reply

/-- A traffic secret of the handshake stage. -/
def handshakeTraffic (P : Primitives cs) (psk dhe : Bytes) (label : Label) : GenericArray cs.hashLen :=
  Rfc8446.deriveSecret P (Rfc8446.handshakeSecret P psk dhe) label m.hellos

/-- A traffic secret of the application stage. -/
def applicationTraffic (P : Primitives cs) (psk dhe : Bytes) (label : Label) :
    GenericArray cs.hashLen :=
  Rfc8446.deriveSecret P (Rfc8446.masterSecret P psk dhe) label m.throughServerFinished

end Messages

namespace Establishing

variable {P : Primitives cs} {pr : CryptoProvider π} {config : TlsConfig} {random : GenericArray 32}
  {secret : C.Secret} {e e' : Establishing cs π C}

/-- The messages are those that were sent and heard, and the secrets of the handshake are those
of RFC 8446 section 7.1 over them. `keyed` is the client behind the two hellos. -/
structure Conforms (P : Primitives cs) (config : TlsConfig) (random : GenericArray 32)
    (secret : C.Secret) (heard : List (Heard cs)) (e keyed e' : Establishing cs π C)
    (m : Messages cs) (psk dhe : Bytes) : Prop where
  clientHello : ∃ binders, m.clientHello =
    (⟨config, random, C.publicKey secret⟩ : ClientHello cs).finalized binders
  serverHello : ∃ f i hello rest, RecordReader.fetch e.opening.channel.intake = .ok f i ∧
    f.header.contentType = .handshake ∧
    (ServerHandshake.parse : Parser TlsError (ServerHandshake cs)) (new f.body) =
      .ok (.serverHello hello) rest ∧
    Reads (new f.body) m.serverHello rest ∧ calculateSharedSecret C hello secret = some dhe
  handshakeKeys :
    keyed.opening.channel.schedule.clientState.state =
      Rfc8446.freshState P (m.handshakeTraffic P psk dhe .clientHandshakeTraffic) ∧
    keyed.opening.channel.schedule.serverState.state =
      Rfc8446.freshState P (m.handshakeTraffic P psk dhe .serverHandshakeTraffic)
  serverFinished : ∃ finished : Finished cs,
    heard = m.flight ++ [(.finished finished, m.serverFinished)] ∧
    finished.verify = Rfc8446.finishedMac P
      (m.handshakeTraffic P psk dhe .serverHandshakeTraffic) m.beforeServerFinished
  route : Route m.flight m.reply
  sent : e'.opening.channel.outgoing.sent.reverse.map (fun entry => some entry.record) =
    some ((ClientRecordHeader.handshake false).bytes ++ sized 2 m.clientHello) ::
      sealedAll P
        (Rfc8446.freshState P (m.handshakeTraffic P psk dhe .clientHandshakeTraffic))
        (m.reply ++ [finishedOf P (m.handshakeTraffic P psk dhe .clientHandshakeTraffic)
          m.beforeClientFinished])
  applicationKeys :
    e'.opening.channel.schedule.clientState.state =
      Rfc8446.freshState P (m.applicationTraffic P psk dhe .clientApplicationTraffic) ∧
    e'.opening.channel.schedule.serverState.state =
      Rfc8446.freshState P (m.applicationTraffic P psk dhe .serverApplicationTraffic)

end Establishing

namespace Certified

open Peer

/-- The ClientHello of a client that offers no pre-shared key. -/
def greeting : ClientHello Peer.cs := ⟨Sample.config, ⟨List.replicate 32 5, rfl⟩, P256.basePoint⟩

/-- The key schedule behind the two hellos. -/
def keyed : KeySchedule Peer.cs :=
  Rfc8446.advance suite ((calculateSharedSecret .one offeredHello ()).getD []) .clientHandshakeTraffic
    .serverHandshakeTraffic { Rfc8446.early suite (KeySchedule.zero Peer.cs) .new with
      serverState.transcriptHash := greeting.finalized [] ++ Sample.offered }

/-- The server asks for a certificate. -/
def flight : Bytes := encryptedExtensions ++ [13, 0, 0, 3, 0, 0, 0]

def arriving : Bytes :=
  plain .handshake Sample.offered ++
    sealed keyed.serverState.state .handshake (flight ++ Peer.finished keyed flight)

def signing : CryptoProvider Unit where
  rsa := false
  verifier := pure ()
  verifyCertificate := fun _ _ => pure ()
  verifySignature := fun _ => pure ()
  clientCert := pure (some (.x509 [1, 2, 3]))
  signer := pure .ecdsaSecp256r1Sha256
  sign := fun _ => pure [4, 5]

def start : Establishing Peer.cs Unit .one where
  opening := ⟨⟨⟨.new (List.replicate 200 0), [.chunk arriving]⟩, ⟨[], []⟩,
    ⟨List.replicate 400 0, 0, none⟩, .new⟩, ⟨none, none⟩, (), []⟩
  secret := none

end Certified

end GatoPskTls.Client
