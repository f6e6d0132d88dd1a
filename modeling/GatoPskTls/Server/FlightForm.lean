import GatoPskTls.Server.Agreement

/-!
# Server: the form of the first flight

What a client finds in the bytes of a first flight, and what the output buffer has to do
with them: it has to be long enough, and nothing else.
-/
namespace GatoPskTls.Server

open GatoPskTls Stateful BigEndian ParseBuffer

variable {cs : TlsCipherSuite} {P : Primitives cs} {X : X25519} {config : TlsServerConfig}

/-- A record: type, legacy version, length field, body. -/
def recordOf (type : ContentType) (body : Bytes) : Bytes := [type.toU8, 0x03, 0x03] ++ sized 2 body

/-- What the length field of a record says. -/
def lengthField (record : Bytes) : Nat := fromBigEndian ((record.drop 3).take 2)

theorem recordOf_length (type : ContentType) (body : Bytes) :
    (recordOf type body).length = 5 + body.length := by
  rw [recordOf, List.length_append, sized_length, List.length_cons, List.length_cons,
    List.length_singleton]
  omega

theorem lengthField_recordOf (type : ContentType) {body : Bytes} (h : body.length < 256 ^ 2) :
    lengthField (recordOf type body) = body.length := by
  have := @lengthField_eq [type.toU8, 0x03, 0x03] body [] rfl h
  rwa [List.append_nil] at this

/-- Three records, the ServerHello in the clear and two protected ones, with what the
ServerHello has to say. -/
structure FlightForm (config : TlsServerConfig) (offer : Offer) (mode : KexMode)
    (hello ee fin flight : Bytes) : Prop where
  records : flight = recordOf .handshake ([HandshakeType.serverHello.toU8] ++ sized 3 hello) ++
    recordOf .applicationData ee ++ recordOf .applicationData fin
  lengths : flight.length =
    (5 + lengthField (recordOf .handshake ([HandshakeType.serverHello.toU8] ++ sized 3 hello))) +
      (5 + lengthField (recordOf .applicationData ee)) +
      (5 + lengthField (recordOf .applicationData fin))
  fields : ∃ extensions, hello = bigEndian 2 0x0303 ++ (config.serverRandom.val ++
    (sized 1 offer.hello.legacySessionId ++ (bigEndian 2 0x1301 ++ ([0] ++ extensions))))
  parsed : ∃ exts rest, ServerHello.parse (new hello) = .ok ⟨exts⟩ rest ∧
    (∀ v, .supportedVersions v ∈ exts ↔ v = ⟨TLS13⟩) ∧
    (∀ p, .preSharedKey p ∈ exts ↔ p = ⟨offer.selectedIdx⟩) ∧
    (∀ k, .keyShare k ∈ exts ↔ (∃ share, mode = .pskDheKe share) ∧
      ∃ dhe, config.dheKeypair = some dhe ∧ k = ⟨⟨.x25519, dhe.publicKey.val⟩⟩)
  identity : ∃ psk, preSharedKey offer.hello = some psk ∧
    psk.identities.findIdx? (· == config.pskIdentity) = some offer.selectedIdx

namespace Session

variable {s s' : Session cs} {msg out flight : Bytes}

namespace FirstFlight

variable (f : FirstFlight P X msg config s)

/-- The body of the ServerHello. -/
def hello : Bytes := (serverHello config f.offer.hello.legacySessionId f.exts).wire

theorem written_form (h : f.Written flight) :
    ∃ ee fin, FlightForm config f.offer f.mode f.hello ee fin flight := by
  have hlen := f.written_length h
  obtain ⟨ee, fin, -, -, rfl⟩ := h
  rw [protectedRecord_eq, protectedRecord_eq] at hlen ⊢
  have hsh : (5 + ([HandshakeType.serverHello.toU8] ++ sized 3 f.hello).length) +
      (5 + ee.length) + (5 + fin.length) ≤ 256 := by
    rw [← recordOf_length .handshake, ← recordOf_length .applicationData ee,
      ← recordOf_length .applicationData fin, ← List.length_append, ← List.length_append]
    exact hlen
  refine ⟨ee, fin, ?_⟩
  constructor
  · rfl
  · rw [lengthField_recordOf _ (by omega), lengthField_recordOf _ (by omega),
      lengthField_recordOf _ (by omega), ← recordOf_length .handshake,
      ← recordOf_length .applicationData, ← recordOf_length .applicationData,
      ← List.length_append, ← List.length_append]
    rfl
  · exact ⟨_, rfl⟩
  · exact ⟨f.exts, _, outcome_eq_ok f.takes_hello.outcome_new, serverHelloExtensions_mem f.extensions⟩
  · obtain ⟨-, -, -, -, -, hlocated⟩ := examine_eq_ok.mp f.examined
    obtain ⟨psk, hpsk, hfound, -⟩ := locateOurIdentity_found hlocated
    exact ⟨psk, hpsk, hfound⟩

/-- There is one way to write a flight. -/
theorem written_unique {flight' : Bytes} (h : f.Written flight) (h' : f.Written flight') :
    flight' = flight := by
  obtain ⟨ee, fin, hee, hfin, rfl⟩ := h
  obtain ⟨ee', fin', hee', hfin', rfl⟩ := h'
  cases hee.symm.trans hee'
  cases hfin.symm.trans hfin'
  rfl

/-- There is one first flight to a ClientHello. -/
theorem eq_of_same (f g : FirstFlight P X msg config s) : f = g := by
  obtain ⟨offer, mode, exts, ikm, hexamine, hb, hd, hexts, hikm⟩ := f
  obtain ⟨offer', mode', exts', ikm', hexamine', hb', hd', hexts', hikm'⟩ := g
  cases hexamine.symm.trans hexamine'
  cases hd.symm.trans hd'
  cases hexts.symm.trans hexts'
  cases hikm.symm.trans hikm'
  rfl

end FirstFlight

/-- A call that ends well in any buffer ends the same way in every buffer that is long enough. -/
theorem processClientHello_ok_iff (f : FirstFlight P X msg config s) (h : f.Written flight)
    {out : Bytes} {answer : HandshakeOutput} :
    processClientHello P X msg config out s = .ok answer s' ↔
      flight.length ≤ out.length ∧ answer = .firstFlight flight ∧ s' = f.session := by
  constructor
  · intro hrun
    cases answer with
    | firstFlight bytes =>
        obtain ⟨g, hg, hfit, rfl⟩ := processClientHello_firstFlight.mp hrun
        cases f.eq_of_same g
        cases f.written_unique h hg
        exact ⟨hfit, rfl, rfl⟩
    | helloRetryRequest bytes =>
        rw [processClientHello_prepared f.examined f.binder, f.decided] at hrun
        simp only [firstFlight, bind_eq_ok] at hrun
        obtain ⟨_, _, -, _, _, -, hrun⟩ := hrun
        cases hrun
  · rintro ⟨hfit, rfl, rfl⟩
    exact processClientHello_firstFlight.mpr ⟨f, h, hfit, rfl⟩

/-- Where some output buffer gets a first flight, its bytes have the form above, and every
other buffer gets the same bytes exactly when it has room for them. -/
theorem firstFlight_exact
    (h : processClientHello P X msg config out s = .ok (.firstFlight flight) s') :
    (∃ offer mode hello ee fin, examine msg config s.hrrState = .ok offer ∧
      offer.decision = .use mode ∧ FlightForm config offer mode hello ee fin flight) ∧
    (∀ out', (∃ answer s'', processClientHello P X msg config out' s = .ok answer s'') ↔
      flight.length ≤ out'.length) ∧
    (∀ out' answer s'', processClientHello P X msg config out' s = .ok answer s'' →
      answer = .firstFlight flight ∧ s'' = s') := by
  obtain ⟨f, hwritten, -, rfl⟩ := processClientHello_firstFlight.mp h
  obtain ⟨ee, fin, hform⟩ := f.written_form hwritten
  refine ⟨⟨f.offer, f.mode, f.hello, ee, fin, f.examined, f.decided, hform⟩, ?_, ?_⟩
  · intro out'
    constructor
    · rintro ⟨answer, s'', hrun⟩
      exact ((processClientHello_ok_iff f hwritten).mp hrun).1
    · intro hfit
      exact ⟨_, _, (processClientHello_ok_iff f hwritten).mpr ⟨hfit, rfl, rfl⟩⟩
  · intro out' answer s'' hrun
    exact ((processClientHello_ok_iff f hwritten).mp hrun).2

/-- A buffer one byte short of the flight that answered a retry. -/
theorem shortBuffer_gets_nothing :
    ¬∃ answer s'', processClientHello Peer.suite Peer.additive Peer.answering Peer.config
      (List.replicate (retriedFlight.length - 1) 0) retriedSession = .ok answer s'' := by
  intro hrun
  have hfit := ((firstFlight_exact flownSession_eq).2.1 _).mp hrun
  rw [List.length_replicate] at hfit
  have hpos : 0 < retriedFlight.length := by decide +kernel
  omega

end Session

end GatoPskTls.Server
