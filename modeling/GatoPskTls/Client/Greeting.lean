import GatoPskTls.Rfc8446
import GatoPskTls.SentRecord
import GatoPskTls.Client.Connection

/-!
# The two hellos

The first states of the client: it sends its ClientHello and takes what the server answers.
Nothing of the answer is compared with what was offered but the key share, which has to be a
point of the curve.
-/
namespace GatoPskTls.Client

open Stateful BigEndian ParseBuffer

variable {cs : TlsCipherSuite}

/-- What the client uses of the curve P-256. -/
structure P256 where
  Secret : Type
  Point : Type
  publicKey : Secret → GenericArray 65
  fromSec1Bytes : Bytes → Option Point
  diffieHellman : Secret → Point → Bytes

variable {C : P256}

/-- The ephemeral secret is kept from the ClientHello to the ServerHello. -/
structure Greeting (cs : TlsCipherSuite) (C : P256) where
  schedule : KeySchedule cs
  buffer : WriteBuffer
  secret : Option C.Secret

namespace Greeting

abbrev M (cs : TlsCipherSuite) (C : P256) := EStateM Stop (Greeting cs C)

def onSchedule {α : Type} (x : KeySchedule.M cs α) : M cs C α :=
  onPart (·.schedule) (fun g schedule => { g with schedule }) x

def onTranscript {α : Type} (x : EStateM Stop Bytes α) : M cs C α :=
  onPart (·.schedule.serverState.transcriptHash)
    (fun g transcript => { g with schedule.serverState.transcriptHash := transcript }) x

/-- `write_record` with both halves of the key schedule. -/
def writeRecord (P : Primitives cs) (record : SentRecord cs) : M cs C Bytes := fun g =>
  onPart (fun g => (⟨g.buffer, some g.schedule.serverState.transcriptHash⟩ : RecordWriter))
    (fun g o => { g with
      buffer := o.buffer
      schedule.serverState.transcriptHash :=
        o.transcript.getD g.schedule.serverState.transcriptHash })
    (RecordWriter.writeRecord P g.schedule.clientState record) g

/-- `random` and `secret` are what the random number generator gave. -/
def clientHello (P : Primitives cs) (config : TlsConfig) (random : GenericArray 32)
    (secret : C.Secret) : M cs C Bytes := do
  onSchedule (KeySchedule.initializeEarlySecret P (config.psk.map Prod.fst))
  let slice ← writeRecord P (.clientHello ⟨config, random, C.publicKey secret⟩ false)
  modify fun g => { g with secret := some secret }
  return slice

end Greeting

def calculateSharedSecret (C : P256) (hello : ServerHello) (secret : C.Secret) : Option Bytes := do
  let serverKeyShare ← hello.keyShare
  let serverPublicKey ← C.fromSec1Bytes serverKeyShare.opaqueBytes
  return C.diffieHellman secret serverPublicKey

/-- The secret is taken, whatever becomes of the key share. -/
def Greeting.processServerHello (P : Primitives cs) : ServerRecord cs → Greeting.M cs C State
  | .handshake (.serverHello hello) => do
      let g ← get
      set ({ g with secret := none } : Greeting cs C)
      match g.secret with
      | none => throw (.err .invalidHandshake)
      | some secret =>
          match calculateSharedSecret C hello secret with
          | none => throw (.err .invalidKeyShare)
          | some shared => do
              Greeting.onSchedule (KeySchedule.initializeHandshakeSecret P shared)
              return .serverVerify
  | .handshake _ => throw (.err .invalidHandshake)
  | .alert alert => throw (.err (.handshakeAborted alert.level alert.description))
  | _ => throw (.err .invalidRecord)

/-- The next record is decoded and processed. -/
def Greeting.receive (P : Primitives cs) (header : RecordHeader) (data : Bytes) :
    Greeting.M cs C State := do
  let record ← Greeting.onTranscript (ServerRecord.decode P header data)
  Greeting.processServerHello P record

/-- The first key share is a point of the curve. -/
def UsableKeyShare (C : P256) (hello : ServerHello) : Prop :=
  ∃ entry, hello.keyShare = some entry ∧ (C.fromSec1Bytes entry.opaqueBytes).isSome

theorem calculateSharedSecret_isSome {hello : ServerHello} {secret : C.Secret} :
    (calculateSharedSecret C hello secret).isSome ↔ UsableKeyShare C hello := by
  cases hshare : hello.keyShare with
  | none => simp [calculateSharedSecret, UsableKeyShare, hshare]
  | some entry =>
      cases hpoint : C.fromSec1Bytes entry.opaqueBytes with
      | none => simp [calculateSharedSecret, UsableKeyShare, hshare, hpoint]
      | some point => simp [calculateSharedSecret, UsableKeyShare, hshare, hpoint]

/-- The handshake secrets are derived from the shared secret. -/
theorem Greeting.processServerHello_of_shared {P : Primitives cs} {hello : ServerHello}
    {g : Greeting cs C} {secret : C.Secret} {shared : Bytes} (hsecret : g.secret = some secret)
    (hshared : calculateSharedSecret C hello secret = some shared) :
    processServerHello P (.handshake (.serverHello hello)) g =
      .ok .serverVerify ⟨Rfc8446.advance P shared .clientHandshakeTraffic .serverHandshakeTraffic
        g.schedule, g.buffer, none⟩ := by
  let taken : Greeting cs C := { g with secret := none }
  have hinit : onSchedule (KeySchedule.initializeHandshakeSecret P shared) taken =
      .ok () ⟨Rfc8446.advance P shared .clientHandshakeTraffic .serverHandshakeTraffic g.schedule,
        g.buffer, none⟩ :=
    onPart_of_ok (KeySchedule.initializeHandshakeSecret_eq P shared g.schedule)
  simp only [processServerHello, get_bind_apply, set_bind_apply, hsecret, hshared]
  exact bind_of_ok hinit

theorem Greeting.processServerHello_ok_iff {P : Primitives cs} {hello : ServerHello}
    {g : Greeting cs C} :
    (∃ g', processServerHello P (.handshake (.serverHello hello)) g = .ok .serverVerify g') ↔
      g.secret.isSome ∧ UsableKeyShare C hello := by
  cases hsecret : g.secret with
  | none => simp [processServerHello, hsecret]
  | some secret =>
      rw [← @calculateSharedSecret_isSome _ _ secret]
      cases hshared : calculateSharedSecret C hello secret with
      | none => simp [processServerHello, hsecret, hshared]
      | some shared => simp [processServerHello_of_shared hsecret hshared]

/-- A message that is a ServerHello, in a record of its own. -/
structure CarriesServerHello (cs : TlsCipherSuite) (header : RecordHeader) (message : Bytes)
    (hello : ServerHello) : Prop where
  contentType : header.contentType = .handshake
  length : message.length = header.contentLength
  parsed : ∃ b', (ServerHandshake.parse : Parser TlsError (ServerHandshake cs)) (new message) =
    .ok (.serverHello hello) b'

theorem CarriesServerHello.decode {P : Primitives cs} {header : RecordHeader} {message : Bytes}
    {hello : ServerHello} (h : CarriesServerHello cs header message hello) (t : Bytes) :
    ∃ t', ServerRecord.decode P header message t = .ok (.handshake (.serverHello hello)) t' := by
  obtain ⟨b', hparse⟩ := h.parsed
  obtain ⟨m, t', hread⟩ := @ServerHandshake.read_of_parse _ P t _ _ _ hparse
  obtain ⟨parsed, hparsed, rfl⟩ := ServerHandshake.read_parse hread
  cases hparsed.symm.trans hparse
  have hrecord : ServerRecord.parsed (ServerHandshake.read P t) message =
      .ok (.serverHello hello, t') := ServerRecord.parsed_eq_ok.mpr ⟨b', hread⟩
  refine ⟨t', ?_⟩
  rw [ServerRecord.decode_eq h.length, h.contentType]
  simp only [hrecord]

/-- A ServerHello is accepted for its key share alone. -/
theorem Greeting.receive_ok_iff {P : Primitives cs} {header : RecordHeader} {message : Bytes}
    {hello : ServerHello} (h : CarriesServerHello cs header message hello) {g : Greeting cs C} :
    (∃ g', receive P header message g = .ok .serverVerify g') ↔
      g.secret.isSome ∧ UsableKeyShare C hello := by
  obtain ⟨t', hdecode⟩ := @CarriesServerHello.decode _ P _ _ _ h
    g.schedule.serverState.transcriptHash
  have hrecord : onTranscript (ServerRecord.decode P header message) g =
      .ok (.handshake (.serverHello hello))
        { g with schedule.serverState.transcriptHash := t' } := onPart_of_ok hdecode
  simp only [receive]
  rw [bind_of_ok hrecord]
  exact processServerHello_ok_iff

/-- The session id a ServerHello echoes. -/
def echoedSessionId (message : Bytes) : Bytes := takeSized 1 (message.drop 38)

/-- The cipher suite a ServerHello selects. -/
def selectedSuite (message : Bytes) : Nat :=
  fromBigEndian ((dropSized 1 (message.drop 38)).take 2)

/-- A ServerHello keeps to the ClientHello of this configuration. -/
structure WithinOffer (cs : TlsCipherSuite) (config : TlsConfig) (message : Bytes)
    (hello : ServerHello) : Prop where
  suite : selectedSuite message = cs.codePoint
  sessionId : echoedSessionId message = []
  version : .supportedVersions ⟨TLS13⟩ ∈ hello.extensions
  keyShare : ∃ share, .keyShare ⟨⟨.secp256r1, share⟩⟩ ∈ hello.extensions
  identity : ∀ psk, .preSharedKey psk ∈ hello.extensions →
    psk.selectedIdentity < config.identities.length

/-- A client that has sent its ClientHello accepts only what it has offered exactly when the
server keeps to the offer wherever its key share can be used. -/
theorem Greeting.accepts_only_offered_iff {P : Primitives cs} {config : TlsConfig}
    {header : RecordHeader} {message : Bytes} {hello : ServerHello}
    (h : CarriesServerHello cs header message hello) {g : Greeting cs C}
    (hsent : g.secret.isSome) :
    ((∃ g', receive P header message g = .ok .serverVerify g') →
        WithinOffer cs config message hello) ↔
      (UsableKeyShare C hello → WithinOffer cs config message hello) := by
  rw [receive_ok_iff h, and_iff_right hsent]

namespace P256

def prime : Nat := 2 ^ 256 - 2 ^ 224 + 2 ^ 192 + 2 ^ 96 - 1

def coefficient : Nat := 0x5ac635d8aa3a93e7b3ebbd55769886bc651d06b0cc53b0f63bce3c3e27d2604b

/-- An uncompressed point that satisfies the equation of the curve. -/
def affine (bytes : Bytes) : Option (Nat × Nat) :=
  let x := fromBigEndian ((bytes.drop 1).take 32)
  let y := fromBigEndian (bytes.drop 33)
  if bytes.length = 65 ∧ bytes.head? = some 4 ∧ x < prime ∧ y < prime ∧
      (y * y + 3 * x) % prime = (x * x * x + coefficient) % prime then some (x, y)
  else none

/-- The base point. -/
def basePoint : GenericArray 65 :=
  ⟨4 :: (bigEndian 32 0x6b17d1f2e12c4247f8bce6e563a440f277037d812deb33a0f4a13945d898c296 ++
    bigEndian 32 0x4fe342e2fe1a7f9b8ee7eb4a7c0f9e162bce33576b315ececbb6406837bf51f5), by simp⟩

/-- The curve for a client whose secret scalar is one. -/
def one : P256 where
  Secret := Unit
  Point := Nat × Nat
  publicKey _ := basePoint
  fromSec1Bytes := affine
  diffieHellman _ point := bigEndian 32 point.1

end P256

namespace Sample

def serverHello (sessionId : Bytes) (suite : Nat) (extensions : Bytes) : Bytes :=
  2 :: sized 3 ([3, 3] ++ (List.replicate 32 9 ++ (sized 1 sessionId ++ (bigEndian 2 suite ++
    (0 :: sized 2 extensions)))))

def keyShareOf (group : NamedGroup) : Bytes :=
  bigEndian 2 51 ++ sized 2 (bigEndian 2 group.asU16 ++ sized 2 P256.basePoint.val)

/-- Another suite, a session id, no version, a key share said to be of X25519, and the eighth
identity. -/
def foreign : Bytes :=
  serverHello [1] 0x1302 (keyShareOf .x25519 ++ (bigEndian 2 41 ++ sized 2 (bigEndian 2 7)))

/-- An answer that keeps to the offer. -/
def offered : Bytes :=
  serverHello [] 0x1301 (keyShareOf .secp256r1 ++ (bigEndian 2 43 ++ sized 2 (bigEndian 2 0x304)))

def config : TlsConfig :=
  ⟨none, none, none, [], [], none, by decide, by decide, TlsConfig.identities_none⟩

/-- A client that has sent its ClientHello. -/
def greeted : Greeting .aes128GcmSha256 .one := ⟨.new, ⟨List.replicate 256 0, 0, none⟩, some ()⟩

/-- The header of a handshake record. -/
def headerOf (message : Bytes) : RecordHeader :=
  ⟨⟨[22, 3, 3] ++ bigEndian 2 message.length, by simp⟩, .handshake, rfl⟩

def foreignHello : ServerHello :=
  ⟨[.keyShare ⟨⟨.x25519, P256.basePoint.val⟩⟩, .preSharedKey ⟨7⟩]⟩

end Sample

open Sample

theorem carries_of_parse {header : RecordHeader} {message : Bytes} {hello : ServerHello}
    (hcontent : header.contentType = .handshake) (hlength : message.length = header.contentLength)
    (hparse : outcome ((ServerHandshake.parse : Parser TlsError (ServerHandshake cs))
      (new message)) = .ok (.serverHello hello)) : CarriesServerHello cs header message hello :=
  ⟨hcontent, hlength, _, outcome_eq_ok hparse⟩

/-- The client goes on with a server that has chosen nothing of what it was offered. -/
theorem foreign_serverHello_accepted :
    let header := headerOf foreign
    CarriesServerHello .aes128GcmSha256 header foreign foreignHello ∧
    (∃ g', Greeting.receive (.checksumming .aes128GcmSha256) header foreign greeted =
      .ok .serverVerify g') ∧
    selectedSuite foreign ≠ TlsCipherSuite.aes128GcmSha256.codePoint ∧
    echoedSessionId foreign ≠ [] ∧
    (∀ version, .supportedVersions version ∉ foreignHello.extensions) ∧
    (∀ share, .keyShare ⟨⟨.secp256r1, share⟩⟩ ∉ foreignHello.extensions) ∧
    ¬WithinOffer .aes128GcmSha256 config foreign foreignHello := by
  intro header
  have hcarries : CarriesServerHello .aes128GcmSha256 header foreign foreignHello :=
    carries_of_parse rfl (by decide +kernel) (by decide +kernel)
  have hsuite : selectedSuite foreign ≠ TlsCipherSuite.aes128GcmSha256.codePoint := by
    decide +kernel
  refine ⟨hcarries, (Greeting.receive_ok_iff hcarries).mpr ⟨rfl, _, rfl, by decide +kernel⟩, hsuite,
    by decide +kernel, by simp [foreignHello], by simp [foreignHello],
    fun hwithin => hsuite hwithin.suite⟩

def offeredHello : ServerHello :=
  ⟨[.keyShare ⟨⟨.secp256r1, P256.basePoint.val⟩⟩, .supportedVersions ⟨TLS13⟩]⟩

theorem offered_serverHello_accepted :
    let header := headerOf offered
    CarriesServerHello .aes128GcmSha256 header offered offeredHello ∧
    ((∃ g', Greeting.receive (.checksumming .aes128GcmSha256) header offered greeted =
      .ok .serverVerify g') → WithinOffer .aes128GcmSha256 config offered offeredHello) := by
  intro header
  have hcarries : CarriesServerHello .aes128GcmSha256 header offered offeredHello :=
    carries_of_parse rfl (by decide +kernel) (by decide +kernel)
  refine ⟨hcarries, (Greeting.accepts_only_offered_iff hcarries rfl).mpr fun _ => ?_⟩
  exact ⟨by decide +kernel, by decide +kernel, by simp [offeredHello],
    ⟨P256.basePoint.val, by simp [offeredHello]⟩, by simp [offeredHello]⟩

end GatoPskTls.Client
