import GatoPskTls.ServerHello

/-!
# Server handshake messages

The messages a client reads after its ClientHello. A message is parsed by the parser of
its type, whatever its length field says, and the bytes that parser went over are fed to
the transcript.
-/
namespace GatoPskTls

open Stateful BigEndian ParseBuffer

inductive EncryptedExtensionsExtension
  | serverName (data : ServerNameResponse)
  | maxFragmentLength (data : MaxFragmentLength)
  | supportedGroups (data : SupportedGroups)
  | useSrtp (data : Unimplemented)
  | heartbeat (data : Unimplemented)
  | applicationLayerProtocolNegotiation (data : AlpnProtocolNameList)
  | clientCertificateType (data : Unimplemented)
  | serverCertificateType (data : Unimplemented)
  | earlyData (data : Unimplemented)

def EncryptedExtensionsExtension.group : ExtensionGroup EncryptedExtensionsExtension
  | .serverName => some (return serverName (← ServerNameResponse.parse))
  | .maxFragmentLength => some (return maxFragmentLength (← MaxFragmentLength.parse))
  | .supportedGroups => some (return supportedGroups (← SupportedGroups.parse 13))
  | .useSrtp => some (return useSrtp (← Unimplemented.parse))
  | .heartbeat => some (return heartbeat (← Unimplemented.parse))
  | .applicationLayerProtocolNegotiation =>
      some (return applicationLayerProtocolNegotiation (← AlpnProtocolNameList.parse))
  | .clientCertificateType => some (return clientCertificateType (← Unimplemented.parse))
  | .serverCertificateType => some (return serverCertificateType (← Unimplemented.parse))
  | .earlyData => some (return earlyData (← Unimplemented.parse))
  | _ => none

inductive CertificateRequestExtension
  | statusRequest (data : Unimplemented)
  | signatureAlgorithms (data : SignatureAlgorithms)
  | signedCertificateTimestamp (data : Unimplemented)
  | certificateAuthorities (data : Unimplemented)
  | oidFilters (data : Unimplemented)
  | signatureAlgorithmsCert (data : Unimplemented)
  | compressCertificate (data : Unimplemented)

def CertificateRequestExtension.group : ExtensionGroup CertificateRequestExtension
  | .statusRequest => some (return statusRequest (← Unimplemented.parse))
  | .signatureAlgorithms => some (return signatureAlgorithms (← SignatureAlgorithms.parse 25))
  | .signedCertificateTimestamp => some (return signedCertificateTimestamp (← Unimplemented.parse))
  | .certificateAuthorities => some (return certificateAuthorities (← Unimplemented.parse))
  | .oidFilters => some (return oidFilters (← Unimplemented.parse))
  | .signatureAlgorithmsCert => some (return signatureAlgorithmsCert (← Unimplemented.parse))
  | .compressCertificate => some (return compressCertificate (← Unimplemented.parse))
  | _ => none

inductive CertificateExtension
  | statusRequest (data : Unimplemented)
  | signedCertificateTimestamp (data : Unimplemented)

def CertificateExtension.group : ExtensionGroup CertificateExtension
  | .statusRequest => some (return statusRequest (← Unimplemented.parse))
  | .signedCertificateTimestamp => some (return signedCertificateTimestamp (← Unimplemented.parse))
  | _ => none

inductive NewSessionTicketExtension
  | earlyData (data : Unimplemented)

def NewSessionTicketExtension.group : ExtensionGroup NewSessionTicketExtension
  | .earlyData => some (return earlyData (← Unimplemented.parse))
  | _ => none

/-- The extensions are read and dropped. -/
def EncryptedExtensions.parse : Parser TlsError Unit := do
  let _ ← EncryptedExtensionsExtension.group.parseVector 16

/-- Lifetime, age, nonce, ticket and extensions are read and dropped. -/
def NewSessionTicket.parse : Parser TlsError Unit := do
  let _ ← mapError TlsError.parseError readU32
  let _ ← mapError TlsError.parseError readU32
  let nonceLength ← mapError TlsError.parseError readU8
  let _ ← mapError (fun _ => TlsError.invalidNonceLength) (slice nonceLength.toNat)
  let ticketLength ← mapError TlsError.parseError readU16
  let _ ← mapError (fun _ => TlsError.invalidTicketLength) (slice ticketLength)
  let _ ← NewSessionTicketExtension.group.parseVector 1

inductive CertificateEntryRef
  | x509 (data : Bytes)
  | rawPublicKey (data : Bytes)
  deriving DecidableEq, Repr

namespace CertificateEntryRef

def parse : Parser TlsError CertificateEntryRef := do
  let entryLen ← mapError (fun _ => TlsError.invalidCertificateEntry) readU24
  let cert ← mapError (fun _ => TlsError.invalidCertificateEntry) (slice entryLen)
  let _ ← CertificateExtension.group.parseVector 2
  return x509 cert.buffer

def parseVector (N : Nat) : Parser TlsError (List CertificateEntryRef) := do
  let data ← get
  whileNotEmpty (fun entries => do pushWithin N .decodeError entries (← parse)) data.remaining []

end CertificateEntryRef

structure CertificateRef where
  rawEntries : Bytes
  requestContext : Bytes
  entries : List CertificateEntryRef
  deriving DecidableEq, Repr

def CertificateRef.parse : Parser TlsError CertificateRef := do
  let invalid : ParseError → TlsError := fun _ => .invalidCertificate
  let requestContextLen ← mapError invalid readU8
  let requestContext ← mapError invalid (slice requestContextLen.toNat)
  let entriesLen ← mapError invalid readU24
  let rawEntries ← mapError invalid (slice entriesLen)
  let entries ← within rawEntries (CertificateEntryRef.parseVector 16)
  return { rawEntries := rawEntries.buffer, requestContext := requestContext.buffer, entries }

structure CertificateRequestRef where
  requestContext : Bytes
  deriving DecidableEq, Repr

def CertificateRequestRef.parse : Parser TlsError CertificateRequestRef := do
  let invalid : ParseError → TlsError := fun _ => .invalidCertificateRequest
  let requestContextLen ← mapError invalid readU8
  let requestContext ← mapError invalid (slice requestContextLen.toNat)
  let _ ← CertificateRequestExtension.group.parseVector 6
  return ⟨requestContext.buffer⟩

structure CertificateVerifyRef where
  signatureScheme : SignatureScheme
  signature : Bytes
  deriving DecidableEq, Repr

def CertificateVerifyRef.parse : Parser TlsError CertificateVerifyRef := do
  let signatureScheme ← mapError (fun _ => TlsError.invalidSignatureScheme) SignatureScheme.parse
  let len ← mapError (fun _ => TlsError.invalidSignature) readU16
  let signature ← mapError (fun _ => TlsError.invalidSignature) (slice len)
  return { signatureScheme, signature := signature.buffer }

variable {cs : TlsCipherSuite}

/-- The message's own length is not looked at. -/
def Finished.parse : Parser TlsError (Finished cs) := do
  return { verify := ← mapError TlsError.parseError (fill cs.hashLen), hash := none }

def HandshakeType.parse : Parser ParseError HandshakeType := readEnum8 of

inductive ServerHandshake (cs : TlsCipherSuite)
  | serverHello (hello : ServerHello)
  | encryptedExtensions
  | newSessionTicket
  | certificate (certificate : CertificateRef)
  | certificateRequest (request : CertificateRequestRef)
  | certificateVerify (verify : CertificateVerifyRef)
  | finished (finished : Finished cs)
  deriving DecidableEq

namespace ServerHandshake

def parseBody : HandshakeType → Parser TlsError (ServerHandshake cs)
  | .serverHello => return serverHello (← ServerHello.parse)
  | .newSessionTicket => do
      NewSessionTicket.parse
      return newSessionTicket
  | .encryptedExtensions => do
      EncryptedExtensions.parse
      return encryptedExtensions
  | .certificate => return certificate (← CertificateRef.parse)
  | .certificateRequest => return certificateRequest (← CertificateRequestRef.parse)
  | .certificateVerify => return certificateVerify (← CertificateVerifyRef.parse)
  | .finished => return finished (← Finished.parse)
  | _ => throw .unimplemented

def parse : Parser TlsError (ServerHandshake cs) := do
  let handshakeType ← mapError (fun _ => TlsError.invalidHandshake) HandshakeType.parse
  let _ ← mapError (fun _ => TlsError.invalidHandshake) readU24
  parseBody handshakeType

/-- A Finished is given the transcript hash of everything before it. -/
def withHash (hash : GenericArray cs.hashLen) : ServerHandshake cs → ServerHandshake cs
  | finished f => finished { f with hash := some hash }
  | handshake => handshake

/-- The message and the transcript after it. -/
def read (P : Primitives cs) (digest : Bytes) : Parser TlsError (ServerHandshake cs × Bytes) := do
  let handshakeStart ← offset
  let handshake ← parse
  let handshakeEnd ← offset
  let message := ((← get).buffer.drop handshakeStart).take (handshakeEnd - handshakeStart)
  return (handshake.withHash (P.hash digest), digest ++ message)

end ServerHandshake

section Advances

variable {α : Type}

theorem keeps_readEnum16 (of : Nat → Option α) : Keeps Advances (readEnum16 of) := by
  refine keeps_readU16.bind fun v => ?_
  split
  · exact .pure _
  · exact .throw _

theorem readEnum8_eq_ok {of : UInt8 → Option α} {a : α} {b b' : ParseBuffer} :
    readEnum8 of b = .ok a b' ↔ ∃ v, of v = some a ∧ Reads b [v] b' := by
  simp only [readEnum8, bind_eq_ok, readU8_eq_ok, known_eq_ok]
  constructor
  · rintro ⟨v, _, hr, hof, rfl⟩
    exact ⟨v, hof, hr⟩
  · rintro ⟨v, hof, hr⟩
    exact ⟨v, b', hr, hof, rfl⟩

theorem ExtensionGroup.keeps_parseVector (group : ExtensionGroup α) (N : Nat) :
    Keeps Advances (group.parseVector N) :=
  keeps_readU16.mapError.bind fun _ => (keeps_slice _).mapError.bind fun _ => keeps_within _ _

theorem ServerHello.keeps_parse : Keeps Advances ServerHello.parse :=
  keeps_readU16.mapError.bind fun _ => (keeps_fill 32).mapError.bind fun _ =>
    keeps_readU8.mapError.bind fun _ => (keeps_slice _).mapError.bind fun _ =>
      (keeps_readEnum16 _).mapError.bind fun _ => keeps_readU8.mapError.bind fun _ =>
        (ExtensionGroup.keeps_parseVector _ 4).bind fun _ => .pure _

theorem NewSessionTicket.keeps_parse : Keeps Advances NewSessionTicket.parse :=
  keeps_readU32.mapError.bind fun _ => keeps_readU32.mapError.bind fun _ =>
    keeps_readU8.mapError.bind fun _ => (keeps_slice _).mapError.bind fun _ =>
      keeps_readU16.mapError.bind fun _ => (keeps_slice _).mapError.bind fun _ =>
        (ExtensionGroup.keeps_parseVector _ 1).bind fun _ => .pure _

theorem CertificateRef.keeps_parse : Keeps Advances CertificateRef.parse :=
  keeps_readU8.mapError.bind fun _ => (keeps_slice _).mapError.bind fun _ =>
    keeps_readU24.mapError.bind fun _ => (keeps_slice _).mapError.bind fun _ =>
      (keeps_within _ _).bind fun _ => .pure _

theorem CertificateRequestRef.keeps_parse : Keeps Advances CertificateRequestRef.parse :=
  keeps_readU8.mapError.bind fun _ => (keeps_slice _).mapError.bind fun _ =>
    (ExtensionGroup.keeps_parseVector _ 6).bind fun _ => .pure _

theorem CertificateVerifyRef.keeps_parse : Keeps Advances CertificateVerifyRef.parse :=
  (keeps_readEnum16 _).mapError.bind fun _ => keeps_readU16.mapError.bind fun _ =>
    (keeps_slice _).mapError.bind fun _ => .pure _

end Advances

namespace ServerHandshake

theorem keeps_parseBody (t : HandshakeType) :
    Keeps Advances (parseBody t : Parser TlsError (ServerHandshake cs)) := by
  cases t with
  | serverHello => exact ServerHello.keeps_parse.bind fun _ => .pure _
  | newSessionTicket => exact NewSessionTicket.keeps_parse.bind fun _ => .pure _
  | encryptedExtensions =>
      exact ((ExtensionGroup.keeps_parseVector _ 16).bind fun _ => .pure _).bind fun _ => .pure _
  | certificate => exact CertificateRef.keeps_parse.bind fun _ => .pure _
  | certificateRequest => exact CertificateRequestRef.keeps_parse.bind fun _ => .pure _
  | certificateVerify => exact CertificateVerifyRef.keeps_parse.bind fun _ => .pure _
  | finished => exact ((keeps_fill _).mapError.bind fun _ => .pure _).bind fun _ => .pure _
  | _ => exact .throw _

/-- A message goes over its header at least. -/
theorem parse_reads {b b' : ParseBuffer} {handshake : ServerHandshake cs}
    (h : parse b = .ok handshake b') : ∃ w : Bytes, 4 ≤ w.length ∧ Reads b w b' := by
  simp only [parse, bind_eq_ok, mapError_eq_ok, HandshakeType.parse, readEnum8_eq_ok,
    readU24_eq_ok] at h
  obtain ⟨t, b₁, ⟨v, -, hv⟩, n, b₂, ⟨-, hn⟩, hbody⟩ := h
  obtain ⟨w, hw⟩ := (keeps_parseBody t).ok hbody
  exact ⟨_, by simp, (hv.trans hn).trans hw⟩

/-- What is fed to the transcript are the bytes the parser went over. -/
theorem read_eq_ok {P : Primitives cs} {digest digest' : Bytes} {b b' : ParseBuffer}
    {handshake : ServerHandshake cs} (h : read P digest b = .ok (handshake, digest') b') :
    ∃ w : Bytes, 4 ≤ w.length ∧ Reads b w b' ∧ digest' = digest ++ w := by
  simp only [read, bind_eq_ok, offset_apply, get_apply, pure_apply, EStateM.Result.ok.injEq,
    Prod.mk.injEq] at h
  obtain ⟨_, _, ⟨rfl, rfl⟩, m, b₁, hparse, _, _, ⟨rfl, rfl⟩, _, _, ⟨rfl, rfl⟩, ⟨-, rfl⟩, rfl⟩ := h
  obtain ⟨w, hlen, hw⟩ := parse_reads hparse
  refine ⟨w, hlen, hw, ?_⟩
  rw [hw.buffer_eq, hw.pos_eq, Nat.add_sub_cancel_left,
    show b.buffer.drop b.pos = w ++ b₁.rest from hw.rest_eq, List.take_left]

/-- The digest has no say in which message is read. -/
theorem read_parse {P : Primitives cs} {digest digest' : Bytes} {b b' : ParseBuffer}
    {m : ServerHandshake cs} (h : read P digest b = .ok (m, digest') b') :
    ∃ parsed : ServerHandshake cs, parse b = .ok parsed b' ∧ m = parsed.withHash (P.hash digest) := by
  simp only [read, bind_eq_ok, offset_apply, get_apply, pure_apply, EStateM.Result.ok.injEq,
    Prod.mk.injEq] at h
  obtain ⟨_, _, ⟨rfl, rfl⟩, parsed, b₁, hparse, _, _, ⟨rfl, rfl⟩, _, _, ⟨rfl, rfl⟩, ⟨rfl, -⟩, rfl⟩ := h
  exact ⟨parsed, hparse, rfl⟩

theorem read_of_parse {P : Primitives cs} {d : Bytes} {b b' : ParseBuffer} {m : ServerHandshake cs}
    (h : parse b = .ok m b') : ∃ m' d', read P d b = .ok (m', d') b' :=
  ⟨_, _, bind_eq_ok.mpr ⟨_, _, rfl, bind_eq_ok.mpr ⟨_, _, h, rfl⟩⟩⟩

end ServerHandshake

end GatoPskTls
